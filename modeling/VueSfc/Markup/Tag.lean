import VueSfc.Text.Search
import VueSfc.Text.Cutter

/-!
# Tags

A tag runs from a `<` with a given name to the next `>`. Removing tags keeps whatever
stands between them.
-/

namespace VueSfc.Markup

open Text

/-- Which tags of a name are meant. -/
inductive TagForm where
  /-- Only `<name …>`. -/
  | opening
  /-- `<name …>` and `</name …>`. -/
  | openingOrClosing
  deriving DecidableEq, Repr

namespace Tag

/-- What follows the slash of a closing tag, where closing tags are meant and there is one. -/
def afterSlash : TagForm → Text → Text
  | .openingOrClosing, '/' :: r => r
  | _, r => r

/-- Read a tag of the given name and form at the front of a text. -/
def read? (form : TagForm) (name : Text) : Text → Option (Text × Text)
  | '<' :: r =>
    if startsFold name (afterSlash form r) then
      (cutAfter? '>' r).map fun (tag, rest) => ('<' :: tag, rest)
    else none
  | _ => none

/-- A tag and what follows it make up the text that was read. -/
theorem append_of_read? {form : TagForm} {name source tag rest : Text}
    (h : read? form name source = some (tag, rest)) : source = tag ++ rest := by
  unfold read? at h
  split at h
  · split at h
    · obtain ⟨⟨f, b⟩, hf, he⟩ := Option.map_eq_some_iff.1 h
      simp only [Prod.mk.injEq] at he
      obtain ⟨rfl, rfl⟩ := he
      simp [append_of_cutAfter? hf]
    · simp at h
  · simp at h

/-- The cutter of the tags with the given form and name. -/
def cutter (form : TagForm) (name : Text) : Cutter Text where
  read? := read? form name
  shorter {source tag rest} h := by
    have ht := congrArg List.length (append_of_read? h)
    have hn : 0 < tag.length := by
      unfold read? at h
      split at h
      · split at h
        · obtain ⟨⟨f, b⟩, -, he⟩ := Option.map_eq_some_iff.1 h
          simp only [Prod.mk.injEq] at he
          simp [← he.1]
        · simp at h
      · simp at h
    rw [List.length_append] at ht
    omega

/-- A text without its tags of the given form and name. -/
def strip (form : TagForm) (name text : Text) : Text := (cutter form name).remove text

end Tag

end VueSfc.Markup
