import VueSfc.Text.Search
import VueSfc.Text.Cutter

/-!
# Elements

An element is an opening tag `<name …>`, its content, and the first closing tag `</name>`
after it. Names are compared without regard to the case of ASCII letters, and an opening
tag is known by the name that it begins with, so `<header>` opens a `head`. Elements do not
nest: the content ends at the first closing tag.
-/

namespace VueSfc.Markup

open Text

/-- The three parts of an element, which together are its text. -/
structure Element where
  /-- The opening tag, from its `<` to the first `>`. -/
  openTag : Text
  /-- Everything between the two tags. -/
  content : Text
  /-- The closing tag as written. -/
  closeTag : Text
  deriving DecidableEq, Repr

namespace Element

/-- The text of an element. -/
def text (e : Element) : Text := e.openTag ++ e.content ++ e.closeTag

/-- What an opening tag of the given name begins with. -/
def opening (name : Text) : Text := '<' :: name

/-- The closing tag of the given name. -/
def closing (name : Text) : Text := "</" ++ name ++ ['>']

/-- Read an element of the given name at the front of a text. -/
def read? (name : Text) (text : Text) : Option (Element × Text) :=
  if startsFold (opening name) text then
    match cutAfter? '>' text with
    | none => none
    | some (openTag, inside) =>
      match cutBefore? (startsFold (closing name)) inside with
      | none => none
      | some (content, tail) =>
        some (⟨openTag, content, tail.take (closing name).length⟩,
          tail.drop (closing name).length)
  else none

/-- An element and what follows it make up the text that was read. -/
theorem text_append_of_read? {name source rest : Text} {e : Element}
    (h : read? name source = some (e, rest)) : source = e.text ++ rest := by
  unfold read? at h
  split at h
  · split at h
    · simp at h
    · rename_i openTag inside ho
      split at h
      · simp at h
      · rename_i content tail hc
        simp only [Option.some.injEq, Prod.mk.injEq] at h
        obtain ⟨rfl, rfl⟩ := h
        rw [append_of_cutAfter? ho, append_of_cutBefore? hc]
        simp [text]
  · simp at h

/-- An opening tag is never empty. -/
theorem openTag_ne_nil_of_read? {name source rest : Text} {e : Element}
    (h : read? name source = some (e, rest)) : e.openTag ≠ [] := by
  unfold read? at h
  split at h
  · split at h
    · simp at h
    · rename_i openTag inside ho
      split at h
      · simp at h
      · simp only [Option.some.injEq, Prod.mk.injEq] at h
        obtain ⟨rfl, rfl⟩ := h
        cases source with
        | nil => simp [cutAfter?] at ho
        | cons c r =>
          simp only [cutAfter?] at ho
          split at ho
          · simp only [Option.some.injEq, Prod.mk.injEq] at ho
            simp [← ho.1]
          · obtain ⟨⟨f, b⟩, -, he⟩ := Option.map_eq_some_iff.1 ho
            simp only [Prod.mk.injEq] at he
            simp [← he.1]
  · simp at h

/-- The cutter of the elements with the given name. -/
def cutter (name : Text) : Cutter Element where
  read? := read? name
  shorter {source e rest} h := by
    have ht := congrArg List.length (text_append_of_read? h)
    have ho := List.length_pos_iff.2 (openTag_ne_nil_of_read? h)
    simp only [text, List.length_append] at ht
    omega

/-- The leftmost element of the given name, with what precedes and what follows it. -/
def find? (name text : Text) : Option (Text × Element × Text) := (cutter name).find? text

/-- A text without its elements of the given name, and their contents in order. -/
def excise (name text : Text) : Text × List Text :=
  let (left, elements) := (cutter name).cut text
  (left, elements.map content)

/-- Where an element lies in a text, in bytes. -/
structure Span where
  /-- Offset of the opening tag. -/
  start : Nat
  /-- Offset of the content. -/
  contentStart : Nat
  /-- Offset of the closing tag. -/
  contentStop : Nat
  /-- Offset just past the closing tag. -/
  stop : Nat
  deriving DecidableEq, Repr

/-- The span of an element that stands at the given offset. -/
def spanAt (e : Element) (start : Nat) : Span :=
  let contentStart := start + byteSize e.openTag
  let contentStop := contentStart + byteSize e.content
  ⟨start, contentStart, contentStop, contentStop + byteSize e.closeTag⟩

/-- The span of the leftmost element that opens at or after the given byte offset. -/
def findFrom? (name text : Text) (start : Nat) : Option Span :=
  (cutAtByte? start text).bind fun (skipped, rest) =>
    (find? name rest).map fun (front, e, _) => e.spanAt (byteSize skipped + byteSize front)

end Element

end VueSfc.Markup
