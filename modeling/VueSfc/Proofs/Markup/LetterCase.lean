import VueSfc.Markup.Template
import VueSfc.Proofs.Markup.BlankRun
import VueSfc.Proofs.Text.LetterCase

/-!
# Markup in lower case

Elements and tags are read in a text in lower case where they are read in the text itself, since
names are compared without regard to case and what ends a tag is no letter. So every step from the
markup of a page to its template leaves the same text up to case, and a template is accepted, or
turned down for the same reason, in either case.
-/

namespace VueSfc.Markup

open Text

/-! ## Elements and tags -/

namespace Element

/-- An element in lower case. -/
def lower (e : Element) : Element :=
  ⟨lowerAscii e.openTag, lowerAscii e.content, lowerAscii e.closeTag⟩

/-- Elements are read in either case. -/
theorem ignoresCase_cutter (name : Text) : (cutter name).IgnoresCase lower := by
  intro text
  change read? name (lowerAscii text) = (read? name text).map (Prod.map lower lowerAscii)
  rw [read?, read?, startsFold_lowerAscii]
  split
  · rw [cutAfter?_lowerAscii rfl]
    cases cutAfter? '>' text with
    | none => rfl
    | some tag =>
      obtain ⟨openTag, inside⟩ := tag
      dsimp only [Option.map_some, Prod.map_apply]
      rw [cutBefore?_lowerAscii (startsFold_lowerAscii _)]
      cases cutBefore? (startsFold (closing name)) inside with
      | none => rfl
      | some found =>
        obtain ⟨content, tail⟩ := found
        simp only [Option.map_some, Prod.map_apply, lower, lowerAscii_take, lowerAscii_drop]
  · rfl

/-- The leftmost element is the same in either case. -/
theorem find?_lowerAscii (name text : Text) :
    find? name (lowerAscii text) =
      (find? name text).map (Prod.map lowerAscii (Prod.map lower lowerAscii)) :=
  (ignoresCase_cutter name).find? text

/-- The same elements are taken out in either case. -/
theorem excise_lowerAscii (name text : Text) :
    excise name (lowerAscii text) =
      (excise name text).map lowerAscii (List.map lowerAscii) := by
  rw [excise, excise, (ignoresCase_cutter name).cut]
  simp only [Prod.map, List.map_map]
  rfl

end Element

namespace Tag

/-- What follows the slash of a closing tag, in either case. -/
theorem afterSlash_lowerAscii (form : TagForm) (text : Text) :
    afterSlash form (lowerAscii text) = lowerAscii (afterSlash form text) := by
  cases form with
  | opening => rfl
  | openingOrClosing =>
    cases text with
    | nil => rfl
    | cons c text =>
      by_cases hc : c = '/'
      · subst hc
        rfl
      · have hl : c.toLower ≠ '/' := fun h => hc (eq_of_toLower_eq rfl h)
        simp [afterSlash, hc, hl]

/-- Tags are read in either case. -/
theorem ignoresCase_cutter (form : TagForm) (name : Text) :
    (cutter form name).IgnoresCase lowerAscii := by
  intro text
  change read? form name (lowerAscii text) =
    (read? form name text).map (Prod.map lowerAscii lowerAscii)
  cases text with
  | nil => rfl
  | cons c text =>
    by_cases hc : c = '<'
    · subst hc
      change read? form name ('<' :: lowerAscii text) = _
      rw [read?, read?, afterSlash_lowerAscii, startsFold_lowerAscii, cutAfter?_lowerAscii rfl]
      split
      · rw [Option.map_map, Option.map_map]
        rfl
      · rfl
    · have hl : c.toLower ≠ '<' := fun h => hc (eq_of_toLower_eq rfl h)
      simp [read?, hc, hl]

/-- The same tags are taken out in either case. -/
theorem strip_lowerAscii (form : TagForm) (name text : Text) :
    strip form name (lowerAscii text) = lowerAscii (strip form name text) := by
  rw [strip, strip, Cutter.remove, Cutter.remove, (ignoresCase_cutter form name).cut]
  rfl

end Tag

/-! ## Templates -/

/-- Runs are collapsed in either case. -/
theorem collapse_lowerAscii (text : Text) :
    collapse (lowerAscii text) = lowerAscii (collapse text) :=
  collapse_map isBlank_toLower (toLower_beq rfl) text

namespace Template

/-- The body is found in either case. -/
theorem bodyOrAll_lowerAscii (text : Text) :
    bodyOrAll (lowerAscii text) = lowerAscii (bodyOrAll text) := by
  rw [bodyOrAll, bodyOrAll, Element.find?_lowerAscii]
  cases Element.find? "body" text with
  | none => rfl
  | some found =>
    obtain ⟨front, body, back⟩ := found
    have hempty : (lowerAscii body.content).isEmpty = body.content.isEmpty := List.isEmpty_map
    simp only [Option.map_some, Prod.map_apply, Element.lower, hempty]
    split <;> rfl

/-- The template does not depend on letter case. -/
theorem isolate_lowerAscii (markup : Text) :
    isolate (lowerAscii markup) = lowerAscii (isolate markup) := by
  simp only [isolate, withoutMetadata, Tag.strip_lowerAscii, Element.excise_lowerAscii,
    Prod.map_fst, bodyOrAll_lowerAscii, trim_lowerAscii, collapse_lowerAscii]

/-- A text shows an element in either case. -/
theorem hasElementSyntax_lowerAscii (text : Text) :
    hasElementSyntax (lowerAscii text) = hasElementSyntax text := by
  have hopen (c d : Char) :
      (c.toLower == '<' && d.toLower.isAlpha) = (c == '<' && d.isAlpha) := by
    rw [toLower_beq rfl, Char.isAlpha_toLower_eq_isAlpha]
  induction text using hasElementSyntax.induct with
  | case1 => rfl
  | case2 c => rfl
  | case3 c d text h =>
    rw [lowerAscii_cons, lowerAscii_cons, hasElementSyntax, hopen, if_pos h, hasElementSyntax,
      if_pos h, contains_lowerAscii (by decide)]
  | case4 c d text h ih =>
    rw [lowerAscii_cons] at ih
    rw [lowerAscii_cons, lowerAscii_cons, hasElementSyntax, hopen, if_neg h, hasElementSyntax,
      if_neg h, ih]

/-- A text opens with a keyword in either case. -/
theorem opensWith_lowerAscii (text keyword : Text) :
    opensWith (lowerAscii text) keyword = opensWith text keyword := by
  rw [opensWith, opensWith, startsFold_lowerAscii, ← lowerAscii_drop, lowerAscii, List.head?_map,
    Option.any_map, funext isBlank_toLower]

/-- A template is accepted in either case, or turned down for the same reason. -/
theorem check_lowerAscii (template : Text) : check (lowerAscii template) = check template := by
  have hkeyword : leadingKeyword? (lowerAscii template) = leadingKeyword? template := by
    rw [leadingKeyword?, leadingKeyword?, funext (opensWith_lowerAscii template)]
  rw [check, check, allBlank_lowerAscii, hasElementSyntax_lowerAscii, hkeyword]

end Template

end VueSfc.Markup
