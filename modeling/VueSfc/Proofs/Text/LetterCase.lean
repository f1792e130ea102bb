import Mathlib
import VueSfc.Proofs.Text.Occurrence
import VueSfc.Text.Blank

/-!
# Texts in lower case

Two texts agree up to the case of ASCII letters just when they are the same in lower case. So that
something does not depend on letter case is said by one equation: a text in lower case is searched,
trimmed and cut at the same places as the text itself. For a cutter it is enough that it reads a
text in lower case as it reads the text.
-/

namespace VueSfc.Text

/-! ## Characters -/

/-- A character that is no letter is told from all others in either case. -/
theorem toLower_beq {c : Char} (hc : c.isAlpha = false) (d : Char) :
    (d.toLower == c) = (d == c) := by
  rw [Bool.eq_iff_iff, beq_iff_eq, beq_iff_eq]
  exact ⟨eq_of_toLower_eq hc, fun h => h ▸ toLower_eq_self (h ▸ hc)⟩

/-- No letter is blank. -/
theorem isBlank_eq_false_of_isAlpha {c : Char} (h : c.isAlpha = true) : isBlank c = false := by
  have hn : 65 ≤ c.toNat ∧ c.toNat ≤ 90 ∨ 97 ≤ c.toNat ∧ c.toNat ≤ 122 := by
    rcases Bool.or_eq_true_iff.1 h with hu | hl
    · exact .inl (of_decide_eq_true hu)
    · exact .inr ((Bool.and_eq_true_iff.1 hl).imp of_decide_eq_true of_decide_eq_true)
  refine Bool.eq_false_iff.2 fun hb => ?_
  simp only [isBlank, blankRanges, List.any_cons, List.any_nil, Bool.or_eq_true, Bool.and_eq_true,
    decide_eq_true_eq, Bool.or_false] at hb
  omega

/-- Blank characters are told from all others in either case. -/
theorem isBlank_toLower (c : Char) : isBlank c.toLower = isBlank c := by
  by_cases h : c.isAlpha = true
  · rw [isBlank_eq_false_of_isAlpha h,
      isBlank_eq_false_of_isAlpha ((Char.isAlpha_toLower_eq_isAlpha c).trans h)]
  · rw [toLower_eq_self (by simpa using h)]

/-- A letter agrees with the same characters in either case. -/
theorem sameFold_toLower (p c : Char) : sameFold p c.toLower = sameFold p c := by
  rw [sameFold, sameFold, Char.toLower_toLower_eq_toLower]

/-! ## Texts -/

@[simp] theorem lowerAscii_nil : lowerAscii [] = [] := rfl

@[simp] theorem lowerAscii_cons (c : Char) (text : Text) :
    lowerAscii (c :: text) = c.toLower :: lowerAscii text := rfl

@[simp] theorem lowerAscii_take (n : Nat) (text : Text) :
    lowerAscii (text.take n) = (lowerAscii text).take n :=
  List.map_take

@[simp] theorem lowerAscii_drop (n : Nat) (text : Text) :
    lowerAscii (text.drop n) = (lowerAscii text).drop n :=
  List.map_drop

@[simp] theorem lowerAscii_reverse (text : Text) :
    lowerAscii text.reverse = (lowerAscii text).reverse :=
  List.map_reverse

/-- The same characters are left behind those that pass a test that does not depend on letter
case. -/
theorem dropWhile_lowerAscii {test : Char → Bool} (ht : ∀ c, test c.toLower = test c)
    (text : Text) : (lowerAscii text).dropWhile test = lowerAscii (text.dropWhile test) := by
  rw [lowerAscii, List.dropWhile_map, Function.comp_def, funext ht]
  rfl

/-- Trimming does not depend on letter case. -/
theorem trim_lowerAscii (text : Text) : trim (lowerAscii text) = lowerAscii (trim text) := by
  rw [trim, trim, trimEnd, trimEnd, trimStart, trimStart, dropWhile_lowerAscii isBlank_toLower,
    ← lowerAscii_reverse, dropWhile_lowerAscii isBlank_toLower, lowerAscii_reverse]

/-- A text is blank in either case. -/
theorem allBlank_lowerAscii (text : Text) : allBlank (lowerAscii text) = allBlank text := by
  rw [allBlank, allBlank, lowerAscii, List.all_map, Function.comp_def, funext isBlank_toLower]

/-! ## Searching -/

/-- A character that is no letter is found in either case. -/
theorem contains_lowerAscii {c : Char} (hc : c.isAlpha = false) (text : Text) :
    (lowerAscii text).contains c = text.contains c := by
  rw [Bool.eq_iff_iff, List.contains_iff_mem, List.contains_iff_mem, mem_lowerAscii hc]

/-- A word stands at the front of a text in either case. -/
theorem startsFold_lowerAscii (word text : Text) :
    startsFold word (lowerAscii text) = startsFold word text := by
  induction word generalizing text with
  | nil => rfl
  | cons p word ih =>
    cases text with
    | nil => rfl
    | cons c text =>
      rw [lowerAscii_cons, startsFold, startsFold, sameFold_toLower, ih]

/-- A text is cut behind the same occurrence of a character that is no letter in either case. -/
theorem cutAfter?_lowerAscii {c : Char} (hc : c.isAlpha = false) (text : Text) :
    cutAfter? c (lowerAscii text) = (cutAfter? c text).map (Prod.map lowerAscii lowerAscii) := by
  induction text with
  | nil => rfl
  | cons d text ih =>
    rw [lowerAscii_cons, cutAfter?, cutAfter?, ih]
    by_cases hd : d = c
    · subst hd
      rw [if_pos (toLower_eq_self hc), if_pos rfl]
      rfl
    · rw [if_neg fun h => hd (eq_of_toLower_eq hc h), if_neg hd, Option.map_map, Option.map_map]
      rfl

/-- A text is cut before the same end in either case, if the test does not depend on it. -/
theorem cutBefore?_lowerAscii {test : Text → Bool} (ht : ∀ text, test (lowerAscii text) = test text)
    (text : Text) : cutBefore? test (lowerAscii text) =
      (cutBefore? test text).map (Prod.map lowerAscii lowerAscii) := by
  induction text with
  | nil =>
    rw [lowerAscii_nil, cutBefore?]
    split <;> rfl
  | cons c text ih =>
    rw [lowerAscii_cons, cutBefore?, ← lowerAscii_cons, ht, ih, cutBefore?]
    split
    · rfl
    · rw [Option.map_map, Option.map_map]
      rfl

/-! ## Cutting -/

namespace Cutter

variable {α : Type} {cutter : Cutter α} {lower : α → α}

/-- The cutter reads a text in lower case as it reads the text, with the piece in lower case. -/
def IgnoresCase (cutter : Cutter α) (lower : α → α) : Prop :=
  ∀ text, cutter.read? (lowerAscii text) =
    (cutter.read? text).map (Prod.map lower lowerAscii)

/-- The leftmost piece is the same in either case. -/
theorem IgnoresCase.find? (h : cutter.IgnoresCase lower) (text : Text) :
    cutter.find? (lowerAscii text) =
      (cutter.find? text).map (Prod.map lowerAscii (Prod.map lower lowerAscii)) := by
  induction text with
  | nil => rfl
  | cons c text ih =>
    rw [lowerAscii_cons, Cutter.find?, ← lowerAscii_cons, h, ih, Cutter.find?]
    cases cutter.read? (c :: text) with
    | some found => rfl
    | none =>
      rw [Option.map_none, Option.map_map, Option.map_map]
      rfl

/-- The same pieces are cut out in either case, and the same text is left. -/
theorem IgnoresCase.cut (h : cutter.IgnoresCase lower) (text : Text) :
    cutter.cut (lowerAscii text) = (cutter.cut text).map lowerAscii (List.map lower) := by
  induction text using cut.induct cutter with
  | case1 =>
    rw [lowerAscii_nil, cut_nil]
    rfl
  | case2 c text piece rest hr _ _ _ ih =>
    have hl : cutter.read? (lowerAscii (c :: text)) = some (lower piece, lowerAscii rest) := by
      rw [h, hr]
      rfl
    rw [cut_of_read? hl, ih, cut_of_read? hr]
    rfl
  | case3 c text hr _ _ _ ih =>
    have hl : cutter.read? (c.toLower :: lowerAscii text) = none := by
      rw [← lowerAscii_cons, h, hr]
      rfl
    rw [lowerAscii_cons, cut_cons_of_read?_eq_none hl, ih, cut_cons_of_read?_eq_none hr]
    rfl

end Cutter

end VueSfc.Text
