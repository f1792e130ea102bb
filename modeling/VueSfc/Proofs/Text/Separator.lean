import VueSfc.Proofs.Text.LetterCase
import VueSfc.Proofs.Text.Lines

/-!
# Occurrences between separators

A character that is no letter and does not stand in a word separates the occurrences of the word:
each of them lies on one side of it. So an occurrence is neither made nor lost where separators
are added to a text or taken away from its ends, and it lies in one line of a text if the word has
no line feed. A tag word has in addition no occurrence that begins where no `<` stands.
-/

namespace VueSfc.Text

/-- A character that no occurrence of the word has. -/
structure Separates (c : Char) (word : Text) : Prop where
  /-- It does not stand in the word. -/
  notMem : c ∉ word
  /-- It has no other case. -/
  not_isAlpha : c.isAlpha = false

/-- Blank characters separate the words that have none. -/
theorem separates_of_isBlank {c : Char} {word : Text} (hc : isBlank c = true)
    (hw : ∀ d ∈ word, isBlank d = false) : Separates c word where
  notMem hm := by
    rw [hw c hm] at hc
    contradiction
  not_isAlpha := by
    by_contra ha
    rw [isBlank_eq_false_of_isAlpha (by simpa using ha)] at hc
    contradiction

/-- A word occurs where it is a stretch of the text in lower case. -/
theorem occursFold_iff_isInfix {word text : Text} :
    OccursFold word text ↔ lowerAscii word <:+: lowerAscii text := by
  constructor
  · rintro ⟨front, middle, back, rfl, h⟩
    rw [eqFold_iff.1 h]
    refine ⟨lowerAscii front, lowerAscii back, ?_⟩
    simp only [lowerAscii, List.map_append]
  · rintro ⟨front, back, h⟩
    obtain ⟨front', rest, rfl, hfront, hback⟩ := List.map_eq_append_iff.1 h.symm
    obtain ⟨front'', middle, rfl, -, hmiddle⟩ := List.map_eq_append_iff.1 hfront
    exact ⟨front'', middle, rest, rfl, eqFold_iff.2 hmiddle.symm⟩

/-- A word that is not empty does not occur in the empty text. -/
theorem not_occursFold_nil {word : Text} (hn : word ≠ []) : ¬ OccursFold word [] := by
  rw [occursFold_iff_isInfix, lowerAscii_nil, List.infix_nil]
  exact mt List.map_eq_nil_iff.1 hn

section

variable {word : Text}

/-- Every occurrence lies on one side of a separator. -/
theorem occursFold_append_cons_iff {c : Char} (hc : Separates c word) (front back : Text) :
    OccursFold word (front ++ c :: back) ↔ OccursFold word front ∨ OccursFold word back := by
  have hm : c ∉ lowerAscii word := by
    rw [mem_lowerAscii hc.not_isAlpha]
    exact hc.notMem
  have ht : lowerAscii (front ++ c :: back) = lowerAscii front ++ c :: lowerAscii back := by
    rw [lowerAscii, List.map_append, List.map_cons, toLower_eq_self hc.not_isAlpha]
    rfl
  rw [occursFold_iff_isInfix, occursFold_iff_isInfix, occursFold_iff_isInfix, ht]
  exact isInfix_append_cons_iff hm _ _

variable (hn : word ≠ [])
include hn

/-- Separators in front hold no occurrence and begin none. -/
theorem occursFold_append_left_iff {front : Text} (hf : ∀ c ∈ front, Separates c word)
    (text : Text) : OccursFold word (front ++ text) ↔ OccursFold word text := by
  induction front with
  | nil => rfl
  | cons c front ih =>
    rw [List.forall_mem_cons] at hf
    rw [← List.nil_append (c :: front ++ text), List.cons_append,
      occursFold_append_cons_iff hf.1, ih hf.2]
    exact or_iff_right (not_occursFold_nil hn)

/-- Separators at the end hold no occurrence and end none. -/
theorem occursFold_append_right_iff {back : Text} (hb : ∀ c ∈ back, Separates c word)
    (text : Text) : OccursFold word (text ++ back) ↔ OccursFold word text := by
  cases back with
  | nil => rw [List.append_nil]
  | cons c back =>
    rw [List.forall_mem_cons] at hb
    have hnone : ¬ OccursFold word back := by
      have hiff := occursFold_append_left_iff hn hb.2 []
      rw [List.append_nil] at hiff
      exact mt hiff.1 (not_occursFold_nil hn)
    rw [occursFold_append_cons_iff hb.1]
    exact or_iff_left hnone

/-- An occurrence without blank characters is neither lost nor made by trimming the front. -/
theorem occursFold_trimStart_iff (hw : ∀ c ∈ word, isBlank c = false) (text : Text) :
    OccursFold word (trimStart text) ↔ OccursFold word text := by
  conv_rhs => rw [← List.takeWhile_append_dropWhile (p := isBlank) (l := text)]
  refine (occursFold_append_left_iff hn ?_ _).symm
  intro c hc
  exact separates_of_isBlank (List.mem_takeWhile_imp hc) hw

/-- An occurrence without blank characters is neither lost nor made by trimming the end. -/
theorem occursFold_trimEnd_iff (hw : ∀ c ∈ word, isBlank c = false) (text : Text) :
    OccursFold word (trimEnd text) ↔ OccursFold word text := by
  have he : text = trimEnd text ++ (text.reverse.takeWhile isBlank).reverse := by
    have h := congrArg List.reverse
      (List.takeWhile_append_dropWhile (p := isBlank) (l := text.reverse))
    rw [List.reverse_reverse, List.reverse_append] at h
    exact h.symm
  conv_rhs => rw [he]
  refine (occursFold_append_right_iff hn ?_ _).symm
  intro c hc
  exact separates_of_isBlank (List.mem_takeWhile_imp (List.mem_reverse.1 hc)) hw

/-- An occurrence without blank characters is neither lost nor made by trimming. -/
theorem occursFold_trim_iff (hw : ∀ c ∈ word, isBlank c = false) (text : Text) :
    OccursFold word (trim text) ↔ OccursFold word text := by
  rw [trim, occursFold_trimEnd_iff hn hw, occursFold_trimStart_iff hn hw]

/-- An occurrence without a line feed lies in one of the joined pieces. -/
theorem occursFold_unlines_iff (hf : '\n' ∉ word) (pieces : List Text) :
    OccursFold word (unlines pieces) ↔ ∃ piece ∈ pieces, OccursFold word piece := by
  induction pieces with
  | nil => simpa [unlines, joinWith] using not_occursFold_nil hn
  | cons piece pieces ih =>
    by_cases hp : pieces = []
    · simp [hp, unlines, joinWith]
    · rw [unlines_cons_of_ne_nil hp, occursFold_append_cons_iff ⟨hf, rfl⟩, ih]
      simp

/-- Before the last character a word occurs where something stands behind an occurrence. -/
theorem occursFold_dropLast_iff {text : Text} :
    OccursFold word text.dropLast ↔
      ∃ front middle back, text = front ++ middle ++ back ∧ eqFold word middle = true ∧
        back ≠ [] := by
  constructor
  · rintro ⟨front, middle, back, he, hm⟩
    have hmiddle : middle ≠ [] := by
      rintro rfl
      exact hn (List.length_eq_zero_iff.1 (length_eq_of_eqFold hm).symm)
    have hne : text ≠ [] := by
      rintro rfl
      obtain ⟨hf, -⟩ := List.append_eq_nil_iff.1 he.symm
      exact hmiddle (List.append_eq_nil_iff.1 hf).2
    refine ⟨front, middle, back ++ [text.getLast hne], ?_, hm, by simp⟩
    rw [← List.append_assoc, ← he, List.dropLast_append_getLast]
  · rintro ⟨front, middle, back, rfl, hm, hb⟩
    refine ⟨front, middle, back.dropLast, ?_, hm⟩
    rw [List.dropLast_append_of_ne_nil hb]

/-- Of lines that end with a word, the word occurs before its last character just when it occurs in
another line. -/
theorem occursFold_dropLast_unlines_iff (hf : '\n' ∉ word) {ls : List Text} (hl : ls ≠ []) :
    OccursFold word (unlines (ls ++ [word])).dropLast ↔ ∃ line ∈ ls, OccursFold word line := by
  have hlast : unlines (ls ++ [word]) = unlines ls ++ '\n' :: word := by
    rw [unlines_append hl (List.cons_ne_nil _ _), unlines_singleton]
  have hshort : ¬ OccursFold word word.dropLast := by
    rintro ⟨front, middle, back, he, hm⟩
    have hpos := List.length_pos_iff.2 hn
    have hlength := congrArg List.length he
    rw [List.length_dropLast, List.length_append, List.length_append,
      length_eq_of_eqFold hm] at hlength
    omega
  rw [hlast, List.dropLast_append_of_ne_nil (List.cons_ne_nil _ _),
    List.dropLast_cons_of_ne_nil hn, occursFold_append_cons_iff ⟨hf, rfl⟩,
    occursFold_unlines_iff hn hf]
  exact or_iff_left hshort

/-- Where lines end with a word that occurs in none of the others, it occurs at the end only. -/
theorem eq_of_unlines_concat (hf : '\n' ∉ word) {ls : List Text} (hl : ls ≠ [])
    (h : ∀ line ∈ ls, ¬ OccursFold word line) {front middle back : Text}
    (he : unlines (ls ++ [word]) = front ++ middle ++ back) (hm : eqFold word middle = true) :
    middle = word ∧ back = [] := by
  have hback : back = [] := by
    by_contra hb
    obtain ⟨line, hmem, ho⟩ := (occursFold_dropLast_unlines_iff hn hf hl).1
      ((occursFold_dropLast_iff hn).2 ⟨front, middle, back, he, hm, hb⟩)
    exact h line hmem ho
  subst hback
  rw [List.append_nil, unlines_append hl (List.cons_ne_nil _ _), unlines_singleton,
    ← List.singleton_append, ← List.append_assoc] at he
  exact ⟨(List.append_inj_right' he (length_eq_of_eqFold hm).symm).symm, rfl⟩

/-- An occurrence without a line feed lies in one of the lines. -/
theorem occursFold_iff_lines (hf : '\n' ∉ word) (text : Text) :
    OccursFold word text ↔ ∃ line ∈ lines text, OccursFold word line := by
  rw [← occursFold_unlines_iff hn hf, unlines, joinWith, lines, List.intercalate_splitOn]

end

/-- A text without `<` in front holds no occurrence of a tag word and begins none. -/
theorem IsTagWord.occursFold_append_iff {word front : Text} (hw : IsTagWord word)
    (hf : '<' ∉ front) (text : Text) :
    OccursFold word (front ++ text) ↔ OccursFold word text :=
  ⟨hw.occursFold_of_append hf, fun h => h.of_append_right front⟩

end VueSfc.Text
