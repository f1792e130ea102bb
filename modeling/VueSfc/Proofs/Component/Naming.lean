import VueSfc.Component.Name
import VueSfc.Script.Token
import VueSfc.Proofs.Path.Names
import VueSfc.Proofs.Text.UpperCase

/-!
# Names of components

The name of a component is made of the words of the file's stem behind its first letter. What
separates two words is not told apart, so any separator can stand for another one. An underscore is
no separator: the name has just the underscores of the stem. A stem of ASCII gives a name that
begins with an upper case letter and goes on with letters, digits and underscores, and a file of
that name gives the same name again.
-/

namespace VueSfc.Component

open Text Offset VueSfc.Path
open VueSfc.Script (isWordChar)

/-! ## Words -/

/-- The part of a stem that its words are taken from: what begins with the first letter. -/
def lettered (stem : Text) : Text := stem.dropWhile fun c => !isAlphabetic c

/-- What stands behind a letter belongs to the part that words are taken from. -/
theorem lettered_append {before : Text} (h : ∃ c ∈ before, isAlphabetic c = true) (after : Text) :
    lettered (before ++ after) = lettered before ++ after := by
  obtain ⟨c, hc, ha⟩ := h
  rw [lettered, List.dropWhile_append, if_neg, lettered]
  rw [List.isEmpty_iff, List.dropWhile_eq_nil_iff]
  intro hall
  have hc' := hall c hc
  rw [ha] at hc'
  contradiction

/-- That part begins with a letter. -/
theorem isAlphabetic_of_lettered {stem rest : Text} {first : Char}
    (h : lettered stem = first :: rest) : isAlphabetic first = true := by
  have hnot := List.head?_dropWhile_not (fun c => !isAlphabetic c) stem
  rw [← lettered, h, List.head?_cons] at hnot
  simpa using hnot

/-- A character that is no part of a word separates the words on its two sides. -/
theorem words_append_cons {c : Char} (hc : isNameChar c = false) (front rest : Text) :
    words (front ++ c :: rest) = words front ++ words rest :=
  List.splitOnP_append_cons front rest (by simp [hc])

/-- Characters of words only are one word. -/
theorem words_eq_singleton {text : Text} (h : ∀ c ∈ text, isNameChar c = true) :
    words text = [text] :=
  List.splitOnP_eq_singleton fun c hc => by simp [h c hc]

/-- A character of a word joins the first word of what follows it. -/
theorem exists_words_cons {c : Char} (hc : isNameChar c = true) (text : Text) :
    ∃ word rest, words text = word :: rest ∧ words (c :: text) = (c :: word) :: rest := by
  obtain ⟨word, rest, hw⟩ := List.exists_cons_of_ne_nil
    (List.splitOnP_ne_nil (fun c => !isNameChar c) text)
  refine ⟨word, rest, hw, ?_⟩
  rw [words, List.splitOnP_cons_eq_if_modifyHead, if_neg (by simp [hc]), hw]
  rfl

/-- The words of a text are put together from all its characters that are part of a word. -/
theorem flatten_words (text : Text) : (words text).flatten = text.filter isNameChar := by
  induction text with
  | nil => rfl
  | cons c text ih =>
    by_cases hc : isNameChar c = true
    · obtain ⟨word, rest, hw, hcons⟩ := exists_words_cons hc text
      rw [hw, List.flatten_cons] at ih
      rw [hcons, List.flatten_cons, List.filter_cons_of_pos hc, ← ih, List.cons_append]
    · rw [Bool.not_eq_true] at hc
      rw [← List.nil_append (c :: text), words_append_cons hc, List.flatten_append, ih,
        List.nil_append, List.filter_cons_of_neg (by simp [hc])]
      rfl

/-! ## Underscores -/

/-- A word has as many underscores with its first character in upper case. -/
theorem count_capitalize (word : Text) : (capitalize word).count '_' = word.count '_' := by
  cases word with
  | nil => rfl
  | cons c word =>
    have hc : (toUpper c).count '_' = [c].count '_' := by
      by_cases h : c = '_'
      · rw [h]
        rfl
      · have hnot : '_' ∉ toUpper c := fun hm =>
          h (eq_of_mem_toUpper (by decide) (by decide) (by decide) hm)
        rw [List.count_eq_zero_of_not_mem hnot, List.count_singleton, if_neg (by simpa using h)]
    rw [capitalize, List.count_append, hc, ← List.count_append, List.singleton_append]

/-- A name has just the underscores that stand behind the first letter of the stem. -/
theorem count_nameOfStem (stem : Text) :
    (nameOfStem stem).count '_' = (lettered stem).count '_' := by
  have hcount : List.count '_' ∘ capitalize = List.count '_' := funext count_capitalize
  rw [nameOfStem, ← lettered, List.count_flatMap, hcount, ← List.count_flatten, flatten_words,
    List.count_filter (by decide)]

/-! ## Names of files of ASCII -/

/-- A text of the form `[A-Z][A-Za-z0-9_]*`. -/
def IsPascalName (name : Text) : Prop :=
  ∃ first rest, name = first :: rest ∧ first.isUpper = true ∧ ∀ c ∈ rest, isWordChar c = true

/-- Letters, digits and underscores are of ASCII. -/
theorem isAscii_of_isWordChar {c : Char} (h : isWordChar c = true) : isAscii c = true := by
  have hlt : c.val.toNat < 128 := by
    rw [isWordChar, Char.isAlphanum, Bool.or_eq_true, Bool.or_eq_true, beq_iff_eq] at h
    rcases h with (ha | hd) | rfl
    · by_contra hn
      rw [isAlpha_eq_false (decide_eq_false hn)] at ha
      contradiction
    · have hle : c.val ≤ '9'.val := of_decide_eq_true (Bool.and_eq_true_iff.1 hd).2
      exact Nat.lt_of_le_of_lt (UInt32.le_iff_toNat_le.1 hle) (by decide)
    · decide
  exact decide_eq_true hlt

/-- In ASCII the characters of words are letters, digits and underscores. -/
theorem isNameChar_of_isAscii {c : Char} (h : isAscii c = true) : isNameChar c = isWordChar c := by
  rw [isNameChar, isWordChar, isAlphanumeric, if_pos (of_decide_eq_true h)]

/-- A word of letters, digits and underscores has only such characters with its first one in upper
case. -/
theorem isWordChar_of_mem_capitalize {word : Text}
    (h : ∀ c ∈ word, isAscii c = true ∧ isWordChar c = true) {c : Char}
    (hc : c ∈ capitalize word) : isWordChar c = true := by
  cases word with
  | nil => exact absurd hc List.not_mem_nil
  | cons first word =>
    obtain ⟨⟨ha, hw⟩, hword⟩ := List.forall_mem_cons.1 h
    rw [capitalize, toUpper_of_isAscii ha, List.singleton_append] at hc
    rcases List.mem_cons.1 hc with rfl | hc
    · have hall : isWordChar first = true → isWordChar first.toUpper = true :=
        forall_of_isAscii (P := fun c => isWordChar c = true → isWordChar c.toUpper = true)
          (by decide) ha
      exact hall hw
    · exact (hword c hc).2

/-- The words of a text of ASCII are made of letters, digits and underscores. -/
theorem isWordChar_of_mem_words {text word : Text} (h : ∀ c ∈ text, isAscii c = true)
    (hw : word ∈ words text) : ∀ c ∈ word, isAscii c = true ∧ isWordChar c = true := by
  intro c hc
  have hmem : c ∈ text.filter isNameChar := by
    rw [← flatten_words]
    exact List.mem_flatten_of_mem hw hc
  obtain ⟨hc, hname⟩ := List.mem_filter.1 hmem
  exact ⟨h c hc, isNameChar_of_isAscii (h c hc) ▸ hname⟩

/-- A stem of ASCII with a letter gives a name of letters, digits and underscores that begins with
an upper case letter. -/
theorem isPascalName_nameOfStem {stem : Text} (h : IsAscii stem) (hn : nameOfStem stem ≠ []) :
    IsPascalName (nameOfStem stem) := by
  have hascii : ∀ c ∈ lettered stem, isAscii c = true := fun c hc =>
    List.all_eq_true.1 h c ((List.dropWhile_sublist _).subset hc)
  rw [nameOfStem, ← lettered] at hn ⊢
  cases hl : lettered stem with
  | nil =>
    rw [hl] at hn
    exact absurd rfl hn
  | cons first rest =>
    rw [hl] at hascii
    obtain ⟨hfirst, hrest⟩ := List.forall_mem_cons.1 hascii
    have halpha : first.isAlpha = true := by
      simpa [isAlphabetic, of_decide_eq_true hfirst] using isAlphabetic_of_lettered hl
    have hupper : first.toUpper.isUpper = true ∧ isNameChar first = true := by
      rw [isNameChar_of_isAscii hfirst]
      exact forall_of_isAscii (P := fun c => c.isAlpha = true →
        c.toUpper.isUpper = true ∧ isWordChar c = true) (by decide) hfirst halpha
    -- What stands behind the first letter comes from words of what follows it.
    obtain ⟨word, others, hw, hcons⟩ := exists_words_cons hupper.2 rest
    have hword : ∀ w ∈ word :: others, ∀ c ∈ w, isAscii c = true ∧ isWordChar c = true :=
      fun w hm => isWordChar_of_mem_words hrest (hw ▸ hm)
    obtain ⟨hfront, hbehind⟩ := List.forall_mem_cons.1 hword
    refine ⟨first.toUpper, word ++ others.flatMap capitalize, ?_, hupper.1, ?_⟩
    · rw [hcons, List.flatMap_cons, capitalize, toUpper_of_isAscii hfirst, List.append_assoc]
      rfl
    · intro c hc
      rcases List.mem_append.1 hc with hc | hc
      · exact (hfront c hc).2
      · obtain ⟨w, hw, hc⟩ := List.mem_flatMap.1 hc
        exact isWordChar_of_mem_capitalize (hbehind w hw) hc

namespace IsPascalName

variable {name : Text} (h : IsPascalName name)
include h

/-- Every character of the name is a letter, a digit or an underscore. -/
theorem isWordChar {c : Char} (hc : c ∈ name) : isWordChar c = true := by
  obtain ⟨first, rest, rfl, hu, hrest⟩ := h
  rcases List.mem_cons.1 hc with rfl | hc
  · have halpha : c.isAlpha = true := Bool.or_eq_true_iff.2 (.inl hu)
    rw [Script.isWordChar, Char.isAlphanum, halpha]
    rfl
  · exact hrest c hc

/-- The name is what it would be made into. -/
theorem nameOfStem_eq : nameOfStem name = name := by
  have hword : ∀ c ∈ name, isNameChar c = true := by
    intro c hc
    rw [isNameChar_of_isAscii (isAscii_of_isWordChar (h.isWordChar hc))]
    exact h.isWordChar hc
  obtain ⟨first, rest, rfl, hu, hrest⟩ := h
  have halpha : first.isAlpha = true := Bool.or_eq_true_iff.2 (.inl hu)
  have hascii : isAscii first = true :=
    isAscii_of_isWordChar (isWordChar ⟨first, rest, rfl, hu, hrest⟩ List.mem_cons_self)
  have hsame : first.isUpper = true → first.toUpper = first :=
    forall_of_isAscii (P := fun c => c.isUpper = true → c.toUpper = c) (by decide) hascii
  rw [nameOfStem, List.dropWhile_cons_of_neg (by simp [isAlphabetic_of_isAlpha halpha]),
    words_eq_singleton hword, List.flatMap_singleton, capitalize, toUpper_of_isAscii hascii,
    hsame hu]
  rfl

/-- The name of a component made from a file of that name is the same name. -/
theorem nameOfPath_eq : nameOfPath (name ++ ".html") = name := by
  have hslash : '/' ∉ name ++ ".html".toList := by
    rw [List.mem_append, not_or]
    exact ⟨fun hm => absurd (h.isWordChar hm) (by decide), by decide⟩
  have hfile : IsName (name ++ ".html") :=
    isName_of_mem (c := 'h') (by simp) (by decide) hslash
  have hne : name ≠ [] := by
    obtain ⟨first, rest, rfl, -⟩ := h
    exact List.cons_ne_nil first rest
  have hstem : stemOf (name ++ ".html") = name := stemOf_append hne (by decide)
  have hfront : IsFront [] := .inl rfl
  have htrail : IsIdleEnd [] := ⟨[], by simp, rfl⟩
  have hname := fileName?_around hfront hfile htrail
  rw [List.nil_append, List.append_nil] at hname
  rw [nameOfPath, fileStem?, hname, Option.map_some, hstem, Option.getD_some, h.nameOfStem_eq]
  exact if_neg (by simpa using hne)

end IsPascalName

/-- A stem of ASCII gives a component a name that begins with an upper case letter and goes on with
letters, digits and underscores. -/
theorem isPascalName_nameOfPath {path : Text} (h : IsAscii ((fileStem? path).getD [])) :
    IsPascalName (nameOfPath path) := by
  rw [nameOfPath]
  split
  · exact ⟨'C', "omponent".toList, rfl, by decide, List.all_eq_true.1 rfl⟩
  · rename_i hn
    exact isPascalName_nameOfStem h (by simpa using hn)

end VueSfc.Component
