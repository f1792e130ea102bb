import VueSfc.Proofs.Component.Naming

/-!
# Separators in file names

A character of a file's stem can be replaced where it stands in the path, which changes the stem at
that place and nothing else of the path's meaning. If the character separates words, the name of the
component stays the same. An underscore is a character of a word, so the name loses it.
-/

namespace VueSfc.Component

open Text VueSfc.Path

/-- A character of the stem of the file at a path, with what stands around it in the path. -/
structure StemMark (path : Text) where
  /-- What stands in front of the file name. -/
  front : Text
  /-- The stem in front of the character. -/
  before : Text
  /-- The character. -/
  mark : Char
  /-- The stem behind the character. -/
  after : Text
  /-- What stands behind the stem in the file name. -/
  ending : Text
  /-- What stands behind the file name. -/
  trail : Text
  /-- The path is put together from these. -/
  path_eq : path = front ++ (before ++ mark :: after ++ ending) ++ trail
  /-- The file name begins where a name can. -/
  isFront : IsFront front
  /-- The file name is a name. -/
  isName : IsName (before ++ mark :: after ++ ending)
  /-- Its stem ends where the ending begins. -/
  stem_eq : stemOf (before ++ mark :: after ++ ending) = before ++ mark :: after
  /-- No other name stands behind it. -/
  isIdleEnd : IsIdleEnd trail

namespace StemMark

variable {path : Text}

/-- The path with another character in the place of the marked one. -/
def replace (m : StemMark path) (c : Char) : Text :=
  m.front ++ (m.before ++ c :: m.after ++ m.ending) ++ m.trail

/-- The marked character stands in the stem of the file at the path. -/
theorem fileStem?_eq (m : StemMark path) :
    fileStem? path = some (m.before ++ m.mark :: m.after) := by
  have hname : fileName? path = some (m.before ++ m.mark :: m.after ++ m.ending) := by
    conv_lhs => rw [m.path_eq]
    exact fileName?_around m.isFront m.isName m.isIdleEnd
  rw [fileStem?, hname, Option.map_some, m.stem_eq]

/-- Every character of the stem of the file at a path can be marked. -/
theorem exists_of_fileStem? {before after : Text} {mark : Char}
    (h : fileStem? path = some (before ++ mark :: after)) :
    ∃ m : StemMark path, m.before = before ∧ m.mark = mark ∧ m.after = after := by
  obtain ⟨name, hname, hstem⟩ := Option.map_eq_some_iff.1 h
  obtain ⟨front, trail, hf, hn, ht, rfl⟩ := exists_of_fileName? hname
  have hending : ∃ ending, name = before ++ mark :: after ++ ending := by
    rcases stemOf_cases name with ⟨-, hs⟩ | ⟨stem, extension, -, -, he, hs⟩
    · exact ⟨[], by rw [List.append_nil, ← hstem, hs]⟩
    · exact ⟨'.' :: extension, by rw [← hstem, hs, ← he]⟩
  obtain ⟨ending, rfl⟩ := hending
  exact ⟨⟨front, before, mark, after, ending, trail, rfl, hf, hn, hstem, ht⟩, rfl, rfl, rfl⟩

/-- With another character in the place of one behind a letter, the stem has it in the same place,
unless it changes where names begin or end. -/
theorem fileStem?_replace (m : StemMark path) (h : ∃ c ∈ m.before, isAlphabetic c = true) {c : Char}
    (hs : c ≠ '/') (hd : c ≠ '.') :
    fileStem? (m.replace c) = some (m.before ++ c :: m.after) := by
  have hslash := m.isName.no_slash
  have hplain : '/' ∉ m.before ++ c :: m.after ++ m.ending := by
    simp only [List.mem_append, List.mem_cons, not_or] at hslash ⊢
    exact ⟨⟨hslash.1.1, Ne.symm hs, hslash.1.2.2⟩, hslash.2⟩
  have hname : IsName (m.before ++ c :: m.after ++ m.ending) :=
    isName_of_mem (c := c) (by simp) hd hplain
  have hbefore : m.before ≠ [] := by
    obtain ⟨letter, hl, -⟩ := h
    exact List.ne_nil_of_mem hl
  have hstem := stemOf_replace hbefore hd m.stem_eq
  rw [fileStem?, replace, fileName?_around m.isFront hname m.isIdleEnd, Option.map_some, hstem]

end StemMark

/-! ## What separates words -/

/-- The name made of a stem does not depend on what separates its words behind the first letter. -/
theorem nameOfStem_separator {before : Text} (h : ∃ c ∈ before, isAlphabetic c = true) {c d : Char}
    (hc : isNameChar c = false) (hd : isNameChar d = false) (after : Text) :
    nameOfStem (before ++ c :: after) = nameOfStem (before ++ d :: after) := by
  rw [nameOfStem, nameOfStem, ← lettered, ← lettered, lettered_append h, lettered_append h,
    words_append_cons hc, words_append_cons hd]

/-- The name of a component has just the underscores that stand behind the first letter of the
file's stem. -/
theorem count_nameOfPath {path stem : Text} (h : fileStem? path = some stem) :
    (nameOfPath path).count '_' = (lettered stem).count '_' := by
  rw [nameOfPath, h, Option.getD_some, ← count_nameOfStem]
  split
  · rename_i hn
    rw [List.isEmpty_iff.1 hn]
    rfl
  · rfl

/-- Every character of a file's stem can be replaced where it stands in the path. A character behind
the first letter that is no letter and no digit can be replaced by a hyphen without changing the
name of the component, whatever else it is, if it is not an underscore; and if it is one, the name
changes. -/
theorem separators_are_alike (path : Text) :
    (∀ before mark after, fileStem? path = some (before ++ mark :: after) →
      ∃ m : StemMark path, m.before = before ∧ m.mark = mark ∧ m.after = after) ∧
    ∀ m : StemMark path, (∃ c ∈ m.before, isAlphabetic c = true) → isAlphanumeric m.mark = false →
      (nameOfPath (m.replace '-') = nameOfPath path ↔ m.mark ≠ '_') := by
  refine ⟨fun before mark after => StemMark.exists_of_fileStem?, fun m hletter hmark => ?_⟩
  have hold := m.fileStem?_eq
  have hnew := m.fileStem?_replace hletter (c := '-') (by decide) (by decide)
  constructor
  · intro heq hu
    -- An underscore is counted in the name, and a hyphen is not.
    have hcount := congrArg (List.count '_') heq
    rw [count_nameOfPath hold, count_nameOfPath hnew, lettered_append hletter,
      lettered_append hletter, List.count_append, List.count_append, hu] at hcount
    simp at hcount
  · intro hu
    have hsep : isNameChar m.mark = false := by
      rw [isNameChar, hmark, Bool.false_or, beq_eq_false_iff_ne]
      exact hu
    rw [nameOfPath, nameOfPath, hold, hnew, Option.getD_some, Option.getD_some,
      nameOfStem_separator hletter hsep (d := '-') (by decide)]

/-- The dot between the two words of a file's stem. -/
def dottedMark : StemMark "site//my.page.html/." where
  front := "site//"
  before := "my"
  mark := '.'
  after := "page"
  ending := ".html"
  trail := "/."
  path_eq := rfl
  isFront := .inr ⟨"site/".toList, rfl⟩
  isName := by decide
  stem_eq := by decide
  isIdleEnd := ⟨[['.']], by decide, rfl⟩

/-- A hyphen does what a dot does. -/
theorem dottedMark_is_alike : (∃ c ∈ dottedMark.before, isAlphabetic c = true) ∧
    isAlphanumeric dottedMark.mark = false ∧
    nameOfPath (dottedMark.replace '-') = nameOfPath "site//my.page.html/." := by
  have hletter : ∃ c ∈ dottedMark.before, isAlphabetic c = true := ⟨'m', by decide, by decide⟩
  have hmark : isAlphanumeric dottedMark.mark = false := by decide
  exact ⟨hletter, hmark, ((separators_are_alike _).2 dottedMark hletter hmark).2 (by decide)⟩

/-- The underscore between the two words of a file's stem. -/
def underscoreMark : StemMark "my_page.html" where
  front := []
  before := "my"
  mark := '_'
  after := "page"
  ending := ".html"
  trail := []
  path_eq := rfl
  isFront := .inl rfl
  isName := by decide
  stem_eq := by decide
  isIdleEnd := ⟨[], by decide, rfl⟩

/-- An underscore separates no words: with a hyphen in its place a component is named otherwise. -/
theorem underscore_is_no_separator : ¬ ∀ (path : Text) (m : StemMark path),
    (∃ c ∈ m.before, isAlphabetic c = true) → isAlphanumeric m.mark = false →
      nameOfPath (m.replace '-') = nameOfPath path := by
  intro h
  have hname := h "my_page.html" underscoreMark ⟨'m', by decide, by decide⟩ (by decide)
  have hold : nameOfPath "my_page.html" = "My_page" := by decide
  have hnew : nameOfPath (underscoreMark.replace '-') = "MyPage" := by decide
  rw [hold, hnew] at hname
  exact absurd hname (by decide)

end VueSfc.Component
