import Mathlib.Data.List.Induction
import Mathlib.Data.List.TakeWhile
import VueSfc.Text.Blank

/-!
# Trimmed lines

Trimming takes blank characters off the ends of a text one by one. Since a line feed is blank,
trimming a whole text before its lines are trimmed can take away empty lines only: the trimmed
lines that are not empty are the same.
-/

namespace VueSfc.Text

/-! ## Trimming -/

/-- A blank character in front is trimmed. -/
theorem trim_cons {c : Char} (hc : isBlank c = true) (text : Text) :
    trim (c :: text) = trim text := by
  rw [trim, trim, trimStart, trimStart, List.dropWhile_cons_of_pos hc]

/-- A blank character at the end is trimmed. -/
theorem trimEnd_concat {c : Char} (hc : isBlank c = true) (text : Text) :
    trimEnd (text ++ [c]) = trimEnd text := by
  rw [trimEnd, trimEnd, List.reverse_append, List.reverse_singleton, List.singleton_append,
    List.dropWhile_cons_of_pos hc]

/-- A character at the end that is not blank stops the trimming there. -/
theorem trimEnd_concat_of_not_isBlank {c : Char} (hc : isBlank c = false) (text : Text) :
    trimEnd (text ++ [c]) = text ++ [c] := by
  rw [trimEnd, List.reverse_append, List.reverse_singleton, List.singleton_append,
    List.dropWhile_cons_of_neg (by simp [hc]), List.reverse_cons, List.reverse_reverse]

/-- A blank character at the end is trimmed, whatever is trimmed in front. -/
theorem trim_concat {c : Char} (hc : isBlank c = true) (text : Text) :
    trim (text ++ [c]) = trim text := by
  induction text with
  | nil =>
    rw [List.nil_append, trim_cons hc]
  | cons d text ih =>
    by_cases hd : isBlank d = true
    · rw [List.cons_append, trim_cons hd, trim_cons hd, ih]
    · have hs (t : Text) : trimStart (d :: t) = d :: t := List.dropWhile_cons_of_neg hd
      rw [List.cons_append, trim, trim, hs, hs, ← List.cons_append, trimEnd_concat hc]

/-- Nothing is left by trimming just where all characters are blank. -/
theorem trim_eq_nil_iff {text : Text} : trim text = [] ↔ allBlank text = true := by
  rw [trim, trimEnd, List.reverse_eq_nil_iff, List.dropWhile_eq_nil_iff, allBlank, List.all_eq_true]
  simp only [List.mem_reverse]
  refine ⟨fun h c hc => ?_, fun h c hc => h c ((List.dropWhile_suffix _).subset hc)⟩
  rw [← List.takeWhile_append_dropWhile (p := isBlank) (l := text)] at hc
  rcases List.mem_append.1 hc with hc | hc
  · exact List.mem_takeWhile_imp hc
  · exact h c hc

/-- What is left by trimming stood in the text. -/
theorem isInfix_trim (text : Text) : trim text <:+: text := by
  have hs : trim text <+: trimStart text := by
    rw [trim, trimEnd, ← List.reverse_suffix, List.reverse_reverse]
    exact List.dropWhile_suffix _
  exact hs.isInfix.trans (List.dropWhile_suffix _).isInfix

/-- A trimmed text does not end with a blank character. -/
theorem not_isBlank_of_getLast?_trim {text : Text} {c : Char} (h : c ∈ (trim text).getLast?) :
    isBlank c = false := by
  rw [trim, trimEnd, List.getLast?_reverse] at h
  have hn := List.head?_dropWhile_not isBlank (trimStart text).reverse
  rw [Option.mem_def.1 h] at hn
  simpa using hn

/-- A trimmed text does not begin with a blank character. -/
theorem not_isBlank_of_head?_trim {text : Text} {c : Char} (h : c ∈ (trim text).head?) :
    isBlank c = false := by
  have hp : trim text <+: trimStart text := by
    rw [trim, trimEnd, ← List.reverse_suffix, List.reverse_reverse]
    exact List.dropWhile_suffix _
  obtain ⟨rest, hr⟩ := hp
  have hhead : c ∈ (trimStart text).head? := by
    rw [← hr, List.head?_append, Option.mem_def.1 h]
    rfl
  have hn := List.head?_dropWhile_not isBlank text
  rw [trimStart] at hhead
  rw [Option.mem_def.1 hhead] at hn
  simpa using hn

/-- Nothing is trimmed off a text without blank characters at its ends. -/
theorem trim_eq_self {text : Text} (hs : ∀ c ∈ text.head?, isBlank c = false)
    (he : ∀ c ∈ text.getLast?, isBlank c = false) : trim text = text := by
  have hstart : trimStart text = text := by
    cases text with
    | nil => rfl
    | cons c text => exact List.dropWhile_cons_of_neg (by simp [hs c rfl])
  rw [trim, hstart]
  rcases List.eq_nil_or_concat text with rfl | ⟨text, c, rfl⟩
  · rfl
  · rw [List.concat_eq_append] at he ⊢
    exact trimEnd_concat_of_not_isBlank (he c List.getLast?_concat) text

/-- Trimming a second time changes nothing. -/
theorem trim_trim (text : Text) : trim (trim text) = trim text :=
  trim_eq_self (fun _ => not_isBlank_of_head?_trim) fun _ => not_isBlank_of_getLast?_trim

/-! ## Lines -/

/-- No piece between characters that pass a test has such a character. -/
theorem not_test_of_mem_splitOnP {test : Char → Bool} {text piece : Text} {c : Char}
    (h : piece ∈ text.splitOnP test) (hc : c ∈ piece) : test c = false := by
  induction text generalizing piece with
  | nil =>
    rw [List.splitOnP_nil, List.mem_singleton] at h
    simp [h] at hc
  | cons d text ih =>
    rw [List.splitOnP_cons_eq_if_modifyHead] at h
    by_cases hd : test d = true
    · rw [ite_cond_eq_true _ _ (eq_true hd), List.mem_cons] at h
      rcases h with rfl | h
      · simp at hc
      · exact ih h hc
    · rw [ite_cond_eq_false _ _ (eq_false hd)] at h
      obtain ⟨first, rest, hs⟩ := List.exists_cons_of_ne_nil (List.splitOnP_ne_nil test text)
      rw [hs] at h ih
      rcases List.mem_cons.1 h with rfl | h
      · rcases List.mem_cons.1 hc with rfl | hc
        · simpa using hd
        · exact ih List.mem_cons_self hc
      · exact ih (List.mem_cons_of_mem _ h) hc

/-- No line has a line feed. -/
theorem feed_notMem_of_mem_lines {text line : Text} (h : line ∈ lines text) : '\n' ∉ line := by
  rw [lines, List.splitOn_eq_splitOnP] at h
  intro hc
  simpa using not_test_of_mem_splitOnP h hc

/-- A text without a line feed is one line. -/
theorem lines_eq_singleton {text : Text} (h : '\n' ∉ text) : lines text = [text] :=
  List.splitOn_eq_singleton h

/-- A character other than a line feed joins the first line. -/
theorem lines_cons {c : Char} (hc : c ≠ '\n') (text : Text) :
    ∃ line rest, lines text = line :: rest ∧ lines (c :: text) = (c :: line) :: rest := by
  obtain ⟨line, rest, h⟩ := List.exists_cons_of_ne_nil (List.splitOn_ne_nil '\n' text)
  refine ⟨line, rest, h, ?_⟩
  rw [lines, List.splitOn_cons_eq_if_modifyHead, ite_cond_eq_false _ _ (by simp [hc]), h]
  rfl

/-- A line feed in front makes an empty first line. -/
theorem lines_feed_cons (text : Text) : lines ('\n' :: text) = [] :: lines text := by
  rw [lines, List.splitOn_cons_eq_if_modifyHead]
  rfl

/-- A line feed at the end makes an empty last line. -/
theorem lines_concat_feed (text : Text) : lines (text ++ ['\n']) = lines text ++ [[]] := by
  rw [lines, List.splitOn_append_cons_self, List.splitOn_nil]
  rfl

/-- A character other than a line feed joins the last line. -/
theorem lines_concat {c : Char} (hc : c ≠ '\n') (text : Text) :
    ∃ front line, lines text = front ++ [line] ∧ lines (text ++ [c]) = front ++ [line ++ [c]] := by
  induction text with
  | nil =>
    refine ⟨[], [], rfl, ?_⟩
    rw [List.nil_append, lines, List.splitOn_eq_singleton (by simpa using Ne.symm hc)]
    rfl
  | cons d text ih =>
    obtain ⟨front, line, h, hl⟩ := ih
    by_cases hd : d = '\n'
    · subst hd
      refine ⟨[] :: front, line, ?_, ?_⟩
      · rw [lines_feed_cons, h]
        rfl
      · rw [List.cons_append, lines_feed_cons, hl]
        rfl
    · obtain ⟨first, rest, hf, hc'⟩ := lines_cons hd text
      obtain ⟨first', rest', hf', hc''⟩ := lines_cons hd (text ++ [c])
      rw [List.cons_append, hc', hc'']
      cases front with
      | nil =>
        refine ⟨[], d :: line, ?_, ?_⟩ <;> simp_all
      | cons l front =>
        refine ⟨(d :: l) :: front, line, ?_, ?_⟩ <;> simp_all

/-- What has no line feed joins the first line of what follows it. -/
theorem lines_append_of_notMem {front : Text} (h : '\n' ∉ front) (text : Text) :
    ∃ line rest, lines text = line :: rest ∧ lines (front ++ text) = (front ++ line) :: rest := by
  induction front with
  | nil =>
    obtain ⟨line, rest, hl⟩ := List.exists_cons_of_ne_nil (List.splitOn_ne_nil '\n' text)
    exact ⟨line, rest, hl, hl⟩
  | cons c front ih =>
    rw [List.mem_cons, not_or] at h
    obtain ⟨line, rest, hl, ha⟩ := ih h.2
    obtain ⟨first, rest', hf, hc⟩ := lines_cons (Ne.symm h.1) (front ++ text)
    rw [ha, List.cons.injEq] at hf
    refine ⟨line, rest, hl, ?_⟩
    rw [List.cons_append, hc, ← hf.1, ← hf.2, List.cons_append]

/-- The lines on either side of a line feed. -/
theorem lines_append_feed (front back : Text) :
    lines (front ++ '\n' :: back) = lines front ++ lines back :=
  List.splitOn_append_cons_self front back

/-- What does not have a character stands on one side of every place where it stands. -/
theorem isInfix_append_cons_iff {c : Char} {word : Text} (h : c ∉ word) (front back : Text) :
    word <:+: front ++ c :: back ↔ word <:+: front ∨ word <:+: back := by
  have hnil {piece : Text} (hp : piece <:+: word) (hf : piece <+: c :: back) : piece = [] := by
    rcases List.prefix_cons_iff.1 hf with rfl | ⟨rest, rfl, -⟩
    · rfl
    · exact absurd (hp.subset List.mem_cons_self) h
  constructor
  · intro hw
    rcases List.infix_append_iff.1 hw with hw | hw | ⟨left, right, rfl, hl, hr⟩
    · exact .inl hw
    · rcases List.infix_cons_iff.1 hw with hw | hw
      · exact .inl (hnil (List.infix_refl _) hw ▸ List.nil_infix)
      · exact .inr hw
    · rw [hnil (List.suffix_append left right).isInfix hr, List.append_nil]
      exact .inl hl.isInfix
  · rintro (hw | hw)
    · exact hw.trans (List.prefix_append front _).isInfix
    · exact hw.trans ((List.suffix_cons c back).isInfix.trans (List.suffix_append _ _).isInfix)

/-- What has no line feed stands on one side of every line feed. -/
theorem isInfix_append_feed_iff {word : Text} (h : '\n' ∉ word) (front back : Text) :
    word <:+: front ++ '\n' :: back ↔ word <:+: front ∨ word <:+: back :=
  isInfix_append_cons_iff h front back

/-! ## Joined lines -/

/-- Joined pieces are the first one, a line feed and the others joined. -/
theorem unlines_cons_of_ne_nil {pieces : List Text} (hn : pieces ≠ []) (piece : Text) :
    unlines (piece :: pieces) = piece ++ '\n' :: unlines pieces := by
  rw [unlines, joinWith, List.intercalate_cons_of_ne_nil hn]
  simp [unlines, joinWith]

/-- Pieces with a separator between neighbours are the first one and the others behind a separator
each. -/
theorem intercalate_singleton_cons {α : Type} (separator : α) (piece : List α)
    (pieces : List (List α)) :
    [separator].intercalate (piece :: pieces) = piece ++ pieces.flatMap (separator :: ·) := by
  induction pieces generalizing piece with
  | nil => simp
  | cons next pieces ih =>
    rw [List.intercalate_cons_of_ne_nil (List.cons_ne_nil _ _), ih, List.flatMap_cons,
      List.append_assoc, List.singleton_append, List.cons_append]

/-- Pieces with a separator behind each end with one, if there are any. -/
theorem eq_nil_or_flatMap_concat {α : Type} (separator : α) (pieces : List (List α)) :
    pieces = [] ∨ ∃ front, pieces.flatMap (· ++ [separator]) = front ++ [separator] := by
  rcases List.eq_nil_or_concat pieces with rfl | ⟨others, last, rfl⟩
  · exact .inl rfl
  · refine .inr ⟨others.flatMap (· ++ [separator]) ++ last, ?_⟩
    rw [List.concat_eq_append, List.flatMap_append, List.flatMap_singleton, List.append_assoc]

/-- Joined pieces are those before some piece with a separator behind each, and the others
joined. -/
theorem intercalate_append_cons {α : Type} (separator : α) (before : List (List α)) (piece : List α)
    (after : List (List α)) :
    [separator].intercalate (before ++ piece :: after) =
      before.flatMap (· ++ [separator]) ++ [separator].intercalate (piece :: after) := by
  induction before with
  | nil => rfl
  | cons first before ih =>
    rw [List.cons_append, List.intercalate_cons_of_ne_nil (by simp), ih, List.flatMap_cons,
      List.append_assoc, List.append_assoc, List.append_assoc]

/-- Joined pieces are the first one and the others behind a line feed each. -/
theorem unlines_cons (piece : Text) (pieces : List Text) :
    unlines (piece :: pieces) = piece ++ pieces.flatMap ('\n' :: ·) :=
  intercalate_singleton_cons '\n' piece pieces

/-- One line is not joined to anything. -/
theorem unlines_singleton (line : Text) : unlines [line] = line := by
  rw [unlines_cons, List.flatMap_nil, List.append_nil]

/-- Lines and more lines, joined, are the two joined texts with a line feed between them. -/
theorem unlines_append {front back : List Text} (hf : front ≠ []) (hb : back ≠ []) :
    unlines (front ++ back) = unlines front ++ '\n' :: unlines back := by
  induction front with
  | nil => exact absurd rfl hf
  | cons line front ih =>
    by_cases hn : front = []
    · rw [hn, List.singleton_append, unlines_cons_of_ne_nil hb]
      simp [unlines, joinWith]
    · rw [List.cons_append, unlines_cons_of_ne_nil (List.append_ne_nil_of_left_ne_nil hn back),
        ih hn, unlines_cons_of_ne_nil hn, List.append_assoc, List.cons_append]

/-- What has no line feed stands in one of the joined pieces, or nowhere. -/
theorem isInfix_unlines_iff {word : Text} (hf : '\n' ∉ word) (hn : word ≠ [])
    (pieces : List Text) : word <:+: unlines pieces ↔ ∃ piece ∈ pieces, word <:+: piece := by
  induction pieces with
  | nil => simpa [unlines, joinWith] using hn
  | cons piece pieces ih =>
    by_cases hp : pieces = []
    · simp [hp, unlines, joinWith]
    · rw [unlines_cons_of_ne_nil hp, isInfix_append_feed_iff hf, ih]
      simp

/-- What has no line feed stands in one of the lines, or nowhere. -/
theorem isInfix_iff_lines {word : Text} (hf : '\n' ∉ word) (hn : word ≠ []) (text : Text) :
    word <:+: text ↔ ∃ line ∈ lines text, word <:+: line := by
  rw [← isInfix_unlines_iff hf hn, unlines, joinWith, lines, List.intercalate_splitOn]

/-- Texts without line feeds are their lines. -/
theorem flatMap_lines_of_notMem {ls : List Text} (h : ∀ line ∈ ls, '\n' ∉ line) :
    ls.flatMap lines = ls := by
  induction ls with
  | nil => rfl
  | cons line ls ih =>
    rw [List.forall_mem_cons] at h
    rw [List.flatMap_cons, lines_eq_singleton h.1, ih h.2, List.singleton_append]

/-- The lines of joined pieces are the lines of the pieces. -/
theorem lines_unlines {pieces : List Text} (hn : pieces ≠ []) :
    lines (unlines pieces) = pieces.flatMap lines := by
  induction pieces with
  | nil => exact absurd rfl hn
  | cons piece pieces ih =>
    by_cases hp : pieces = []
    · simp [hp, unlines, joinWith]
    · rw [unlines_cons_of_ne_nil hp, lines, List.splitOn_append_cons_self, List.flatMap_cons,
        ← ih hp]
      rfl

/-- Lines that are joined are taken apart again. -/
theorem lines_unlines_of_notMem {ls : List Text} (hn : ls ≠ []) (h : ∀ line ∈ ls, '\n' ∉ line) :
    lines (unlines ls) = ls :=
  List.splitOn_intercalate '\n' h hn

/-! ## Lines that count -/

/-- A line is a stretch of the text. -/
theorem isInfix_of_mem_lines {text line : Text} (h : line ∈ lines text) : line <:+: text := by
  by_cases hn : line = []
  · rw [hn]
    exact List.nil_infix
  · exact (isInfix_iff_lines (feed_notMem_of_mem_lines h) hn text).2 ⟨line, h, List.infix_rfl⟩

/-- The trimmed lines of a text that pass a test. -/
def trimmedLines (test : Text → Bool) (text : Text) : List Text :=
  ((lines text).map trim).filter test

/-- The trimmed lines on either side of a line feed. -/
theorem trimmedLines_append_feed (test : Text → Bool) (front back : Text) :
    trimmedLines test (front ++ '\n' :: back) =
      trimmedLines test front ++ trimmedLines test back := by
  rw [trimmedLines, lines_append_feed, List.map_append, List.filter_append]
  rfl

/-- Trimmed lines that pass are all lines of a text, if each of its lines is one of those. -/
theorem trimmedLines_eq_lines {test : Text → Bool} {text : Text}
    (h : ∀ line ∈ lines text, trim line = line ∧ test line = true) :
    trimmedLines test text = lines text := by
  have hmap : (lines text).map trim = lines text := by
    conv_rhs => rw [← List.map_id (lines text)]
    exact List.map_congr_left fun line hl => (h line hl).1
  rw [trimmedLines, hmap, List.filter_eq_self]
  intro line hl
  exact (h line hl).2

section

variable {test : Text → Bool} (ht : test [] = false)
include ht

/-- The trimmed lines of joined pieces are those of the pieces. -/
theorem trimmedLines_unlines (pieces : List Text) :
    trimmedLines test (unlines pieces) = pieces.flatMap (trimmedLines test) := by
  induction pieces with
  | nil => simp [trimmedLines, unlines, joinWith, lines, trim, trimStart, trimEnd, ht]
  | cons piece pieces ih =>
    by_cases hp : pieces = []
    · simp [hp, unlines, joinWith]
    · rw [unlines_cons_of_ne_nil hp, trimmedLines_append_feed, ih, List.flatMap_cons]

/-- A blank character in front changes no trimmed line but empty ones. -/
theorem trimmedLines_cons {c : Char} (hc : isBlank c = true) (text : Text) :
    trimmedLines test (c :: text) = trimmedLines test text := by
  by_cases hf : c = '\n'
  · subst hf
    rw [trimmedLines, lines_feed_cons, List.map_cons,
      List.filter_cons_of_neg (by simp [trim, trimStart, trimEnd, ht])]
    rfl
  · obtain ⟨line, rest, h, hl⟩ := lines_cons hf text
    rw [trimmedLines, trimmedLines, h, hl, List.map_cons, List.map_cons, trim_cons hc]

/-- A blank character at the end changes no trimmed line but empty ones. -/
theorem trimmedLines_concat {c : Char} (hc : isBlank c = true) (text : Text) :
    trimmedLines test (text ++ [c]) = trimmedLines test text := by
  by_cases hf : c = '\n'
  · subst hf
    rw [trimmedLines, lines_concat_feed, List.map_append, List.filter_append]
    simp [trim, trimStart, trimEnd, ht, trimmedLines]
  · obtain ⟨front, line, h, hl⟩ := lines_concat hf text
    rw [trimmedLines, trimmedLines, h, hl, List.map_append, List.map_append, List.map_singleton,
      List.map_singleton, trim_concat hc]

/-- The ends of a text have no say in which trimmed lines there are, empty ones apart. -/
theorem trimmedLines_trim (text : Text) :
    trimmedLines test (trim text) = trimmedLines test text := by
  have hstart (t : Text) : trimmedLines test (trimStart t) = trimmedLines test t := by
    induction t with
    | nil => rfl
    | cons c t ih =>
      by_cases hc : isBlank c = true
      · rw [trimStart, List.dropWhile_cons_of_pos hc, trimmedLines_cons ht hc]
        exact ih
      · rw [trimStart, List.dropWhile_cons_of_neg hc]
  have hend (t : Text) : trimmedLines test (trimEnd t) = trimmedLines test t := by
    induction t using List.reverseRecOn with
    | nil => rfl
    | append_singleton t c ih =>
      by_cases hc : isBlank c = true
      · rw [trimEnd_concat hc, ih, trimmedLines_concat ht hc]
      · rw [trimEnd_concat_of_not_isBlank (by simpa using hc)]
  rw [trim, hend, hstart]

end

end VueSfc.Text
