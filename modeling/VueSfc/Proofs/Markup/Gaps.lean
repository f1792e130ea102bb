import Mathlib.Data.List.Forall2
import VueSfc.Proofs.Offset.Markup

/-!
# Gaps

A text is its characters that are not blank together with the gaps around them, stretches of blank
characters that may be empty. Collapsing keeps the characters and squeezes each gap on its own, and
no other text has these characters and these gaps. So the longest blank stretches before and after
collapsing correspond one to one, none has more than two line feeds afterwards, and collapsing a
second time changes nothing. The loop that finds the stretches by their offsets gives the same text.
-/

namespace VueSfc.Markup

open Text

/-! ## Gaps of a text -/

/-- The characters of a text that are not blank. -/
def marks (text : Text) : Text := text.filter fun c => !isBlank c

/-- The blank stretches in front of each character that is not blank, and the one behind the last of
them. Where two such characters stand next to each other, the gap between them is empty. -/
def gaps (text : Text) : List Text := text.splitOnP fun c => !isBlank c

/-- The longest blank stretches of a text. -/
def blankRuns (text : Text) : List Text := (runs text).filter allBlank

/-- A text begins with a front whose characters pass a test, as long as it can be. -/
theorem exists_front (test : Char → Bool) (text : Text) :
    ∃ front rest, text = front ++ rest ∧ (∀ c ∈ front, test c = true) ∧
      ∀ c ∈ rest.head?, test c = false := by
  refine ⟨text.takeWhile test, text.dropWhile test, List.takeWhile_append_dropWhile.symm,
    fun c => List.mem_takeWhile_imp, fun c hc => ?_⟩
  have hhead := List.head?_dropWhile_not test text
  rw [Option.mem_def.1 hc] at hhead
  simpa using hhead

/-- A text is a gap, or it is a gap, a character that is not blank, and a text behind it. -/
theorem gap_induction {motive : Text → Prop}
    (last : ∀ gap, (∀ c ∈ gap, isBlank c = true) → motive gap)
    (step : ∀ gap c rest, (∀ c ∈ gap, isBlank c = true) → isBlank c = false → motive rest →
      motive (gap ++ c :: rest)) (text : Text) : motive text := by
  generalize hn : text.length = n
  induction n using Nat.strong_induction_on generalizing text with
  | _ n ih =>
    obtain ⟨gap, rest, rfl, hg, hrest⟩ := exists_front isBlank text
    cases rest with
    | nil =>
      rw [List.append_nil]
      exact last gap hg
    | cons c rest =>
      rw [List.length_append, List.length_cons] at hn
      exact step gap c rest hg (hrest c rfl) (ih _ (by omega) rest rfl)

section

variable {gap : Text} (hg : ∀ c ∈ gap, isBlank c = true)
include hg

theorem marks_of_forall : marks gap = [] := by
  rw [marks, List.filter_eq_nil_iff]
  intro c hc
  simp [hg c hc]

theorem gaps_of_forall : gaps gap = [gap] :=
  List.splitOnP_eq_singleton fun c hc => by simp [hg c hc]

variable {c : Char} (hc : isBlank c = false) (rest : Text)
include hc

theorem marks_append_cons : marks (gap ++ c :: rest) = c :: marks rest := by
  have hgap := marks_of_forall hg
  rw [marks] at hgap ⊢
  rw [List.filter_append, hgap, List.filter_cons_of_pos (by simp [hc]), List.nil_append]
  rfl

theorem gaps_append_cons : gaps (gap ++ c :: rest) = gap :: gaps rest := by
  have hgap := gaps_of_forall hg
  rw [gaps] at hgap ⊢
  rw [List.splitOnP_append_cons gap rest (by simp [hc]), hgap, List.singleton_append]
  rfl

end

/-- A text is known by its gaps and its characters that are not blank. -/
theorem eq_of_marks_eq {u v : Text} (hm : marks u = marks v) (hg : gaps u = gaps v) : u = v := by
  rw [marks, marks] at hm
  rw [gaps, gaps] at hg
  rw [← List.splitOnP_spec (p := fun c => !isBlank c) u, hg, hm]
  exact List.splitOnP_spec v

/-- A character in front that is not blank belongs to no blank stretch. -/
theorem blankRuns_cons {c : Char} (hc : isBlank c = false) (text : Text) :
    blankRuns (c :: text) = blankRuns text := by
  obtain ⟨front, rest, rfl, hf, hrest⟩ := exists_front (fun d => !isBlank d) text
  simp only [Bool.not_eq_true', Bool.not_eq_false'] at hf hrest
  have hplain (front : Text) (hf : ∀ d ∈ front, isBlank d = false) :
      blankRuns (front ++ rest) = blankRuns rest := by
    have hnone : (runs front).filter allBlank = [] := by
      cases front with
      | nil => rfl
      | cons d front =>
        have hd : allBlank (d :: front) = false := by
          rw [allBlank, List.all_cons, hf d List.mem_cons_self, Bool.false_and]
        rw [runs_of_forall (List.cons_ne_nil d front) hf, List.filter_singleton, hd]
        rfl
    rw [blankRuns, runs_append (apart_of_forall hf hrest), List.filter_append, hnone]
    rfl
  rw [← List.cons_append, hplain _ (List.forall_mem_cons.2 ⟨hc, hf⟩), hplain front hf]

/-- The longest blank stretches are the gaps that are not empty. -/
theorem blankRuns_eq (text : Text) :
    blankRuns text = (gaps text).filter fun gap => !gap.isEmpty := by
  have hgap {gap : Text} (hg : ∀ c ∈ gap, isBlank c = true) :
      (runs gap).filter allBlank = [gap].filter fun gap => !gap.isEmpty := by
    cases gap with
    | nil => rfl
    | cons c gap =>
      rw [runs_of_forall (List.cons_ne_nil c gap) hg, List.filter_singleton,
        show allBlank (c :: gap) = true from List.all_eq_true.2 hg]
      rfl
  induction text using gap_induction with
  | last gap hg => rw [blankRuns, hgap hg, gaps_of_forall hg]
  | step gap c rest hg hc ih =>
    have hnext : ∀ d ∈ (c :: rest).head?, isBlank d = !true := by
      rintro _ ⟨⟩
      exact hc
    have hrest := blankRuns_cons hc rest
    rw [blankRuns] at hrest
    rw [blankRuns, runs_append (apart_of_forall hg hnext), List.filter_append, hgap hg, hrest, ih,
      gaps_append_cons hg hc, ← List.filter_append, List.singleton_append]

/-! ## Squeezed gaps -/

/-- What becomes of a gap. With at most two line feeds it stays as it is; with more of them, there
stay what stands in front of the first and what stands behind the last, with two between. -/
inductive IsSqueezed : Text → Text → Prop
  /-- There are at most two line feeds. -/
  | kept {gap : Text} (h : gap.count '\n' ≤ 2) : IsSqueezed gap gap
  /-- There is a line feed between the first and the last one. -/
  | squeezed {front middle back : Text} (hf : '\n' ∉ front) (hm : '\n' ∈ middle)
      (hb : '\n' ∉ back) :
      IsSqueezed (front ++ '\n' :: (middle ++ '\n' :: back)) (front ++ ['\n', '\n'] ++ back)

/-- With three line feeds there is one between the first and the last. -/
theorem exists_feeds {gap : Text} (h : 3 ≤ gap.count '\n') :
    ∃ front middle back, gap = front ++ '\n' :: (middle ++ '\n' :: back) ∧
      '\n' ∉ front ∧ '\n' ∈ middle ∧ '\n' ∉ back := by
  have hgap : 0 < gap.count '\n' := by omega
  obtain ⟨front, rest, rfl, hf⟩ := List.eq_append_cons_of_mem (List.count_pos_iff.1 hgap)
  rw [List.count_append, List.count_cons_self, List.count_eq_zero.2 hf] at h
  have hrest : '\n' ∈ rest.reverse := by
    rw [List.mem_reverse]
    exact List.count_pos_iff.1 (by omega)
  obtain ⟨back, middle, he, hb⟩ := List.eq_append_cons_of_mem hrest
  obtain rfl : rest = middle.reverse ++ '\n' :: back.reverse := by
    rw [← List.reverse_reverse rest, he]
    simp
  rw [← List.mem_reverse] at hb
  rw [List.count_append, List.count_cons_self, List.count_eq_zero.2 hb] at h
  exact ⟨front, middle.reverse, back.reverse, rfl, hf, List.count_pos_iff.1 (by omega), hb⟩

/-- What is left of a gap with a line feed between its first and its last one. -/
theorem squeeze_append {front middle back : Text} (hf : '\n' ∉ front) (hm : '\n' ∈ middle)
    (hb : '\n' ∉ back) :
    squeeze (front ++ '\n' :: (middle ++ '\n' :: back)) = front ++ ['\n', '\n'] ++ back := by
  have hcount : 3 ≤ (front ++ '\n' :: (middle ++ '\n' :: back)).count '\n' := by
    have hpos := List.count_pos_iff.2 hm
    simp only [List.count_append, List.count_cons_self]
    omega
  have hback : afterLastFeed (front ++ '\n' :: (middle ++ '\n' :: back)) = back := by
    rw [← List.cons_append, ← List.append_assoc]
    exact afterLastFeed_append _ hb
  rw [squeeze, if_pos hcount, beforeFirstFeed_append hf, hback]

/-- Squeezing does to a gap what is to become of it. -/
theorem isSqueezed_iff {gap result : Text} : IsSqueezed gap result ↔ squeeze gap = result := by
  constructor
  · intro h
    cases h with
    | kept h => exact if_neg (by omega)
    | squeezed hf hm hb => exact squeeze_append hf hm hb
  · rintro rfl
    by_cases h : 3 ≤ gap.count '\n'
    · obtain ⟨front, middle, back, rfl, hf, hm, hb⟩ := exists_feeds h
      rw [squeeze_append hf hm hb]
      exact .squeezed hf hm hb
    · rw [squeeze, if_neg h]
      exact .kept (by omega)

/-- A gap that is not empty stays one. -/
theorem IsSqueezed.isEmpty_eq {gap result : Text} (h : IsSqueezed gap result) :
    gap.isEmpty = result.isEmpty := by
  cases h with
  | kept => rfl
  | @squeezed front middle back => cases front <;> rfl

/-- A squeezed gap is one. -/
theorem isBlank_of_mem_squeeze {gap : Text} (hg : ∀ c ∈ gap, isBlank c = true) :
    ∀ c ∈ squeeze gap, isBlank c = true := by
  have hs : IsSqueezed gap (squeeze gap) := isSqueezed_iff.2 rfl
  generalize squeeze gap = result at hs
  cases hs with
  | kept => exact hg
  | squeezed =>
    intro c hc
    apply hg
    simp only [List.mem_append, List.mem_cons, List.not_mem_nil, or_false, or_self] at hc ⊢
    tauto

/-! ## Collapsing gap by gap -/

/-- A character in front that is not blank is kept. -/
theorem collapse_cons {c : Char} (hc : isBlank c = false) (text : Text) :
    collapse (c :: text) = c :: collapse text := by
  obtain ⟨front, rest, rfl, hf, hrest⟩ := exists_front (fun d => !isBlank d) text
  simp only [Bool.not_eq_true', Bool.not_eq_false'] at hf hrest
  have hkept (front : Text) (hf : ∀ d ∈ front, isBlank d = false) :
      collapse (front ++ rest) = front ++ collapse rest := by
    rw [collapse_append (apart_of_forall hf hrest), collapse_eq_self hf]
  rw [← List.cons_append, hkept _ (List.forall_mem_cons.2 ⟨hc, hf⟩), hkept front hf,
    List.cons_append]

/-- The first gap is squeezed, and what stands behind the character after it is collapsed. -/
theorem collapse_append_cons {gap : Text} (hg : ∀ c ∈ gap, isBlank c = true) {c : Char}
    (hc : isBlank c = false) (rest : Text) :
    collapse (gap ++ c :: rest) = squeeze gap ++ c :: collapse rest := by
  have hnext : ∀ d ∈ (c :: rest).head?, isBlank d = !true := by
    rintro _ ⟨⟩
    exact hc
  rw [collapse_append (apart_of_forall hg hnext), collapse_of_forall hg, collapse_cons hc]

/-- Texts are collapsed apart in front of a character that is not blank. -/
theorem collapse_append_mark (front : Text) {c : Char} (hc : isBlank c = false) (rest : Text) :
    collapse (front ++ c :: rest) = collapse front ++ c :: collapse rest := by
  induction front using gap_induction with
  | last gap hg => rw [collapse_append_cons hg hc, collapse_of_forall hg]
  | step gap d front hg hd ih =>
    rw [List.append_assoc, List.cons_append, collapse_append_cons hg hd, ih,
      collapse_append_cons hg hd, List.append_assoc, List.cons_append]

/-- A stretch that begins and ends with a character that is not blank is collapsed on its own. -/
theorem isInfix_collapse {word text : Text} (h : word <:+: text)
    (hs : ∀ c ∈ word.head?, isBlank c = false) (he : ∀ c ∈ word.getLast?, isBlank c = false) :
    collapse word <:+: collapse text := by
  obtain ⟨front, back, rfl⟩ := h
  cases word with
  | nil => exact List.nil_infix
  | cons c word =>
    obtain ⟨stem, d, hd⟩ : ∃ stem d, c :: word = stem ++ [d] :=
      ⟨_, _, (List.dropLast_append_getLast (List.cons_ne_nil c word)).symm⟩
    have hfront : collapse (front ++ (c :: word ++ back)) =
        collapse front ++ collapse (c :: word ++ back) := by
      rw [List.cons_append, collapse_append_mark front (hs c rfl), collapse_cons (hs c rfl)]
    have hblank : isBlank d = false := he d (by rw [hd]; exact List.getLast?_concat)
    have hback : collapse (c :: word ++ back) = collapse (c :: word) ++ collapse back := by
      rw [hd, List.append_assoc, List.singleton_append, collapse_append_mark stem hblank,
        collapse_append_mark stem hblank []]
      simp [collapse, runs]
    rw [List.append_assoc, hfront, hback, ← List.append_assoc]
    exact List.infix_append _ _ _

/-- Collapsing keeps the characters that are not blank. -/
theorem marks_collapse (text : Text) : marks (collapse text) = marks text := by
  induction text using gap_induction with
  | last gap hg =>
    rw [collapse_of_forall hg, marks_of_forall (isBlank_of_mem_squeeze hg), marks_of_forall hg]
  | step gap c rest hg hc ih =>
    rw [collapse_append_cons hg hc, marks_append_cons (isBlank_of_mem_squeeze hg) hc,
      marks_append_cons hg hc, ih]

/-- Collapsing squeezes each gap. -/
theorem gaps_collapse (text : Text) : gaps (collapse text) = (gaps text).map squeeze := by
  induction text using gap_induction with
  | last gap hg =>
    rw [collapse_of_forall hg, gaps_of_forall (isBlank_of_mem_squeeze hg), gaps_of_forall hg]
    rfl
  | step gap c rest hg hc ih =>
    rw [collapse_append_cons hg hc, gaps_append_cons (isBlank_of_mem_squeeze hg) hc,
      gaps_append_cons hg hc, ih, List.map_cons]

/-- Collapsing is keeping the characters that are not blank and squeezing the gaps, and nothing
else. -/
theorem collapse_eq_iff {text result : Text} :
    collapse text = result ↔
      marks result = marks text ∧ List.Forall₂ IsSqueezed (gaps text) (gaps result) := by
  have hrule : IsSqueezed = fun gap result => squeeze gap = result := by
    funext gap result
    exact propext isSqueezed_iff
  have hgaps : List.Forall₂ IsSqueezed (gaps text) (gaps result) ↔
      (gaps text).map squeeze = gaps result := by
    rw [hrule, ← List.forall₂_map_left_iff, List.forall₂_eq_eq_eq]
  rw [hgaps, ← gaps_collapse]
  constructor
  · rintro rfl
    exact ⟨marks_collapse text, rfl⟩
  · rintro ⟨hm, hg⟩
    exact eq_of_marks_eq ((marks_collapse text).trans hm.symm) hg

/-- Collapsing squeezes the longest blank stretches of a text and does nothing else. The characters
that are not blank stay, in their order. A gap around them stays too, unless it has three line feeds
or more; then it becomes what stands in front of the first one, two line feeds, and what stands
behind the last one. The result is the only such text. So its longest blank stretches are those of
the text, squeezed, one for one. None of them has more than two line feeds, and collapsing again
changes nothing. The loop that cuts the text up at byte offsets gives the same result. -/
theorem blank_runs_are_squeezed (text : Text) :
    (∀ result, collapse text = result ↔
      marks result = marks text ∧ List.Forall₂ IsSqueezed (gaps text) (gaps result)) ∧
    List.Forall₂ IsSqueezed (blankRuns text) (blankRuns (collapse text)) ∧
    (∀ run ∈ blankRuns (collapse text), run.count '\n' ≤ 2) ∧
    collapse (collapse text) = collapse text ∧
    Offset.collapseBlankLines text = .ok (collapse text) := by
  have hgaps : List.Forall₂ IsSqueezed (gaps text) (gaps (collapse text)) :=
    (collapse_eq_iff.1 rfl).2
  have hcount : ∀ gap ∈ gaps (collapse text), gap.count '\n' ≤ 2 := by
    intro gap hg
    rw [gaps_collapse] at hg
    obtain ⟨run, -, rfl⟩ := List.mem_map.1 hg
    exact count_squeeze_le run
  have hruns : List.Forall₂ IsSqueezed (blankRuns text) (blankRuns (collapse text)) := by
    rw [blankRuns_eq, blankRuns_eq]
    refine List.rel_filter (fun gap result h => ?_) hgaps
    simp only [h.isEmpty_eq]
  have hagain : List.Forall₂ IsSqueezed (gaps (collapse text)) (gaps (collapse text)) :=
    List.forall₂_same.2 fun gap hg => .kept (hcount gap hg)
  refine ⟨fun _ => collapse_eq_iff, hruns, fun run hr => ?_, collapse_eq_iff.2 ⟨rfl, hagain⟩,
    Offset.collapseBlankLines_eq text⟩
  rw [blankRuns_eq] at hr
  exact hcount run (List.mem_of_mem_filter hr)

end VueSfc.Markup
