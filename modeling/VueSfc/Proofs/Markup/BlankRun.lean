import Mathlib.Data.List.SplitBy
import Mathlib.Data.List.TakeWhile
import VueSfc.Markup.BlankRun
import VueSfc.Proofs.Text.Lines

/-!
# Runs

Where the runs of a text begin and end depends only on which of its characters are blank, and how
a run is squeezed only on which of them are line feeds. A change of the characters that respects
both is passed through collapsing, and two texts are collapsed apart where one run ends and another
begins. So a text can be taken run by run: its ends stay where they are not blank, and what is left
of its blank stretches has two line feeds at most.
-/

namespace VueSfc.Markup

open Text

/-- The runs of characters read off some items are read off stretches of those items. -/
theorem runs_map {α : Type} (f : α → Char) (items : List α) :
    runs (items.map f) =
      (items.splitBy fun x y => isBlank (f x) == isBlank (f y)).map (List.map f) := by
  rw [runs, List.splitBy_eq_iff]
  refine ⟨?_, ?_, ?_, ?_⟩
  · rw [← List.map_flatten, List.flatten_splitBy]
  · intro h
    obtain ⟨run, hr, he⟩ := List.mem_map.1 h
    exact List.ne_nil_of_mem_splitBy hr (List.map_eq_nil_iff.1 he)
  · intro run h
    obtain ⟨run, hr, rfl⟩ := List.mem_map.1 h
    exact (List.isChain_map f).2 (List.isChain_of_mem_splitBy hr)
  · rw [List.isChain_map]
    refine (List.isChain_getLast_head_splitBy _ items).imp ?_
    rintro u v ⟨hu, hv, h⟩
    refine ⟨mt List.map_eq_nil_iff.1 hu, mt List.map_eq_nil_iff.1 hv, ?_⟩
    simpa only [List.getLast_map, List.head_map] using h

variable {f : Char → Char}

/-- A change that respects line feeds is passed through squeezing. -/
theorem squeeze_map (hf : ∀ c, (f c == '\n') = (c == '\n')) (run : Text) :
    squeeze (run.map f) = (squeeze run).map f := by
  have hfeed : f '\n' = '\n' := beq_iff_eq.1 (hf '\n')
  have hcount : (run.map f).count '\n' = run.count '\n' := by
    rw [List.count, List.countP_map, Function.comp_def, funext hf]
  have htake (text : Text) :
      (text.map f).takeWhile (· != '\n') = (text.takeWhile (· != '\n')).map f := by
    simp only [List.takeWhile_map, Function.comp_def, bne, hf]
  rw [squeeze, squeeze, hcount]
  split
  · simp only [beforeFirstFeed, afterLastFeed, ← List.map_reverse, htake, List.map_append,
      List.map_cons, List.map_nil, hfeed]
  · rfl

/-- A change that respects blank characters and line feeds is passed through collapsing. -/
theorem collapse_map (hb : ∀ c, isBlank (f c) = isBlank c)
    (hf : ∀ c, (f c == '\n') = (c == '\n')) (text : Text) :
    collapse (text.map f) = (collapse text).map f := by
  have hruns : runs (text.map f) = (runs text).map (List.map f) := by
    rw [runs_map]
    simp only [hb]
    rfl
  rw [collapse, collapse, hruns, List.flatMap_map, List.map_flatMap]
  exact List.flatMap_congr fun run _ => squeeze_map hf run

/-- Texts have their runs apart where one ends between them. -/
theorem runs_append {front back : Text}
    (h : ∀ c ∈ front.getLast?, ∀ d ∈ back.head?, (isBlank c == isBlank d) = false) :
    runs (front ++ back) = runs front ++ runs back := by
  rw [runs, List.splitBy_append h]
  rfl

/-- A run ends where characters that are blank meet one that is not, or the other way round. -/
theorem apart_of_forall {front back : Text} {blank : Bool} (hf : ∀ c ∈ front, isBlank c = blank)
    (hb : ∀ d ∈ back.head?, isBlank d = !blank) :
    ∀ c ∈ front.getLast?, ∀ d ∈ back.head?, (isBlank c == isBlank d) = false := by
  intro c hc d hd
  rw [hf c (List.mem_of_mem_getLast? hc), hb d hd]
  cases blank <;> rfl

/-- Texts are collapsed apart where a run ends between them. -/
theorem collapse_append {front back : Text}
    (h : ∀ c ∈ front.getLast?, ∀ d ∈ back.head?, (isBlank c == isBlank d) = false) :
    collapse (front ++ back) = collapse front ++ collapse back := by
  rw [collapse, runs_append h, List.flatMap_append]
  rfl

/-- A text of characters alike is one run. -/
theorem runs_of_forall {text : Text} {blank : Bool} (hn : text ≠ [])
    (h : ∀ c ∈ text, isBlank c = blank) : runs text = [text] := by
  have hchain : text.IsChain fun x y => (isBlank x == isBlank y) = true := by
    refine List.Pairwise.isChain (List.pairwise_of_forall_mem_list fun x hx y hy => ?_)
    rw [h x hx, h y hy, beq_self_eq_true]
  rw [runs, List.splitBy_of_isChain hn hchain]

/-- A text of characters alike is squeezed as one run. -/
theorem collapse_of_forall {text : Text} {blank : Bool} (h : ∀ c ∈ text, isBlank c = blank) :
    collapse text = squeeze text := by
  by_cases hn : text = []
  · rw [hn]
    rfl
  · rw [collapse, runs_of_forall hn h, List.flatMap_singleton]

/-- A text without blank characters is kept. -/
theorem collapse_eq_self {text : Text} (h : ∀ c ∈ text, isBlank c = false) :
    collapse text = text := by
  have hfeed : '\n' ∉ text := fun hm => absurd (h _ hm) (by decide)
  have hcount : ¬ 3 ≤ text.count '\n' := by
    rw [List.count_eq_zero.2 hfeed]
    omega
  rw [collapse_of_forall h, squeeze, if_neg hcount]

/-- The first run of blank characters is squeezed, what stands before it is kept, and what follows
it is collapsed on its own. -/
theorem collapse_of_run {before run tail : Text} (hbefore : ∀ c ∈ before, isBlank c = false)
    (hn : run ≠ []) (hrun : ∀ c ∈ run, isBlank c = true)
    (htail : ∀ c ∈ tail.head?, isBlank c = false) :
    collapse (before ++ run ++ tail) = before ++ squeeze run ++ collapse tail := by
  rw [collapse_append, collapse_append, collapse_eq_self hbefore, collapse_of_forall hrun]
  · exact apart_of_forall hbefore fun c hc => hrun c (List.mem_of_mem_head? hc)
  · intro x hx y hy
    rw [List.getLast?_append_of_ne_nil _ hn] at hx
    rw [hrun x (List.mem_of_mem_getLast? hx), htail y hy]
    rfl

/-! ## Run by run -/

/-- A text has no blank character, or else its first run of them stands between what has none and
what does not begin with one, and what holds of the latter text can be used. -/
theorem run_induction {motive : Text → Prop}
    (plain : ∀ text, (∀ c ∈ text, isBlank c = false) → motive text)
    (step : ∀ before run tail, (∀ c ∈ before, isBlank c = false) → run ≠ [] →
      (∀ c ∈ run, isBlank c = true) → (∀ c ∈ tail.head?, isBlank c = false) →
      motive tail → motive (before ++ run ++ tail)) (text : Text) : motive text := by
  generalize hn : text.length = n
  induction n using Nat.strong_induction_on generalizing text with
  | _ n ih =>
    let before := text.takeWhile fun c => !isBlank c
    let rest := text.dropWhile fun c => !isBlank c
    have hsplit : before ++ rest = text := List.takeWhile_append_dropWhile
    have hbefore : ∀ c ∈ before, isBlank c = false := fun c hc => by
      simpa using List.mem_takeWhile_imp hc
    have hrest : ∀ c ∈ rest.head?, isBlank c = true := by
      intro c hc
      have hd := List.head?_dropWhile_not (fun c => !isBlank c) text
      rw [show (text.dropWhile fun c => !isBlank c).head? = some c from hc] at hd
      simpa using hd
    cases hr : rest with
    | nil =>
      rw [← hsplit, hr, List.append_nil]
      exact plain before hbefore
    | cons c r =>
      have hc : isBlank c = true := hrest c (by rw [hr]; rfl)
      have hrun : rest.takeWhile isBlank ++ rest.dropWhile isBlank = rest :=
        List.takeWhile_append_dropWhile
      have hne : rest.takeWhile isBlank ≠ [] := by
        rw [hr, List.takeWhile_cons_of_pos hc]
        exact List.cons_ne_nil _ _
      have htail : ∀ d ∈ (rest.dropWhile isBlank).head?, isBlank d = false := by
        intro d hd
        have hh := List.head?_dropWhile_not isBlank rest
        rw [Option.mem_def.1 hd] at hh
        simpa using hh
      have hlength := congrArg List.length hsplit
      have hlength' := congrArg List.length hrun
      rw [List.length_append] at hlength hlength'
      have hpos := List.length_pos_iff.2 hne
      have htext := step before _ _ hbefore hne (fun d hd => List.mem_takeWhile_imp hd) htail
        (ih _ (by omega) _ rfl)
      rwa [List.append_assoc, hrun, hsplit] at htext

/-- What stands before the first line feed has none. -/
theorem beforeFirstFeed_append {front : Text} (h : '\n' ∉ front) (back : Text) :
    beforeFirstFeed (front ++ '\n' :: back) = front := by
  have hpass : ∀ c ∈ front, (c != '\n') = true := fun c hc =>
    bne_iff_ne.2 fun he => h (he ▸ hc)
  rw [beforeFirstFeed, List.takeWhile_append_of_pos hpass, List.takeWhile_cons_of_neg (by decide),
    List.append_nil]

/-- What stands after the last line feed has none. -/
theorem afterLastFeed_append (front : Text) {back : Text} (h : '\n' ∉ back) :
    afterLastFeed (front ++ '\n' :: back) = back := by
  have hrev : (front ++ '\n' :: back).reverse = back.reverse ++ '\n' :: front.reverse := by
    simp
  have hback := beforeFirstFeed_append (mt List.mem_reverse.1 h) front.reverse
  rw [beforeFirstFeed] at hback
  rw [afterLastFeed, hrev, hback, List.reverse_reverse]

/-- A squeezed run has at most two line feeds. -/
theorem count_squeeze_le (run : Text) : (squeeze run).count '\n' ≤ 2 := by
  have hfront (t : Text) : (t.takeWhile (· != '\n')).count '\n' = 0 := by
    rw [List.count_eq_zero]
    intro hm
    simpa using List.mem_takeWhile_imp hm
  rw [squeeze]
  split
  · have hback := hfront run.reverse
    rw [beforeFirstFeed, afterLastFeed, List.count_append, List.count_append, hfront,
      List.count_reverse, hback]
    decide
  · omega

/-- The first character stays where it is not blank. -/
theorem head?_collapse {text : Text} (h : ∀ c ∈ text.head?, isBlank c = false) :
    (collapse text).head? = text.head? := by
  induction text using run_induction with
  | plain text hplain => rw [collapse_eq_self hplain]
  | step before run tail hbefore hne hrun htail _ =>
    rw [collapse_of_run hbefore hne hrun htail]
    cases before with
    | nil =>
      obtain ⟨c, run, rfl⟩ := List.exists_cons_of_ne_nil hne
      have hc := h c rfl
      rw [hrun c List.mem_cons_self] at hc
      cases hc
    | cons c before => rfl

/-- The last character stays where it is not blank. -/
theorem getLast?_collapse {text : Text} (h : ∀ c ∈ text.getLast?, isBlank c = false) :
    (collapse text).getLast? = text.getLast? := by
  induction text using run_induction with
  | plain text hplain => rw [collapse_eq_self hplain]
  | step before run tail hbefore hne hrun htail ih =>
    rw [collapse_of_run hbefore hne hrun htail]
    by_cases ht : tail = []
    · -- The text would end with the run.
      subst ht
      rw [List.append_nil, List.getLast?_append_of_ne_nil _ hne] at h
      have hblank := h _ (List.getLast?_eq_some_getLast hne)
      rw [hrun _ (List.getLast_mem hne)] at hblank
      cases hblank
    · have hcollapsed : collapse tail ≠ [] := by
        intro hn
        have hhead := head?_collapse htail
        rw [hn] at hhead
        exact ht (List.head?_eq_none_iff.1 hhead.symm)
      rw [List.getLast?_append_of_ne_nil _ ht] at h ⊢
      rw [List.getLast?_append_of_ne_nil _ hcollapsed, ih h]

/-- A stretch of blank characters behind others stands in what follows those. -/
private theorem isInfix_of_append {blanks front back : Text}
    (hb : ∀ c ∈ blanks, isBlank c = true) (hf : ∀ c ∈ front, isBlank c = false)
    (h : blanks <:+: front ++ back) : blanks <:+: back := by
  induction front with
  | nil => exact h
  | cons c front ih =>
    rw [List.forall_mem_cons] at hf
    have hc : c ∉ blanks := fun hm => by simp [hb c hm] at hf
    rcases (isInfix_append_cons_iff hc [] (front ++ back)).1 h with h | h
    · rw [List.infix_nil.1 h]
      exact List.nil_infix
    · exact ih hf.2 h

/-- No stretch of blank characters of a collapsed text has more than two line feeds. -/
theorem count_le_of_isInfix_collapse {blanks text : Text} (hb : ∀ c ∈ blanks, isBlank c = true)
    (h : blanks <:+: collapse text) : blanks.count '\n' ≤ 2 := by
  induction text using run_induction with
  | plain text hplain =>
    rw [collapse_eq_self hplain, ← List.append_nil text] at h
    rw [List.infix_nil.1 (isInfix_of_append hb hplain h)]
    exact Nat.zero_le 2
  | step before run tail hbefore hne hrun htail ih =>
    rw [collapse_of_run hbefore hne hrun htail, List.append_assoc] at h
    have hback := isInfix_of_append hb hbefore h
    have hsqueezed (hs : blanks <:+: squeeze run) : blanks.count '\n' ≤ 2 :=
      (hs.sublist.count_le '\n').trans (count_squeeze_le run)
    cases ht : collapse tail with
    | nil =>
      rw [ht, List.append_nil] at hback
      exact hsqueezed hback
    | cons c rest =>
      -- What follows the run begins with a character that is not blank.
      have hc : c ∉ blanks := by
        intro hm
        have hhead := head?_collapse htail
        rw [ht] at hhead
        have hblank := htail c hhead.symm
        rw [hb c hm] at hblank
        contradiction
      rw [ht] at hback
      rcases (isInfix_append_cons_iff hc _ _).1 hback with hs | hs
      · exact hsqueezed hs
      · rw [ht] at ih
        exact ih (hs.trans (List.suffix_cons c rest).isInfix)

end VueSfc.Markup
