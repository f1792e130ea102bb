import VueSfc.Page
import VueSfc.Proofs.Markup.BlankRun
import VueSfc.Proofs.Text.Occurrence
import VueSfc.Proofs.Text.Placed

/-!
# Passes that keep places

A pass over a text takes characters out of it. Every pass that leads from a page to its template
is given once more for characters with their places: both agree on the characters, and what is
left with its places is cut out of what was there before.
-/

namespace VueSfc

open Text Markup

/-- A pass that takes characters out of a text, told on texts and on characters with places. -/
structure Pass where
  /-- The text that is left. -/
  run : Text → Text
  /-- The characters that are left, with their places. -/
  leave : Placed → Placed
  /-- Both leave the same characters. -/
  letters_leave : ∀ t, (leave t).letters = run t.letters
  /-- Nothing is added and nothing moved. -/
  leave_sublist : ∀ t, (leave t).Sublist t

namespace Pass

/-- One pass after another. -/
def andThen (first second : Pass) : Pass where
  run text := second.run (first.run text)
  leave t := second.leave (first.leave t)
  letters_leave t := by rw [second.letters_leave, first.letters_leave]
  leave_sublist t := (second.leave_sublist _).trans (first.leave_sublist t)

/-- What is left of a text, with the places where it stood. -/
def placed (pass : Pass) (text : Text) : Placed := pass.leave (.ofText text)

/-- The characters of what is left. -/
theorem letters_placed (pass : Pass) (text : Text) :
    (pass.placed text).letters = pass.run text := by
  rw [placed, pass.letters_leave, Placed.letters_ofText]

/-- What is left of a text is cut out of it. -/
theorem run_sublist (pass : Pass) (text : Text) : (pass.run text).Sublist text := by
  have h := (pass.leave_sublist (.ofText text)).map Prod.fst
  rwa [← Placed.letters, ← Placed.letters, pass.letters_leave, Placed.letters_ofText] at h

/-! ## Cutting -/

/-- Cutting pieces out. -/
def cutting {α : Type} (cutter : Cutter α) (h : cutter.Splits) : Pass where
  run := cutter.remove
  leave := cutter.leave
  letters_leave := Cutter.letters_leave h
  leave_sublist := cutter.leave_sublist

/-- Taking elements out splits the text. -/
theorem splits_elementCutter (name : Text) : (Element.cutter name).Splits := by
  intro text e rest h
  rw [Element.text_append_of_read? h]
  exact List.suffix_append _ _

/-- Taking tags out splits the text. -/
theorem splits_tagCutter (form : TagForm) (name : Text) : (Tag.cutter form name).Splits := by
  intro text tag rest h
  rw [Tag.append_of_read? h]
  exact List.suffix_append _ _

/-- Taking out the elements of a name. -/
def excise (name : Text) : Pass := cutting (Element.cutter name) (splits_elementCutter name)

/-- Taking out the tags of a form and name. -/
def strip (form : TagForm) (name : Text) : Pass :=
  cutting (Tag.cutter form name) (splits_tagCutter form name)

/-! ## The body -/

/-- Going on with what the first body element holds, or with everything. -/
def body : Pass where
  run := Template.bodyOrAll
  leave t :=
    match Element.find? "body" t.letters with
    | some (front, e, _) =>
      if e.content.isEmpty then t
      else (t.drop (front.length + e.openTag.length)).take e.content.length
    | none => t
  letters_leave t := by
    rw [Template.bodyOrAll]
    cases h : Element.find? "body" t.letters with
    | none => rfl
    | some found =>
      obtain ⟨front, e, back⟩ := found
      obtain ⟨tail, ht, hr⟩ := Cutter.exists_of_find? h
      rw [Element.text_append_of_read? hr] at ht
      dsimp only
      split
      · rfl
      · rw [Placed.letters_take, Placed.letters_drop, ht, Element.text, ← List.length_append]
        simp only [← List.append_assoc]
        rw [List.append_assoc (front ++ e.openTag ++ e.content), List.append_assoc _ e.content,
          List.drop_left, List.take_left]
  leave_sublist t := by
    split
    · split
      · exact List.Sublist.refl t
      · exact (List.take_sublist _ _).trans (List.drop_sublist _ _)
    · exact List.Sublist.refl t

/-! ## Blank characters -/

/-- Between what precedes the first character that fails a test and what follows the last one stand
all those that fail it. -/
private theorem exists_middle {α : Type} (test : α → Bool) {l : List α}
    (h : ∃ x ∈ l, test x = false) :
    ∃ middle, l = l.takeWhile test ++ (middle ++ (l.reverse.takeWhile test).reverse) ∧
      (l.filter fun x => !test x).Sublist middle := by
  induction l with
  | nil => simp at h
  | cons x l ih =>
    by_cases hx : test x = true
    · obtain ⟨y, hy, hf⟩ := h
      have hl : y ∈ l := by
        rcases List.mem_cons.1 hy with rfl | hy
        · rw [hx] at hf
          contradiction
        · exact hy
      obtain ⟨middle, he, hm⟩ := ih ⟨y, hl, hf⟩
      have hback : (x :: l).reverse.takeWhile test = l.reverse.takeWhile test := by
        rw [List.reverse_cons, List.takeWhile_append, if_neg]
        intro hlen
        have hall := (List.takeWhile_sublist test).eq_of_length hlen
        rw [List.takeWhile_eq_self_iff] at hall
        rw [hall y (List.mem_reverse.2 hl)] at hf
        contradiction
      refine ⟨middle, ?_, ?_⟩
      · rw [hback, List.takeWhile_cons_of_pos hx, List.cons_append, ← he]
      · rw [List.filter_cons_of_neg (by simp [hx])]
        exact hm
    · refine ⟨((x :: l).reverse.dropWhile test).reverse, ?_, ?_⟩
      · rw [List.takeWhile_cons_of_neg hx, ← List.reverse_append, List.nil_append,
          List.takeWhile_append_dropWhile, List.reverse_reverse]
      · have hsplit : (x :: l).reverse.takeWhile test ++ (x :: l).reverse.dropWhile test =
            (x :: l).reverse := List.takeWhile_append_dropWhile
        have hnone : ((x :: l).reverse.takeWhile test).filter (fun x => !test x) = [] := by
          rw [List.filter_eq_nil_iff]
          intro y hy
          simp [List.mem_takeWhile_imp hy]
        have hf := congrArg (List.filter fun x => !test x) hsplit
        rw [List.filter_append, hnone, List.nil_append, List.filter_reverse] at hf
        rw [← List.reverse_reverse (List.filter _ _), ← hf]
        exact List.reverse_sublist.2 List.filter_sublist

/-- Squeezing a run: of its line feeds the first two are kept. -/
private def squeezePlaced (run : Placed) : Placed :=
  if 3 ≤ run.letters.count '\n' then
    run.takeWhile (fun x => x.1 != '\n') ++
      ((run.filter fun x => x.1 == '\n').take 2 ++
        (run.reverse.takeWhile fun x => x.1 != '\n').reverse)
  else run

private theorem letters_squeezePlaced (run : Placed) :
    (squeezePlaced run).letters = squeeze run.letters := by
  rw [squeezePlaced, squeeze]
  split
  · rename_i h
    have hfeeds : Placed.letters ((run.filter fun x => x.1 == '\n').take 2) = ['\n', '\n'] := by
      rw [Placed.letters_take, Placed.letters_filter fun c => c == '\n', List.filter_beq,
        List.take_replicate, Nat.min_eq_left (by omega)]
      rfl
    rw [Placed.letters_append, Placed.letters_append, hfeeds, Placed.letters_reverse,
      Placed.letters_takeWhile fun c => c != '\n', Placed.letters_takeWhile fun c => c != '\n',
      Placed.letters_reverse, List.append_assoc]
    rfl
  · rfl

private theorem squeezePlaced_sublist (run : Placed) : (squeezePlaced run).Sublist run := by
  rw [squeezePlaced]
  split
  · rename_i h
    have hm : '\n' ∈ run.letters := List.count_pos_iff.1 (by omega)
    obtain ⟨x, hx, hf⟩ := List.mem_map.1 hm
    obtain ⟨middle, he, hs⟩ := exists_middle (fun x : Char × Nat => x.1 != '\n')
      ⟨x, hx, by simp [hf]⟩
    conv_rhs => rw [he]
    have hkept : ((run.filter fun x => x.1 == '\n').take 2).Sublist middle := by
      refine (List.take_sublist _ _).trans ?_
      simpa only [bne, Bool.not_not] using hs
    exact (List.Sublist.refl _).append (hkept.append (List.Sublist.refl _))
  · exact List.Sublist.refl run

/-- Collapsing runs of line feeds. -/
def collapsing : Pass where
  run := collapse
  leave t := (t.splitBy fun x y => isBlank x.1 == isBlank y.1).flatMap squeezePlaced
  letters_leave t := by
    have hruns : runs t.letters =
        (t.splitBy fun x y => isBlank x.1 == isBlank y.1).map Placed.letters :=
      runs_map Prod.fst t
    rw [collapse, hruns, List.flatMap_map, Placed.letters, List.map_flatMap]
    exact List.flatMap_congr fun run _ => letters_squeezePlaced run
  leave_sublist t := by
    conv_rhs => rw [← List.flatten_splitBy (fun x y : Char × Nat => isBlank x.1 == isBlank y.1) t]
    exact flatMap_sublist_flatten squeezePlaced_sublist _

/-- Trimming. -/
def trimming : Pass where
  run := trim
  leave t :=
    ((t.dropWhile fun x => isBlank x.1).reverse.dropWhile fun x => isBlank x.1).reverse
  letters_leave t := by
    simp only [Placed.letters_reverse, Placed.letters_dropWhile]
    rfl
  leave_sublist t := by
    have h := List.dropWhile_sublist (fun x : Char × Nat => isBlank x.1)
      (l := (t.dropWhile fun x => isBlank x.1).reverse)
    have hr := List.reverse_sublist.2 h
    rw [List.reverse_reverse] at hr
    exact hr.trans (List.dropWhile_sublist _)

/-! ## From a page to its template -/

/-- Taking out the doctype and the style blocks. -/
def styleFree : Pass := (strip .opening "!doctype").andThen (excise "style")

/-- Taking out the doctype, the style blocks and the script blocks. -/
def markup : Pass := styleFree.andThen (excise "script")

/-- What becomes of the markup of a page. -/
def isolating : Pass :=
  (strip .openingOrClosing "html").andThen <| (excise "head").andThen <| body.andThen <|
    (strip .openingOrClosing "body").andThen <| (strip .opening "meta").andThen <|
      (strip .opening "link").andThen <| (excise "title").andThen <| trimming.andThen collapsing

/-- Everything from a page to its template. -/
def template : Pass := markup.andThen isolating

/-- The markup of a page is what the passes leave. -/
theorem run_markup (page : Text) : markup.run page = (PageParts.ofPage page).markup := rfl

/-- The template of a page is what the passes leave. -/
theorem run_template (page : Text) :
    template.run page = Template.isolate (PageParts.ofPage page).markup := rfl

end Pass

end VueSfc
