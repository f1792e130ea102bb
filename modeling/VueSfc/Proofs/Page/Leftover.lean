import VueSfc.Proofs.Component.Dialects

/-!
# Style and script elements that are left

Style and script blocks are taken out of a page in one pass each. No element whose opening word
and closing tag stood unbroken in the page is left by them, nor by any later pass. What can be
left is an element of which one of the two was put together by a pass, out of what stood before
and after something that the pass took out.
-/

namespace VueSfc

open Text Markup Element

/-! ## Elements with unbroken tags -/

/-- The characters begin with an opening word of the name, behind which stand a `>` and then a
closing tag, and both the word and the closing tag are unbroken. -/
def StartsWhole (name : Text) (t : Placed) : Prop :=
  ∃ word inside close back : Placed, t = word ++ (inside ++ (close ++ back)) ∧
    eqFold (opening name) word.letters = true ∧ '>' ∈ inside.letters ∧
    eqFold (closing name) close.letters = true ∧ word.IsUnbroken ∧ close.IsUnbroken

/-- Such an element stands somewhere among the characters. -/
def HasWhole (name : Text) (t : Placed) : Prop :=
  ∃ front tail, t = front ++ tail ∧ StartsWhole name tail

private theorem ne_nil_of_eqFold {c : Char} {word : Text} {t : Placed}
    (h : eqFold (c :: word) t.letters = true) : t ≠ [] := by
  rintro rfl
  simp [eqFold] at h

/-- An element begins with a character. -/
theorem StartsWhole.exists_cons {name : Text} {t : Placed} (h : StartsWhole name t) :
    ∃ x tail, t = x :: tail := by
  obtain ⟨word, inside, close, back, rfl, hw, -⟩ := h
  obtain ⟨x, word, rfl⟩ := List.exists_cons_of_ne_nil (ne_nil_of_eqFold hw)
  exact ⟨x, _, rfl⟩

/-- An element is read where one with unbroken tags begins. -/
theorem StartsWhole.read?_ne_none {name : Text} {t : Placed} (h : StartsWhole name t) :
    Element.read? name t.letters ≠ none := by
  obtain ⟨word, inside, close, back, rfl, hw, hi, hc, -, -⟩ := h
  simp only [Placed.letters_append, ← List.append_assoc]
  exact Element.read?_ne_none hw hi hc

/-- More characters behind the first one leave an element with unbroken tags there. -/
theorem StartsWhole.of_sublist {name : Text} {x : Char × Nat} {t u : Placed}
    (h : StartsWhole name (x :: t)) (hs : t.Sublist u) (hu : Placed.IsOrdered (x :: u)) :
    StartsWhole name (x :: u) := by
  obtain ⟨word, inside, close, back, he, hw, hi, hc, hword, hclose⟩ := h
  obtain ⟨y, word, rfl⟩ := List.exists_cons_of_ne_nil (ne_nil_of_eqFold hw)
  rw [List.cons_append, List.cons.injEq] at he
  obtain ⟨rfl, rfl⟩ := he
  obtain ⟨u, rfl, htail⟩ := hword.exists_eq_append hu hs
  obtain ⟨inside', rest, rfl, hin, hrest⟩ := List.append_sublist_iff.1 htail
  have ho : Placed.IsOrdered rest :=
    hu.of_sublist (((List.sublist_append_right _ _).trans (List.sublist_append_right _ _)).cons x)
  obtain ⟨front, back', rfl, -⟩ :=
    Placed.exists_append_of_sublist (ne_nil_of_eqFold hc) hclose ho hrest
  refine ⟨x :: word, inside' ++ front, close, back', by simp, hw, ?_, hc, hword, hclose⟩
  rw [Placed.letters_append]
  exact List.mem_append_left _ ((hin.map Prod.fst).subset hi)

/-- An element with unbroken tags in what was cut out of a text stands in the text too. -/
theorem HasWhole.of_sublist {name : Text} {t u : Placed} (h : HasWhole name t) (hs : t.Sublist u)
    (hu : u.IsOrdered) : HasWhole name u := by
  obtain ⟨front, tail, rfl, hw⟩ := h
  obtain ⟨x, tail, rfl⟩ := hw.exists_cons
  obtain ⟨u₁, u₂, rfl, -, hcons⟩ := List.append_sublist_iff.1 hs
  obtain ⟨r₁, r₂, rfl, hx, htail⟩ := List.cons_sublist_iff.1 hcons
  obtain ⟨before, behind, rfl⟩ := List.append_of_mem hx
  have hback : Placed.IsOrdered (x :: (behind ++ r₂)) := by
    apply hu.of_sublist
    simp only [← List.append_assoc]
    rw [List.append_assoc _ (x :: behind)]
    exact List.sublist_append_right _ _
  refine ⟨u₁ ++ before, x :: (behind ++ r₂), by simp, ?_⟩
  exact hw.of_sublist (htail.trans (List.sublist_append_right _ _)) hback

/-- Taking out the elements of a name leaves none with unbroken tags. -/
theorem not_hasWhole_excise (name : Text) {t : Placed} (ht : t.IsOrdered) :
    ¬ HasWhole name ((Element.cutter name).leave t) := by
  induction t using Cutter.leave.induct (Element.cutter name) with
  | case1 =>
    rw [Cutter.leave_nil]
    rintro ⟨front, tail, he, hw⟩
    obtain ⟨x, tail, rfl⟩ := hw.exists_cons
    simp at he
  | case2 x t piece rest h ih =>
    rw [Cutter.leave_of_read? h]
    exact ih (ht.of_sublist (List.drop_sublist _ _))
  | case3 x t h ih =>
    rw [Cutter.leave_cons_of_read?_eq_none h]
    rintro ⟨front, tail, he, hw⟩
    cases front with
    | nil =>
      -- The element would have been read before anything behind its first character was taken out.
      rw [List.nil_append] at he
      rw [← he] at hw
      exact (hw.of_sublist (Cutter.leave_sublist _ t) ht).read?_ne_none h
    | cons y front =>
      rw [List.cons_append, List.cons.injEq] at he
      exact ih (List.pairwise_cons.1 ht).2 ⟨front, tail, he.2, hw⟩

/-- The names of the blocks that are taken out of a page. -/
def blockNames : List Text := ["style", "script"]

/-- The markup of a page holds no block with unbroken tags. -/
theorem not_hasWhole_markup (page : Text) {name : Text} (hn : name ∈ blockNames) :
    ¬ HasWhole name (Pass.markup.placed page) := by
  have hdoctype := (Placed.isOrdered_ofText page).of_sublist
    ((Pass.strip .opening "!doctype").leave_sublist _)
  have hstyle := (Placed.isOrdered_ofText page).of_sublist (Pass.styleFree.leave_sublist _)
  simp only [blockNames, List.mem_cons, List.not_mem_nil, or_false] at hn
  rcases hn with rfl | rfl
  · intro h
    exact not_hasWhole_excise "style" hdoctype
      (h.of_sublist ((Pass.excise "script").leave_sublist _) hstyle)
  · exact not_hasWhole_excise "script" hstyle

/-- The template of a page holds no block with unbroken tags. -/
theorem not_hasWhole_template (page : Text) {name : Text} (hn : name ∈ blockNames) :
    ¬ HasWhole name (Pass.template.placed page) := by
  intro h
  exact not_hasWhole_markup page hn (h.of_sublist (Pass.isolating.leave_sublist _)
    ((Placed.isOrdered_ofText page).of_sublist (Pass.markup.leave_sublist _)))

/-! ## Elements that are found -/

/-- An element of the name lies in the span of the characters, and its opening word or its closing
tag is not unbroken: some of the characters were put next to each other by a removal. -/
def IsJoinedAt (name : Text) (t : Placed) (span : Span) : Prop :=
  ∃ front word attributes content close back : Placed,
    t = front ++ (word ++ (attributes ++ (content ++ (close ++ back)))) ∧
    span = spanAt ⟨(word ++ attributes).letters, content.letters, close.letters⟩
      (byteSize front.letters) ∧
    eqFold (opening name) word.letters = true ∧ eqFold (closing name) close.letters = true ∧
    ¬ (word.IsUnbroken ∧ close.IsUnbroken)

/-- What is left of a page, told character by character, in which every block that is found is
one that was put together by a removal. -/
structure LeavesJoined (page left : Text) (t : Placed) : Prop where
  /-- The characters are those that are left. -/
  letters : t.letters = left
  /-- They stand in the page at their places. -/
  sublist : t.Sublist (Placed.ofText page)
  /-- A block found at or after any offset is one that was put together. -/
  joined : ∀ name ∈ blockNames, ∀ start span,
    findFrom? name left start = some span → IsJoinedAt name t span

/-- Where no element has unbroken tags, one that is found was put together. -/
theorem isJoinedAt_of_findFrom? {name : Text} {t : Placed} {start : Nat} {span : Span}
    (hn : IsPlainName name) (ht : ¬ HasWhole name t)
    (h : findFrom? name t.letters start = some span) : IsJoinedAt name t span := by
  obtain ⟨⟨skipped, rest⟩, hcut, h⟩ := Option.bind_eq_some_iff.1 h
  obtain ⟨⟨front, e, back⟩, hfind, rfl⟩ := Option.map_eq_some_iff.1 h
  obtain ⟨tail, rfl, hread⟩ := Cutter.exists_of_find? hfind
  obtain ⟨rfl, hnamed⟩ := (read?_eq_some_iff hn).1 hread
  obtain ⟨word, attributes, ho, hw, -⟩ := hnamed.openTag
  obtain ⟨openTag, content, closeTag⟩ := e
  dsimp only at ho
  subst ho
  have hsplit := append_of_cutAtByte? hcut
  simp only [Element.text, List.append_assoc] at hsplit
  obtain ⟨skipped', t₁, rfl, rfl, h₁⟩ := Placed.exists_append_of_letters hsplit
  obtain ⟨front', t₂, rfl, rfl, h₂⟩ := Placed.exists_append_of_letters h₁
  obtain ⟨word', t₃, rfl, rfl, h₃⟩ := Placed.exists_append_of_letters h₂
  rw [← List.append_assoc attributes] at h₃
  obtain ⟨attributes', t₄, rfl, ha, h₄⟩ := Placed.exists_append_of_letters h₃
  obtain ⟨content', t₅, rfl, rfl, h₅⟩ := Placed.exists_append_of_letters h₄
  obtain ⟨close', back', rfl, rfl, rfl⟩ := Placed.exists_append_of_letters h₅
  refine ⟨skipped' ++ front', word', attributes', content', close', back', by simp, ?_, hw,
    hnamed.closeTag, ?_⟩
  · rw [Placed.letters_append, Placed.letters_append, ha, byteSize_append, List.append_assoc]
  · rintro ⟨hword, hclose⟩
    refine ht ⟨skipped' ++ front', word' ++ (attributes' ++ content' ++ (close' ++ back')),
      by simp, word', attributes' ++ content', close', back', rfl, hw, ?_,
      hnamed.closeTag, hword, hclose⟩
    rw [Placed.letters_append, ha]
    simp

private theorem isPlainName_of_mem {name : Text} (hn : name ∈ blockNames) : IsPlainName name := by
  simp only [blockNames, List.mem_cons, List.not_mem_nil, or_false] at hn
  rcases hn with rfl | rfl <;> decide

/-- Passes that leave no block with unbroken tags leave only blocks that were put together. -/
theorem Pass.leavesJoined {pass : Pass} {page : Text}
    (h : ∀ name ∈ blockNames, ¬ HasWhole name (pass.placed page)) :
    LeavesJoined page (pass.run page) (pass.placed page) where
  letters := pass.letters_placed page
  sublist := pass.leave_sublist _
  joined := by
    intro name hn start span hf
    rw [← pass.letters_placed page] at hf
    exact isJoinedAt_of_findFrom? (isPlainName_of_mem hn) (h name hn) hf

/-- A page that can be converted has a template that is accepted. -/
theorem exists_read_of_convert? {dialect : Dialect} {page output : Text}
    (h : convert? dialect page = .ok output) :
    ∃ parts, Page.read page = .ok parts ∧
      parts.template = Template.isolate (PageParts.ofPage page).markup := by
  obtain ⟨parts, hr, -⟩ := exists_readPage_of_convert? h
  have hread := readPage_eq_ok_iff.1 hr
  exact ⟨parts, hread, by rw [(Page.read_eq_ok_iff.1 hread).2]⟩

/-- Every style or script element that is found at any offset of the markup of a page, and of the
template of a page that can be converted, has an opening word or a closing tag whose characters
did not all stand next to each other in the page. -/
theorem blocks_left_are_joined (page : Text) :
    LeavesJoined page (PageParts.ofPage page).markup (Pass.markup.placed page) ∧
      ∀ dialect output, convert? dialect page = .ok output →
        ∃ parts, Page.read page = .ok parts ∧
          LeavesJoined page parts.template (Pass.template.placed page) := by
  constructor
  · rw [← Pass.run_markup]
    exact Pass.leavesJoined fun name hn => not_hasWhole_markup page hn
  · intro dialect output h
    obtain ⟨parts, hr, ht⟩ := exists_read_of_convert? h
    refine ⟨parts, hr, ?_⟩
    rw [ht, ← Pass.run_template]
    exact Pass.leavesJoined fun name hn => not_hasWhole_template page hn

/-- A page whose script, when taken out, leaves a style element. -/
def joiningPage : Text := "<sty<script></script>le>x</style>"

/-- The style element is found in the markup and in the accepted template. -/
theorem style_left_in_joiningPage :
    findFrom? "style" (PageParts.ofPage joiningPage).markup 0 = some ⟨0, 7, 8, 16⟩ ∧
      ∃ output parts, convert? .composition joiningPage = .ok output ∧
        Page.read joiningPage = .ok parts ∧
        findFrom? "style" parts.template 0 = some ⟨0, 7, 8, 16⟩ := by
  refine ⟨by decide +kernel, ?_⟩
  cases hc : convert? .composition joiningPage with
  | error fault =>
    have hb : (convert? .composition joiningPage).toBool = true := by decide +kernel
    rw [hc] at hb
    contradiction
  | ok output =>
    obtain ⟨parts, hr, ht⟩ := exists_read_of_convert? hc
    refine ⟨output, parts, rfl, hr, ?_⟩
    rw [ht]
    decide +kernel

/-- Its opening word was put together. -/
theorem style_of_joiningPage_is_joined :
    IsJoinedAt "style" (Pass.markup.placed joiningPage) ⟨0, 7, 8, 16⟩ ∧
      IsJoinedAt "style" (Pass.template.placed joiningPage) ⟨0, 7, 8, 16⟩ := by
  refine ⟨(blocks_left_are_joined joiningPage).1.joined "style" (by decide) 0 _ (by decide +kernel),
    ?_⟩
  cases hc : convert? .options joiningPage with
  | error fault =>
    have hb : (convert? .options joiningPage).toBool = true := by decide +kernel
    rw [hc] at hb
    contradiction
  | ok output =>
    obtain ⟨parts, -, h⟩ := (blocks_left_are_joined joiningPage).2 .options output hc
    refine h.joined "style" (by decide) 0 _ ?_
    rw [← h.letters, Pass.letters_placed, Pass.run_template]
    decide +kernel

end VueSfc
