import VueSfc.Proofs.Markup.Reading
import VueSfc.Proofs.Page.Assembly
import VueSfc.Proofs.Page.Pass
import VueSfc.Proofs.Text.Lines
import VueSfc.Proofs.Text.Piecewise

/-!
# The stretches that blocks are left of

Style blocks are taken from a page without its doctypes, and script blocks from what is left when
the style elements are taken out of it too. Whatever stands within a block and looks like one of
these is therefore missing from the block, so a block need not stand in the page as it is. It is
what those passes leave of one stretch of the page, and it stands there as it is if they take
nothing out of that stretch.
-/

namespace VueSfc

open Text Markup

/-! ## Passes over pages -/

/-- Tags are read without regard to what follows them. -/
theorem isLocal_tagCutter (form : TagForm) {name : Text} (hn : '>' ∉ name) :
    (Tag.cutter form name).IsLocal := by
  intro text tag rest h
  obtain ⟨he, hinner⟩ := (Tag.read?_eq_some_iff hn).1 h
  exact ⟨tag, he, fun back => (Tag.read?_eq_some_iff hn).2 ⟨rfl, hinner⟩⟩

/-- Elements are read without regard to what follows them. -/
theorem isLocal_elementCutter {name : Text} (hn : Element.IsPlainName name) :
    (Element.cutter name).IsLocal := by
  intro text e rest h
  obtain ⟨he, hnamed⟩ := (Element.read?_eq_some_iff hn).1 h
  exact ⟨e.text, he, fun back => (Element.read?_eq_some_iff hn).2 ⟨rfl, hnamed⟩⟩

namespace Pass

/-- Taking out the doctypes. -/
def doctypeFree : Pass := strip .opening "!doctype"

/-- Doctypes are taken out piece by piece. -/
theorem isPiecewise_doctypeFree : IsPiecewise doctypeFree.run :=
  Cutter.IsLocal.isPiecewise (isLocal_tagCutter .opening (by decide))

/-- Doctypes and then style elements are taken out piece by piece. -/
theorem isPiecewise_styleFree : IsPiecewise styleFree.run :=
  (Cutter.IsLocal.isPiecewise (isLocal_elementCutter (by decide))).comp isPiecewise_doctypeFree

/-- A text in which no doctype opens is left as it is. -/
theorem run_doctypeFree_eq_self {text : Text} (h : ¬ OccursFold doctypeOpening text) :
    doctypeFree.run text = text :=
  congrArg Prod.fst (cut_doctype_eq_self h)

/-- A text in which neither a doctype nor a style element opens is left as it is. -/
theorem run_styleFree_eq_self {text : Text} (hd : ¬ OccursFold doctypeOpening text)
    (hs : ¬ OccursFold (Element.opening "style") text) : styleFree.run text = text := by
  have hnone : ∀ s, s <:+ text → s ≠ [] → (Element.cutter "style").read? s = none := by
    rintro s ⟨front, rfl⟩ -
    exact Element.read?_eq_none (Bool.eq_false_iff.2 fun ho =>
      hs (occursFold_iff.2 ⟨front, s, rfl, ho⟩))
  have hkept : (excise "style").run text = text := congrArg Prod.fst (Cutter.cut_eq_self hnone)
  have hrun : styleFree.run text = (excise "style").run (doctypeFree.run text) := rfl
  rw [hrun, run_doctypeFree_eq_self hd, hkept]

end Pass

/-! ## Blocks -/

/-- A block was taken from an element of what a pass leaves of a page, and is itself what the pass
leaves of a stretch of the page. -/
structure IsTakenFrom (name : Text) (pass : Pass) (page block : Text) (e : Element)
    (front stretch back : Text) : Prop where
  /-- The element has the name. -/
  isNamed : e.IsNamed name
  /-- The block is its content, trimmed. -/
  trim_content : trim e.content = block
  /-- The stretch stands in the page. -/
  page_eq : page = front ++ stretch ++ back
  /-- The block is left of it. -/
  run_stretch : pass.run stretch = block
  /-- It begins as the block does. -/
  head?_eq : stretch.head? = block.head?
  /-- It ends as the block does. -/
  getLast?_eq : stretch.getLast? = block.getLast?
  /-- What is left around it has the rest of the element: the opening tag, perhaps with blank
  characters behind it, and the closing tag, perhaps with blank characters in front of it. -/
  around : ∃ before lead trail behind, e.content = lead ++ block ++ trail ∧
    pass.run front = before ++ e.openTag ++ lead ∧ pass.run back = trail ++ e.closeTag ++ behind

/-- A block that is left of a stretch in which nothing is taken out stands in the page. -/
theorem IsTakenFrom.isInfix {name : Text} {pass : Pass} {page block front stretch back : Text}
    {e : Element} (h : IsTakenFrom name pass page block e front stretch back)
    (hs : pass.run stretch = stretch) : stretch = block ∧ block <:+: page := by
  have he : stretch = block := hs.symm.trans h.run_stretch
  exact ⟨he, front, back, he ▸ h.page_eq.symm⟩

/-- The blocks of a name are taken from stretches. -/
theorem exists_isTakenFrom {name : Text} (pass : Pass) (hn : Element.IsPlainName name)
    (hp : IsPiecewise pass.run) {page block : Text}
    (h : block ∈ trimmedBlocks (Element.excise name (pass.run page)).2) :
    ∃ e front stretch back, IsTakenFrom name pass page block e front stretch back := by
  obtain ⟨hblock, -⟩ := List.mem_filter.1 h
  obtain ⟨content, hcontent, rfl⟩ := List.mem_map.1 hblock
  obtain ⟨e, he, rfl⟩ := List.mem_map.1 hcontent
  obtain ⟨tail, rest, ⟨before, hsuffix⟩, hread⟩ :=
    Cutter.exists_suffix_of_mem_cut (Pass.splits_elementCutter name) he
  obtain ⟨rfl, hnamed⟩ := (Element.read?_eq_some_iff hn).1 hread
  obtain ⟨lead, trail, htrim⟩ := isInfix_trim e.content
  have hleft : pass.run page = before ++ e.openTag ++ lead ++ trim e.content ++
      (trail ++ e.closeTag ++ rest) := by
    rw [← hsuffix, Element.text]
    conv_lhs => rw [← htrim]
    simp only [List.append_assoc]
  obtain ⟨front, stretch, back, hpage, hfront, hstretch, hback, hhead, hlast⟩ :=
    hp.exists_stretch hleft
  exact ⟨e, front, stretch, back, hnamed, rfl, hpage, hstretch, hhead, hlast, before, lead, trail,
    rest, htrim.symm, hfront, hback⟩

/-- Every block is left of one stretch of the page. A style block is the trimmed content of a style
element of the page without its doctypes, and what is left of a stretch of the page when doctypes
are taken out; it is that stretch as it is if no doctype opens in it. A script block is the trimmed
content of a script element of what is left of the page when doctypes and then style elements are
taken out, and what is left of a stretch when they are taken out; it is that stretch as it is if
neither a doctype nor a style element opens in it. -/
theorem blocks_are_left_of_stretches (page : Text) :
    (∀ block ∈ (PageParts.ofPage page).styles, ∃ e front stretch back,
      IsTakenFrom "style" .doctypeFree page block e front stretch back ∧
        (¬ OccursFold doctypeOpening stretch → stretch = block ∧ block <:+: page)) ∧
    ∀ block ∈ (PageParts.ofPage page).scripts, ∃ e front stretch back,
      IsTakenFrom "script" .styleFree page block e front stretch back ∧
        (¬ OccursFold doctypeOpening stretch → ¬ OccursFold (Element.opening "style") stretch →
          stretch = block ∧ block <:+: page) := by
  constructor
  · intro block hb
    obtain ⟨e, front, stretch, back, h⟩ :=
      exists_isTakenFrom .doctypeFree (by decide) Pass.isPiecewise_doctypeFree hb
    exact ⟨e, front, stretch, back, h, fun hd => h.isInfix (Pass.run_doctypeFree_eq_self hd)⟩
  · intro block hb
    obtain ⟨e, front, stretch, back, h⟩ :=
      exists_isTakenFrom .styleFree (by decide) Pass.isPiecewise_styleFree hb
    exact ⟨e, front, stretch, back, h, fun hd hs => h.isInfix (Pass.run_styleFree_eq_self hd hs)⟩

/-- A page with a style element in the text of a script. -/
def quotedStylePage : Text := "<script>let a = \"<style>x</style>\";</script>"

/-- The script block of the page does not stand in it. -/
theorem script_of_quotedStylePage_not_isInfix :
    ∃ block ∈ (PageParts.ofPage quotedStylePage).scripts, ¬ block <:+: quotedStylePage :=
  ⟨"let a = \"\";", by decide +kernel, by decide +kernel⟩

/-- It is left of a stretch of the page that is not the block, while the style block, in which no
doctype opens, stands in the page. -/
theorem blocks_of_quotedStylePage_are_left_of_stretches :
    (∃ e front stretch back, IsTakenFrom "script" .styleFree quotedStylePage "let a = \"\";" e front
      stretch back ∧ stretch ≠ "let a = \"\";".toList) ∧ "x".toList <:+: quotedStylePage := by
  obtain ⟨hstyles, hscripts⟩ := blocks_are_left_of_stretches quotedStylePage
  constructor
  · obtain ⟨e, front, stretch, back, h, -⟩ := hscripts "let a = \"\";" (by decide +kernel)
    refine ⟨e, front, stretch, back, h, ?_⟩
    have hn : ¬ "let a = \"\";".toList <:+: quotedStylePage := by decide +kernel
    rintro rfl
    exact hn ⟨front, back, h.page_eq.symm⟩
  · obtain ⟨e, front, stretch, back, h, hkept⟩ := hstyles "x" (by decide +kernel)
    have hn : ¬ OccursFold doctypeOpening quotedStylePage := by decide +kernel
    refine (hkept fun ho => hn ?_).2
    rw [h.page_eq]
    exact ho.append front back

end VueSfc
