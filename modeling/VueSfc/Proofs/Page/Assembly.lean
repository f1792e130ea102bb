import VueSfc.Page
import VueSfc.Proofs.Markup.Reading

/-!
# Pages put together and taken apart

A page may be put together from a doctype, stretches of markup, and style and script blocks
between them in any order. Taking the page apart gives back the markup without its blocks and
the contents of the blocks of either kind, so the three passes over the page neither miss a
block nor take a part of another one for it.
-/

namespace VueSfc

open Text Markup Element

/-! ## Blocks -/

/-- The two kinds of blocks of a page. -/
inductive BlockKind where
  /-- A block of style rules. -/
  | style
  /-- A block of source code. -/
  | script
  deriving DecidableEq, Repr

/-- The name of the elements of a kind. -/
def BlockKind.name : BlockKind → Text
  | .style => "style"
  | .script => "script"

/-- What a doctype begins with. -/
def doctypeOpening : Text := "<!doctype"

/-- The words that would begin a doctype or a block. -/
def reservedWords : List Text :=
  [doctypeOpening, opening BlockKind.style.name, opening BlockKind.script.name]

/-- The text holds no reserved word. -/
def IsFree (text : Text) : Prop := ∀ word ∈ reservedWords, ¬ OccursFold word text

instance (text : Text) : Decidable (IsFree text) := inferInstanceAs (Decidable (∀ _ ∈ _, _))

/-- A style or script block as it may be written in a page. -/
structure Block where
  /-- Its kind. -/
  kind : BlockKind
  /-- The opening word, in any letter case. -/
  word : Text
  /-- What stands between the opening word and the `>`. -/
  attributes : Text
  /-- The content. -/
  content : Text
  /-- The closing tag, in any letter case. -/
  closeTag : Text
  /-- The opening word is that of the kind. -/
  word_eq : eqFold (opening kind.name) word = true
  /-- No bracket stands in the opening tag. -/
  attributes_plain : '<' ∉ attributes ∧ '>' ∉ attributes
  /-- No block or doctype begins in the content. -/
  content_free : IsFree content
  /-- The block does not end in its content. -/
  content_open : ¬ OccursFold (closing kind.name) content
  /-- The closing tag is that of the kind. -/
  closeTag_eq : eqFold (closing kind.name) closeTag = true

namespace Block

/-- A block as an element. -/
def element (b : Block) : Element := ⟨b.word ++ b.attributes ++ ['>'], b.content, b.closeTag⟩

/-- A block as written. -/
def text (b : Block) : Text := b.element.text

end Block

/-- A doctype as it may be written in a page. -/
structure Doctype where
  /-- The opening word, in any letter case. -/
  word : Text
  /-- The rest, up to the `>`. -/
  rest : Text
  /-- The opening word is that of doctypes. -/
  word_eq : eqFold doctypeOpening word = true
  /-- The doctype ends at its first `>`. -/
  rest_plain : '>' ∉ rest

/-- A doctype as written. -/
def Doctype.text (d : Doctype) : Text := d.word ++ d.rest ++ ['>']

/-! ## Pages -/

/-- A page put together: perhaps a doctype, markup, and blocks each followed by markup. -/
structure PageAssembly where
  /-- The doctype, if there is one. -/
  doctype : Option Doctype
  /-- The markup before the first block. -/
  front : Text
  /-- The blocks, each with the markup behind it. -/
  blocks : List (Block × Text)
  /-- No reserved word stands in the markup, not even where blocks are left out. -/
  markup_free : IsFree (front ++ blocks.flatMap Prod.snd)

/-- Blocks of the kinds to keep, and all markup, as written. -/
def renderBlocks (keep : BlockKind → Bool) (blocks : List (Block × Text)) : Text :=
  blocks.flatMap fun (b, markup) => (if keep b.kind then b.text else []) ++ markup

/-- The elements of a kind among some blocks. -/
def elementsOf (kind : BlockKind) (blocks : List (Block × Text)) : List Element :=
  ((blocks.map Prod.fst).filter fun b => b.kind = kind).map Block.element

namespace PageAssembly

/-- The text of a page. -/
def text (a : PageAssembly) : Text :=
  (a.doctype.elim [] Doctype.text) ++ a.front ++
    a.blocks.flatMap fun (b, markup) => b.text ++ markup

/-- The markup of a page. -/
def markup (a : PageAssembly) : Text := a.front ++ a.blocks.flatMap Prod.snd

/-- The contents of the blocks of a kind in their order, trimmed, blank ones left out. -/
def contentsOf (a : PageAssembly) (kind : BlockKind) : List Text :=
  (((a.blocks.map Prod.fst).filter fun b => b.kind = kind).map fun b => trim b.content).filter
    fun content => content ≠ []

end PageAssembly

/-! ## Reserved words and blocks -/

private theorem isPlainName_name (kind : BlockKind) : IsPlainName kind.name := by
  cases kind <;> decide

private theorem isTagWord_of_mem {word : Text} (h : word ∈ reservedWords) : IsTagWord word := by
  revert word
  decide

/-- A block is an element of its kind's name. -/
theorem Block.isNamed (b : Block) : b.element.IsNamed b.kind.name :=
  ⟨⟨b.word, b.attributes, rfl, b.word_eq, b.attributes_plain.2⟩, b.content_open, b.closeTag_eq⟩

/-- A word other than that of a block does not begin with the block. -/
private theorem not_startsFold_word {kind : BlockKind} {word : Text} (hw : word ∈ reservedWords)
    (hne : word ≠ opening kind.name) (back : Text) :
    startsFold word (opening kind.name ++ back) = false := by
  simp only [reservedWords, List.mem_cons, List.not_mem_nil, or_false] at hw
  rcases hw with rfl | rfl | rfl <;> cases kind <;> first | rfl | exact absurd rfl hne

/-- No reserved word begins with a closing tag. -/
private theorem not_startsFold_closing {kind : BlockKind} {word : Text}
    (hw : word ∈ reservedWords) (back : Text) :
    startsFold word (closing kind.name ++ back) = false := by
  simp only [reservedWords, List.mem_cons, List.not_mem_nil, or_false] at hw
  rcases hw with rfl | rfl | rfl <;> cases kind <;> rfl

/-- A reserved word that occurs behind the start of a block of another kind occurs behind the
whole block. -/
theorem Block.occursFold_of_text_append {b : Block} {word q : Text} (hw : word ∈ reservedWords)
    (hne : word ≠ opening b.kind.name) (h : OccursFold word (b.text ++ q)) :
    OccursFold word q := by
  have ht := isTagWord_of_mem hw
  obtain ⟨u, hu, hul⟩ := (isTagWord_opening (isPlainName_name b.kind)).exists_cons b.word_eq
  obtain ⟨v, hv, hvl⟩ := (isTagWord_closing (isPlainName_name b.kind)).exists_cons b.closeTag_eq
  have htext : b.text ++ q = '<' :: ((u ++ (b.attributes ++ ['>'])) ++
      (b.content ++ '<' :: (v ++ q))) := by
    simp [Block.text, Block.element, Element.text, hu, hv]
  -- Nothing begins at the opening word, and the rest of the opening tag has no `<`.
  rw [htext, occursFold_cons, ← htext] at h
  have hfirst : startsFold word (b.text ++ q) = false := by
    simp only [Block.text, Block.element, Element.text, List.append_assoc]
    rw [startsFold_congr b.word_eq]
    exact not_startsFold_word hw hne _
  have hplain : '<' ∉ u ++ (b.attributes ++ ['>']) := by
    simp [hul, b.attributes_plain.1]
  rw [hfirst] at h
  have hinside := ht.occursFold_of_append hplain (h.resolve_left Bool.false_ne_true)
  -- Nothing begins in the content or at the closing tag, and the rest of that has no `<`.
  rcases ht.occursFold_append_cons hinside with hc | hc
  · exact absurd hc (b.content_free word hw)
  · rw [occursFold_cons] at hc
    have hlast : startsFold word ('<' :: (v ++ q)) = false := by
      rw [← List.cons_append, ← hv, startsFold_congr b.closeTag_eq]
      exact not_startsFold_closing hw _
    rw [hlast] at hc
    exact ht.occursFold_of_append hvl (hc.resolve_left Bool.false_ne_true)

/-- Putting a block of another kind into a text makes no new occurrence of a reserved word. -/
theorem Block.not_occursFold_append {b : Block} {word p q : Text} (hw : word ∈ reservedWords)
    (hne : word ≠ opening b.kind.name) (h : ¬ OccursFold word (p ++ q)) :
    ¬ OccursFold word (p ++ (b.text ++ q)) := by
  intro ho
  obtain ⟨u, hu, -⟩ := (isTagWord_opening (isPlainName_name b.kind)).exists_cons b.word_eq
  have htext : b.text ++ q =
      '<' :: (u ++ (b.attributes ++ ('>' :: (b.content ++ (b.closeTag ++ q))))) := by
    simp [Block.text, Block.element, Element.text, hu]
  rw [htext] at ho
  rcases (isTagWord_of_mem hw).occursFold_append_cons ho with ho | ho
  · exact h (ho.of_append_left q)
  · rw [← htext] at ho
    exact h ((occursFold_of_text_append hw hne ho).of_append_right p)

/-! ## Passes -/

private theorem renderBlocks_cons (keep : BlockKind → Bool) (b : Block) (markup : Text)
    (blocks : List (Block × Text)) :
    renderBlocks keep ((b, markup) :: blocks) =
      (if keep b.kind then b.text else []) ++ (markup ++ renderBlocks keep blocks) := by
  rw [renderBlocks, List.flatMap_cons, List.append_assoc]
  rfl

/-- A pass for one kind of blocks takes out just the blocks of that kind. -/
theorem cut_renderBlocks (kind : BlockKind) (keep : BlockKind → Bool) (hk : keep kind = true)
    (blocks : List (Block × Text)) (p : Text)
    (h : ¬ OccursFold (opening kind.name) (p ++ blocks.flatMap Prod.snd)) :
    (Element.cutter kind.name).cut (p ++ renderBlocks keep blocks) =
      (p ++ renderBlocks (fun k => keep k && k != kind) blocks, elementsOf kind blocks) := by
  induction blocks generalizing p with
  | nil =>
    have hc := Cutter.cut_append (Element.cutter kind.name) []
      fun s (hs : s <:+ p) hne =>
        read?_append_eq_none (isPlainName_name kind) (by simpa using h) hs hne nofun
    simpa [renderBlocks, elementsOf, Cutter.cut_nil] using hc
  | cons block blocks ih =>
    obtain ⟨b, markup⟩ := block
    rw [List.flatMap_cons] at h
    rw [renderBlocks_cons, renderBlocks_cons]
    by_cases hb : b.kind = kind
    · subst hb
      obtain ⟨u, hu, -⟩ := (isTagWord_opening (isPlainName_name b.kind)).exists_cons b.word_eq
      have hread : (Element.cutter b.kind.name).read?
          (b.text ++ (markup ++ renderBlocks keep blocks)) =
          some (b.element, markup ++ renderBlocks keep blocks) :=
        read?_append (isPlainName_name b.kind) b.isNamed _
      have hfront := Cutter.cut_append (Element.cutter b.kind.name)
        (b.text ++ (markup ++ renderBlocks keep blocks)) fun s (hs : s <:+ p) hne =>
          read?_append_eq_none (isPlainName_name b.kind) (fun ho => h (ho.of_append_left _)) hs hne
            (by simp [Block.text, Block.element, Element.text, hu])
      have hnext := ih markup fun ho => h (ho.of_append_right p)
      simp only [hk, ite_true, hfront, Cutter.cut_of_read? hread, hnext, bne_self_eq_false,
        Bool.and_false, Bool.false_eq_true, ite_false, List.nil_append]
      simp [elementsOf]
    · have hne : opening kind.name ≠ opening b.kind.name := by
        revert hb
        cases kind <;> cases b.kind <;> decide
      have hw : opening kind.name ∈ reservedWords := by cases kind <;> decide
      have hkeep : (keep b.kind && b.kind != kind) = keep b.kind := by simp [hb]
      -- The block of the other kind joins the text in front of it.
      have hfree : ¬ OccursFold (opening kind.name)
          ((p ++ (if keep b.kind then b.text else []) ++ markup) ++ blocks.flatMap Prod.snd) := by
        cases keep b.kind with
        | false => simpa using h
        | true => simpa using Block.not_occursFold_append hw hne h
      have hnext := ih _ hfree
      rw [hkeep]
      simp only [List.append_assoc] at hnext ⊢
      rw [hnext]
      simp [elementsOf, hb]

/-- A text in which no doctype opens is kept when doctypes are taken out. -/
theorem cut_doctype_eq_self {text : Text} (h : ¬ OccursFold doctypeOpening text) :
    (Tag.cutter .opening "!doctype").cut text = (text, []) := by
  apply Cutter.cut_eq_self
  rintro s ⟨front, rfl⟩ -
  apply Tag.read?_opening_eq_none
  rw [Bool.eq_false_iff]
  intro hs
  exact h (occursFold_iff.2 ⟨front, s, rfl, hs⟩)

/-- A page without its doctype holds no doctype. -/
theorem not_occursFold_doctype (blocks : List (Block × Text)) (p : Text)
    (h : ¬ OccursFold doctypeOpening (p ++ blocks.flatMap Prod.snd)) :
    ¬ OccursFold doctypeOpening (p ++ renderBlocks (fun _ => true) blocks) := by
  induction blocks generalizing p with
  | nil => exact h
  | cons block blocks ih =>
    obtain ⟨b, markup⟩ := block
    rw [List.flatMap_cons] at h
    rw [renderBlocks_cons, ite_cond_eq_true _ _ (eq_true rfl)]
    have hne : doctypeOpening ≠ opening b.kind.name := by cases b.kind <;> decide
    have hfree := Block.not_occursFold_append (b := b) (by decide) hne h
    have hnext := ih (p ++ b.text ++ markup) (by simpa using hfree)
    simpa using hnext

/-- The first pass takes out the doctype and nothing else. -/
theorem strip_text (a : PageAssembly) :
    Tag.strip .opening "!doctype" a.text = a.front ++ renderBlocks (fun _ => true) a.blocks := by
  have hfree := not_occursFold_doctype a.blocks a.front (a.markup_free _ (by decide))
  generalize hbody : a.front ++ renderBlocks (fun _ => true) a.blocks = body at hfree
  have htext : a.text = a.doctype.elim [] Doctype.text ++ body := by
    rw [PageAssembly.text, List.append_assoc, ← hbody]
    rfl
  have hkept := cut_doctype_eq_self hfree
  rw [htext, Tag.strip, Cutter.remove]
  cases a.doctype with
  | none => exact congrArg Prod.fst hkept
  | some d =>
    have hread : (Tag.cutter .opening "!doctype").read? (d.text ++ body) = some (d.text, body) :=
      Tag.read?_opening_append (by decide) d.word_eq d.rest_plain body
    rw [Option.elim_some, Cutter.cut_of_read? hread, hkept]

/-- Taking a page apart undoes putting it together: the markup is what stands around the doctype
and the blocks, and the contents of the blocks of either kind come out trimmed, in their order
and without blank ones. -/
theorem PageAssembly.ofPage_text (a : PageAssembly) :
    PageParts.ofPage a.text = ⟨a.markup, a.contentsOf .style, a.contentsOf .script⟩ := by
  have hstyle :=
    cut_renderBlocks .style (fun _ => true) rfl a.blocks a.front (a.markup_free _ (by decide))
  have hscript := cut_renderBlocks .script (fun k => true && k != .style) rfl a.blocks a.front
    (a.markup_free _ (by decide))
  have hnone (blocks : List (Block × Text)) :
      renderBlocks (fun k => true && k != .style && k != .script) blocks =
        blocks.flatMap Prod.snd := by
    apply List.flatMap_congr
    rintro ⟨b, markup⟩ -
    cases hk : b.kind <;> simp [hk]
  have hcontents (kind : BlockKind) :
      trimmedBlocks ((elementsOf kind a.blocks).map content) = a.contentsOf kind := by
    have hp : (fun block : Text => !block.isEmpty) = fun block => decide (block ≠ []) := by
      funext block
      cases block <;> simp
    rw [trimmedBlocks, hp, PageAssembly.contentsOf]
    simp only [elementsOf, List.map_map, Function.comp_def, Block.element]
  rw [PageParts.ofPage, strip_text]
  simp only [excise, BlockKind.name] at hstyle hscript ⊢
  rw [hstyle, hscript, hnone, hcontents, hcontents]
  rfl

/-- Two scripts around a style, one of them blank. -/
theorem PageAssembly.ofPage_text_interleaved :
    PageParts.ofPage
        "<!DOCTYPE html><p><script src> </SCRIPT>x<STYLE>p {}\n</Style>y<script>f()</script></p>" =
      ⟨"<p>xy</p>", ["p {}"], ["f()"]⟩ := by
  have h := ofPage_text
    { doctype := some ⟨"<!DOCTYPE", " html", by decide, by decide⟩
      front := "<p>"
      blocks :=
        [(⟨.script, "<script", " src", " ", "</SCRIPT>", by decide, by decide, by decide,
            by decide, by decide⟩, "x"),
         (⟨.style, "<STYLE", "", "p {}\n", "</Style>", by decide, by decide, by decide,
            by decide, by decide⟩, "y"),
         (⟨.script, "<script", "", "f()", "</script>", by decide, by decide, by decide,
            by decide, by decide⟩, "</p>")]
      markup_free := by decide }
  exact h

end VueSfc
