import VueSfc.Proofs.Markup.Reading
import VueSfc.Proofs.Page.Pass
import VueSfc.Proofs.Script.Diagnostic
import VueSfc.Proofs.Text.Separator

/-!
# What is taken from a page

Nothing in the parts of a page is made up or moved. The template is left by passes that only take
characters out. The contents of the blocks of either kind follow one another as they do in the page,
and trimming a block or taking the diagnostic calls out of a script only takes more characters out.
So each part is a subsequence of the page. A block ends before the first closing tag behind it, so it
does not hold one.
-/

namespace VueSfc

open Text Markup Script

/-- Taking diagnostic calls out of a script. -/
def Pass.diagnosticFree : Pass := .cutting diagnosticCutter splits_diagnosticCutter

/-- The contents of elements, one after another, are cut out of the text. -/
theorem flatten_contents_sublist (name text : Text) :
    (Element.excise name text).2.flatten.Sublist text := by
  have h {source : Text} {e : Element} {rest : Text}
      (hr : (Element.cutter name).read? source = some (e, rest)) :
      (e.content ++ rest).Sublist source := by
    rw [Element.text_append_of_read? hr]
    refine List.Sublist.append ?_ (List.Sublist.refl rest)
    exact (List.sublist_append_right e.openTag e.content).trans (List.sublist_append_left _ _)
  exact Cutter.flatMap_pieces_sublist h text

/-- Trimmed blocks, one after another, are cut out of their contents. -/
theorem flatten_trimmedBlocks_sublist (contents : List Text) :
    (trimmedBlocks contents).flatten.Sublist contents.flatten :=
  List.filter_sublist.flatten.trans
    (flatMap_sublist_flatten (fun content => (isInfix_trim content).sublist) contents)

/-- The style blocks of a page, one after another, are cut out of it. -/
theorem flatten_styles_sublist (page : Text) :
    (PageParts.ofPage page).styles.flatten.Sublist page :=
  (flatten_trimmedBlocks_sublist _).trans <|
    (flatten_contents_sublist "style" _).trans
      ((Pass.strip .opening "!doctype").run_sublist page)

/-- The script blocks of a page, one after another, are cut out of it. -/
theorem flatten_scripts_sublist (page : Text) :
    (PageParts.ofPage page).scripts.flatten.Sublist page :=
  (flatten_trimmedBlocks_sublist _).trans <|
    (flatten_contents_sublist "script" _).trans (Pass.styleFree.run_sublist page)

/-- No block has a closing tag of the elements that it is taken from. -/
theorem not_occursFold_of_mem_trimmedBlocks {name text block : Text}
    (hn : Element.IsPlainName name) (hb : ∀ c ∈ Element.closing name, isBlank c = false)
    (h : block ∈ trimmedBlocks (Element.excise name text).2) :
    ¬ OccursFold (Element.closing name) block := by
  obtain ⟨hm, -⟩ := List.mem_filter.1 h
  obtain ⟨content, hc, rfl⟩ := List.mem_map.1 hm
  obtain ⟨e, he, rfl⟩ := List.mem_map.1 hc
  obtain ⟨source, rest, hr⟩ := Cutter.exists_read?_of_mem_cut he
  have hne : Element.closing name ≠ [] := List.cons_ne_nil _ _
  rw [occursFold_trim_iff hne hb]
  exact (Element.isNamed_of_read? hn hr).content

/-- A page is read as its parts, and its template is accepted. -/
theorem Page.read_eq_ok_iff {html : Text} {page : Page} :
    Page.read html = .ok page ↔
      Template.check (Template.isolate (PageParts.ofPage html).markup) = .ok () ∧
        page = ⟨Template.isolate (PageParts.ofPage html).markup, (PageParts.ofPage html).styles,
          classifyAll (PageParts.ofPage html).scripts⟩ := by
  unfold Page.read
  dsimp only
  split
  · rename_i hcheck
    simp [hcheck]
  · rename_i hcheck
    simp only [hcheck, true_and, Except.ok.injEq, eq_comm]

/-- Everything that is taken from a page is a subsequence of it: the template, the blocks of either
kind one after another and so each block, and every script block without its diagnostic calls. -/
theorem parts_are_subsequences (page : Text) :
    (Template.isolate (PageParts.ofPage page).markup).Sublist page ∧
      (PageParts.ofPage page).styles.flatten.Sublist page ∧
      (PageParts.ofPage page).scripts.flatten.Sublist page ∧
      (∀ block ∈ (PageParts.ofPage page).styles, block.Sublist page) ∧
      ∀ block ∈ (PageParts.ofPage page).scripts,
        block.Sublist page ∧ (stripDiagnostics block).Sublist page := by
  have hstyles := flatten_styles_sublist page
  have hscripts := flatten_scripts_sublist page
  refine ⟨Pass.template.run_sublist page, hstyles, hscripts, fun block hb => ?_, fun block hb => ?_⟩
  · exact (List.sublist_flatten_of_mem hb).trans hstyles
  · have hblock := (List.sublist_flatten_of_mem hb).trans hscripts
    exact ⟨hblock, (Pass.diagnosticFree.run_sublist block).trans hblock⟩

/-- A page with a style block, a script block and a run of empty lines. -/
def mixedPage : Text :=
  "<!doctype html><style> p {} </style><p>\n\n\n\nx</p><script>console.log(1);f()</script>"

/-- Its parts are subsequences of it. -/
theorem mixedPage_parts_are_subsequences :
    Template.isolate (PageParts.ofPage mixedPage).markup = "<p>\n\nx</p>".toList ∧
      "<p>\n\nx</p>".toList.Sublist mixedPage ∧ "p {}".toList.Sublist mixedPage ∧
      stripDiagnostics "console.log(1);f()" = "f()".toList ∧ "f()".toList.Sublist mixedPage := by
  have htemplate : Template.isolate (PageParts.ofPage mixedPage).markup = "<p>\n\nx</p>".toList := by
    decide +kernel
  have hstyle : "p {}".toList ∈ (PageParts.ofPage mixedPage).styles := by decide +kernel
  have hscript : "console.log(1);f()".toList ∈ (PageParts.ofPage mixedPage).scripts := by
    decide +kernel
  have hcalls : stripDiagnostics "console.log(1);f()" = "f()".toList := by decide +kernel
  obtain ⟨ht, -, -, hs, hc⟩ := parts_are_subsequences mixedPage
  exact ⟨htemplate, htemplate ▸ ht, hs _ hstyle, hcalls, hcalls ▸ (hc _ hscript).2⟩

end VueSfc
