import VueSfc.Page
import VueSfc.Proofs.Markup.LetterCase

/-!
# Pages up to letter case

Two pages that agree up to the case of ASCII letters are taken apart alike: their markup agrees,
they have as many blocks of either kind, and the blocks agree one by one. Their templates agree and
are accepted together or turned down for the same reason. The scripts are read with regard to case,
so nothing is said of their statements.
-/

namespace VueSfc

open Text Markup

/-! ## Pages in lower case -/

/-- The blocks of a page in lower case are those of the page. -/
theorem trimmedBlocks_lowerAscii (contents : List Text) :
    trimmedBlocks (contents.map lowerAscii) = (trimmedBlocks contents).map lowerAscii := by
  have htrim : trim ∘ lowerAscii = lowerAscii ∘ trim := funext trim_lowerAscii
  have hempty : (fun block : Text => !block.isEmpty) ∘ lowerAscii = fun block => !block.isEmpty :=
    funext fun _ => congrArg Bool.not List.isEmpty_map
  rw [trimmedBlocks, trimmedBlocks, List.map_map, htrim, ← List.map_map, List.filter_map, hempty]

/-- The parts of a page in lower case. -/
def PageParts.lower (parts : PageParts) : PageParts :=
  ⟨lowerAscii parts.markup, parts.styles.map lowerAscii, parts.scripts.map lowerAscii⟩

/-- A page in lower case is taken apart where the page is. -/
theorem PageParts.ofPage_lowerAscii (page : Text) :
    ofPage (lowerAscii page) = (ofPage page).lower := by
  simp only [ofPage, lower, Tag.strip_lowerAscii, Element.excise_lowerAscii, Prod.map_fst,
    Prod.map_snd, trimmedBlocks_lowerAscii]

/-! ## Agreement -/

/-- As many blocks, which agree one by one. -/
def BlocksAgree (blocks others : List Text) : Prop :=
  List.Forall₂ (fun block other => eqFold block other = true) blocks others

/-- Pages taken apart into parts that agree. -/
structure PageParts.Agree (parts others : PageParts) : Prop where
  /-- The markup agrees. -/
  markup : eqFold parts.markup others.markup = true
  /-- There are as many style blocks, which agree. -/
  styles : BlocksAgree parts.styles others.styles
  /-- There are as many script blocks, which agree. -/
  scripts : BlocksAgree parts.scripts others.scripts

/-- Pages read alike: turned down for the same reason, or both accepted, with templates and style
blocks that agree. -/
def ReadAlike : Except TemplateFault Page → Except TemplateFault Page → Prop
  | .error fault, .error other => fault = other
  | .ok page, .ok other =>
    eqFold page.template other.template = true ∧ BlocksAgree page.styles other.styles
  | _, _ => False

/-- Blocks that are the same in lower case agree. -/
theorem blocksAgree_of_map_eq {blocks others : List Text}
    (h : blocks.map lowerAscii = others.map lowerAscii) : BlocksAgree blocks others := by
  have hf : List.Forall₂ (· = ·) (blocks.map lowerAscii) (others.map lowerAscii) := by
    rw [List.forall₂_eq_eq_eq]
    exact h
  rw [List.forall₂_map_left_iff, List.forall₂_map_right_iff] at hf
  exact hf.imp fun _ _ => eqFold_iff.2

section

variable {page other : Text} (h : eqFold page other = true)

include h

/-- Pages that agree are taken apart into parts that agree. -/
theorem agree_ofPage : (PageParts.ofPage page).Agree (PageParts.ofPage other) := by
  have hlower : (PageParts.ofPage page).lower = (PageParts.ofPage other).lower := by
    rw [← PageParts.ofPage_lowerAscii, ← PageParts.ofPage_lowerAscii, eqFold_iff.1 h]
  obtain ⟨hmarkup, hstyles, hscripts⟩ := PageParts.mk.inj hlower
  exact ⟨eqFold_iff.2 hmarkup, blocksAgree_of_map_eq hstyles, blocksAgree_of_map_eq hscripts⟩

/-- Markup that agrees has templates that agree. -/
theorem eqFold_isolate : eqFold (Template.isolate page) (Template.isolate other) = true := by
  rw [eqFold_iff, ← Template.isolate_lowerAscii, ← Template.isolate_lowerAscii, eqFold_iff.1 h]

/-- Templates that agree are accepted together, or turned down for the same reason. -/
theorem check_eq_of_eqFold : Template.check page = Template.check other := by
  rw [← Template.check_lowerAscii page, ← Template.check_lowerAscii other, eqFold_iff.1 h]

/-- Pages that agree are read alike. -/
theorem readAlike_of_eqFold : ReadAlike (Page.read page) (Page.read other) := by
  have hparts := agree_ofPage h
  have htemplate := eqFold_isolate hparts.markup
  rw [Page.read, Page.read, check_eq_of_eqFold htemplate]
  cases Template.check (Template.isolate (PageParts.ofPage other).markup) with
  | error fault => exact rfl
  | ok accepted => exact ⟨htemplate, hparts.styles⟩

end

/-- Nothing that is done to a page up to the acceptance of its template depends on letter case. -/
theorem page_ignores_letterCase {page other : Text} (h : eqFold page other = true) :
    (PageParts.ofPage page).Agree (PageParts.ofPage other) ∧
      eqFold (Template.isolate page) (Template.isolate other) = true ∧
      Template.check page = Template.check other ∧
      ReadAlike (Page.read page) (Page.read other) :=
  ⟨agree_ofPage h, eqFold_isolate h, check_eq_of_eqFold h, readAlike_of_eqFold h⟩

/-- A page that begins as source code does, with names in mixed case. -/
def mixedCasePage : Text :=
  "<!DocType html><BODY>LeT me<sTyLe> P {} </STYLE>\n\n\n<Br><ScripT>F()</sCRIPT></Body>"

/-- The same page in lower case is turned down for the same keyword. -/
theorem mixedCasePage_ignores_letterCase :
    eqFold mixedCasePage (lowerAscii mixedCasePage) = true ∧
      (PageParts.ofPage mixedCasePage).styles = ["P {}".toList] ∧
      BlocksAgree ["P {}".toList] (PageParts.ofPage (lowerAscii mixedCasePage)).styles ∧
      Page.read mixedCasePage = .error (.notMarkup (.startsLikeCode "let")) ∧
      ReadAlike (.error (.notMarkup (.startsLikeCode "let")))
        (Page.read (lowerAscii mixedCasePage)) := by
  have hsame : eqFold mixedCasePage (lowerAscii mixedCasePage) = true := by decide +kernel
  have hstyles : (PageParts.ofPage mixedCasePage).styles = ["P {}".toList] := by decide +kernel
  have hread : Page.read mixedCasePage = .error (.notMarkup (.startsLikeCode "let")) := by
    decide +kernel
  obtain ⟨hparts, -, -, halike⟩ := page_ignores_letterCase hsame
  exact ⟨hsame, hstyles, hstyles ▸ hparts.styles, hread, hread ▸ halike⟩

end VueSfc
