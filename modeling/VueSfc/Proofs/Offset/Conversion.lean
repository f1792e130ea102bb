import VueSfc.Offset.Conversion
import VueSfc.Proofs.Offset.Page
import VueSfc.Proofs.Offset.Script
import VueSfc.Proofs.Page.Extraction

/-!
# Conversions that do not break down

No page leads to a breach when it is converted by steps on byte offsets, as long as no script line
that is read has 2³² bytes or more. So the guard has nothing to do, and the conversion is the one by
characters.
-/

namespace VueSfc.Offset

open Text Markup Script Component

/-- Converting a page keeps to the rules. -/
theorem render_eq {html : Text}
    (hs : ∀ script ∈ (PageParts.ofPage html).scripts, HasShortLines script) (dialect : Dialect) :
    render dialect html = .ok ((readPage html).map fun page =>
      (unlines (componentLines dialect page), .ofPage page)) := by
  unfold render readPage
  split
  · rfl
  · rw [pageParts_eq, ok_bind, isolateTemplate_eq, ok_bind, checkTemplate_eq, ok_bind, Page.read]
    dsimp only
    cases Template.check (Template.isolate (PageParts.ofPage html).markup) with
    | error fault => rfl
    | ok =>
      dsimp only
      rw [classifyScripts_eq hs]
      rfl

/-- Reading a page never breaks down. -/
theorem readPage_ne_breakdown (html reason : Text) :
    readPage html ≠ .error (.breakdown reason) := by
  unfold readPage
  split
  · nofun
  · cases Page.read html with
    | error fault => cases fault <;> nofun
    | ok page => nofun

/-- A guarded conversion that keeps to the rules reports what the conversion by characters does. -/
theorem guardedConvert_eq {describe : Breach → Text} {dialect : Dialect} {html : Text}
    (h : render dialect html = .ok ((readPage html).map fun page =>
      (unlines (componentLines dialect page), .ofPage page))) :
    guardedConvert describe dialect html = convert dialect html := by
  rw [guardedConvert, convert, h]
  cases readPage html <;> rfl

/-- Only a breakdown is reported as a failure. -/
theorem outcome_eq_failed_iff {fault : ConversionFault} :
    fault.outcome = .failed ↔ ∃ reason, fault = .breakdown reason := by
  cases fault <;> simp [ConversionFault.outcome]

/-- No page is reported as one whose conversion failed. -/
theorem outcome_convert_ne_failed (dialect : Dialect) (html : Text) :
    (convert dialect html).outcome ≠ .failed := by
  unfold convert
  cases hr : readPage html with
  | ok page => nofun
  | error fault =>
    intro hf
    obtain ⟨reason, rfl⟩ := outcome_eq_failed_iff.1 hf
    exact readPage_ne_breakdown html reason hr

/-! ## Short pages -/

/-- The scripts of a page of fewer than 2³² bytes have short lines. -/
theorem hasShortLines_of_byteSize_lt {html : Text} (h : byteSize html < UInt32.size) :
    ∀ script ∈ (PageParts.ofPage html).scripts, HasShortLines script := by
  intro script hs line hl
  have hscript : script.Sublist html :=
    (List.sublist_flatten_of_mem hs).trans (flatten_scripts_sublist html)
  have hline : line.Sublist script :=
    (isInfix_of_mem_analysedLines hl).sublist.trans (Pass.diagnosticFree.run_sublist script)
  exact (byteSize_le_of_sublist (hline.trans hscript)).trans_lt h

/-! ## No breakdown -/

/-- Converting a page whose scripts are read in lines of fewer than 2³² bytes takes no range that
starts behind its end, reaches past the text or cuts a character, and takes no size from a smaller
one. So the guard never breaks it down, whatever a breach would be described as, no failure is
reported, and what is reported is what the conversion by characters reports. -/
theorem conversion_cannot_break_down (describe : Breach → Text) (dialect : Dialect) (html : Text)
    (hs : ∀ script ∈ (PageParts.ofPage html).scripts, HasShortLines script) :
    (∃ rendered, render dialect html = .ok rendered) ∧
      (∀ reason, guarded describe (render dialect html) ≠ .error (.breakdown reason)) ∧
      (guardedConvert describe dialect html).outcome ≠ .failed ∧
      guardedConvert describe dialect html = convert dialect html := by
  have hrender := render_eq hs dialect
  have hconvert : guardedConvert describe dialect html = convert dialect html :=
    guardedConvert_eq hrender
  refine ⟨⟨_, hrender⟩, fun reason hb => ?_, ?_, hconvert⟩
  · rw [hrender, guarded] at hb
    cases hr : readPage html with
    | ok page =>
      rw [hr] at hb
      contradiction
    | error fault =>
      rw [hr] at hb
      obtain rfl : fault = .breakdown reason := Except.error.inj hb
      exact readPage_ne_breakdown html reason hr
  · rw [hconvert]
    exact outcome_convert_ne_failed dialect html

/-- A page with characters of two, three and four bytes around everything that is cut. -/
def accentedPage : Text :=
  "<!doctype é><style>\u3000ü {}\u3000</style><p>ä\n\u3000\n\n€</p><script>" ++
    "\u3000let n = \"ß\";\u3000console.log(\"𝄞\");\nconst f = (é) => 𝄞;\u3000</script>𝄞"

/-- Converting it keeps to the rules, and a component is reported. -/
theorem accentedPage_isConverted :
    (∀ script ∈ (PageParts.ofPage accentedPage).scripts, HasShortLines script) ∧
      (∃ rendered, render .options accentedPage = .ok rendered) ∧
      (guardedConvert (fun _ => "out of bounds") .options accentedPage).outcome = .converted ∧
      (guardedConvert (fun _ => "out of bounds") .options accentedPage).counts =
        some ⟨1, 1, 1⟩ := by
  have hs : ∀ script ∈ (PageParts.ofPage accentedPage).scripts, HasShortLines script :=
    hasShortLines_of_byteSize_lt (by decide +kernel)
  obtain ⟨hrender, -, -, hconvert⟩ :=
    conversion_cannot_break_down (fun _ => "out of bounds") .options accentedPage hs
  have hpage : (convert .options accentedPage).outcome = .converted ∧
      (convert .options accentedPage).counts = some ⟨1, 1, 1⟩ := by
    decide +kernel
  rw [hconvert]
  exact ⟨hs, hrender, hpage⟩

end VueSfc.Offset
