import VueSfc.Component.Conversion
import VueSfc.Proofs.Text.Lines

/-!
# Outcomes told from the text

How a conversion ended can be told from its text alone. A component always has a line feed, and
what stands in for one never has: it is empty or a comment of one line, and no two sorts of faults
share a comment. So nothing in a page or in the reason of a breakdown makes a text pass for that of
another outcome.
-/

namespace VueSfc

open Text Component

/-! ## Components -/

/-- No comment of fixed wording has a line feed. -/
private theorem feed_notMem_comment :
    '\n' ∉ noTemplateComment ∧ '\n' ∉ notMarkupComment := by
  decide +kernel

/-- A text with a line feed is a component. -/
theorem Outcome.ofOutput_of_feed_mem {output : Text} (h : '\n' ∈ output) :
    ofOutput output = .converted := by
  have hne : output.isEmpty = false := by
    cases output with
    | nil => simp at h
    | cons c r => rfl
  have hempty : output ≠ noTemplateComment := fun he => feed_notMem_comment.1 (he ▸ h)
  have hmarkup : output ≠ notMarkupComment := fun he => feed_notMem_comment.2 (he ▸ h)
  rw [ofOutput, hne, if_neg Bool.false_ne_true, if_neg hempty, if_neg hmarkup]
  simp [h]

/-- A component has a line feed behind its first line. -/
theorem feed_mem_component (dialect : Dialect) (page : Page) :
    '\n' ∈ unlines (componentLines dialect page) := by
  have hlines : ∃ first second rest, componentLines dialect page = first :: second :: rest :=
    ⟨_, _, _, rfl⟩
  obtain ⟨first, second, rest, h⟩ := hlines
  rw [h, unlines_cons_of_ne_nil (List.cons_ne_nil _ _)]
  exact List.mem_append_right _ List.mem_cons_self

/-! ## What stands in for a component -/

/-- The comment on a breakdown has no line feed, whatever the reason is. -/
theorem feed_notMem_breakdown (reason : Text) :
    '\n' ∉ (ConversionFault.breakdown reason).placeholder := by
  have hreason : '\n' ∉ reason.map fun c => if c = '\n' then ' ' else c := by
    rw [List.mem_map]
    rintro ⟨c, -, h⟩
    split at h
    · exact absurd h (by decide)
    · contradiction
  have hopening : '\n' ∉ breakdownOpening := by decide +kernel
  have hclosing : '\n' ∉ commentClosing := by decide +kernel
  simp only [ConversionFault.placeholder, List.mem_append, hopening, hreason, hclosing, or_self,
    not_false_eq_true]

/-- No comment of fixed wording begins as the one on a breakdown does. -/
private theorem not_breakdownOpening_prefix :
    ¬ breakdownOpening <+: noTemplateComment ∧ ¬ breakdownOpening <+: notMarkupComment := by
  decide +kernel

/-- The comment on a breakdown tells of one. -/
theorem Outcome.ofOutput_breakdown (reason : Text) :
    ofOutput (ConversionFault.breakdown reason).placeholder = .failed := by
  have hfeed := feed_notMem_breakdown reason
  have hopening : breakdownOpening <+: (ConversionFault.breakdown reason).placeholder := by
    rw [ConversionFault.placeholder, List.append_assoc]
    exact List.prefix_append _ _
  have hclosing : commentClosing <:+ (ConversionFault.breakdown reason).placeholder :=
    List.suffix_append _ _
  have hne : (ConversionFault.breakdown reason).placeholder.isEmpty = false := rfl
  have hempty : (ConversionFault.breakdown reason).placeholder ≠ noTemplateComment :=
    fun he => not_breakdownOpening_prefix.1 (he ▸ hopening)
  have hmarkup : (ConversionFault.breakdown reason).placeholder ≠ notMarkupComment :=
    fun he => not_breakdownOpening_prefix.2 (he ▸ hopening)
  rw [ofOutput, hne, if_neg Bool.false_ne_true, if_neg hempty, if_neg hmarkup]
  simp [endsWith, List.isPrefixOf_iff_prefix.2 hopening, List.isSuffixOf_iff_suffix.2 hclosing,
    hfeed]

/-- What stands in for a component tells of the fault that it stands for. -/
theorem Outcome.ofOutput_placeholder (fault : ConversionFault) :
    ofOutput fault.placeholder = fault.outcome := by
  cases fault with
  | emptyInput => rfl
  | emptyTemplate =>
    change ofOutput noTemplateComment = .emptyTemplate
    decide +kernel
  | notMarkup fault =>
    change ofOutput notMarkupComment = .invalidMarkup
    decide +kernel
  | breakdown reason => exact ofOutput_breakdown reason

/-- The outcome that the text of a conversion tells of is the one that is reported, for every page
and dialect, and what stands in for a component tells of its fault, whatever the reason of a
breakdown says. -/
theorem output_tells_outcome :
    (∀ dialect html,
      Outcome.ofOutput (convert dialect html).output = (convert dialect html).outcome) ∧
    ∀ fault : ConversionFault, Outcome.ofOutput fault.placeholder = fault.outcome := by
  refine ⟨fun dialect html => ?_, Outcome.ofOutput_placeholder⟩
  rw [convert]
  cases readPage html with
  | error fault => exact Outcome.ofOutput_placeholder fault
  | ok page => exact Outcome.ofOutput_of_feed_mem (feed_mem_component dialect page)

end VueSfc
