import VueSfc.Run.Target
import VueSfc.Proofs.Path.Names
import VueSfc.Proofs.Text.UpperCase

/-!
# File names of components

The file name of a component is a name whatever path it is made from: a stem loses its slashes,
changing letters to upper case brings none in, and the ending says something.
-/

namespace VueSfc

open Text VueSfc.Path

namespace Component

/-- A name made of the words of a stem has no slash. -/
theorem slash_notMem_nameOfStem (stem : Text) : '/' ∉ nameOfStem stem := by
  intro hm
  obtain ⟨word, hw, hc⟩ := List.mem_flatMap.1 hm
  have hplain : '/' ∉ word := by
    intro h
    have ht := not_test_of_mem_splitOnP hw h
    exact absurd ht (by decide)
  cases word with
  | nil => simp [capitalize] at hc
  | cons c word =>
    rw [List.mem_cons, not_or] at hplain
    rcases List.mem_append.1 hc with hc | hc
    · exact hplain.1 (eq_of_mem_toUpper (by decide) (by decide) (by decide) hc).symm
    · exact hplain.2 hc

end Component

/-- The file name of a component is a name. -/
theorem isName_componentFileName (path : Text) : IsName (componentFileName path) := by
  refine isName_of_mem (c := 'v') (by simp [componentFileName]) (by decide) ?_
  have hname : '/' ∉ Component.nameOfPath path := by
    rw [Component.nameOfPath]
    split
    · decide
    · exact Component.slash_notMem_nameOfStem _
  rw [componentFileName, List.mem_append, not_or]
  exact ⟨hname, by decide⟩

end VueSfc
