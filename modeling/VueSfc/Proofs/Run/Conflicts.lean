import VueSfc.Proofs.Run.Targets

/-!
# Inputs with the same component file

A path is claimed by its components, so the claims alone do not see that paths with other
components lead to the same place. The first of several inputs with the same component file is
nevertheless the only one to write it, provided that no write that fits has the place of an
earlier one.
-/

namespace VueSfc

open VueSfc.Path FileTree Write

/-- Two files have components, and the paths of the components lead to the same place. -/
def MapsAlike (t : FileTree) (outDir : Option Text) (f g : ReadFile) : Prop :=
  f.output?.isSome = true ∧ g.output?.isSome = true ∧
    t.destination (f.input.componentPath outDir) = t.destination (g.input.componentPath outDir)

instance (t : FileTree) (outDir : Option Text) (f g : ReadFile) :
    Decidable (MapsAlike t outDir f g) :=
  inferInstanceAs (Decidable (_ ∧ _ ∧ _))

variable {t : FileTree} {outDir : Option Text} {claims : Claims} {files : List ReadFile}
  {x y : Planned}

/-- A planned file that is written fails just when its write does. -/
theorem status_eq_writeFailed_iff (ht : t.IsSound) (hy : y ∈ assignTargets outDir claims files)
    {b : Write} (hb : writeOf? t y = some b) :
    (reportAlone t y).status = .writeFailed ↔ ¬ b.Fits t := by
  obtain ⟨c, target, hc, htarget, rfl⟩ := writeOf?_eq_some_iff.1 hb
  have hends : EndsInFile target := by
    rw [((of_mem_assignTargets hy).2.2 target htarget).1]
    exact endsInFile_componentPath _ _
  rw [reportAlone, htarget, (deliver_path ht hc hends).2, Fits]
  cases ((ofTarget t target c.output).perform t).2 with
  | none => simp [writeReport, endedReport]
  | some fault => simp [writeReport, failedReport]

/-- A planned file with a component that is not written, or whose write does not fit, fails. -/
theorem status_of_not_fits (ht : t.IsSound) (hy : y ∈ assignTargets outDir claims files)
    (ho : y.1.output?.isSome = true) (hn : ∀ b, writeOf? t y = some b → ¬ b.Fits t) :
    (reportAlone t y).status = .writeFailed := by
  cases hw : writeOf? t y with
  | some b => exact (status_eq_writeFailed_iff ht hy hw).2 (hn b hw)
  | none =>
    obtain ⟨file, target⟩ := y
    obtain ⟨output, hout⟩ := Option.isSome_iff_exists.1 ho
    obtain ⟨c, hc, -⟩ := result_of_output? hout
    change file.result = .ok c at hc
    cases target with
    | nothing =>
      rw [(of_mem_assignTargets hy).2.1 rfl] at hout
      contradiction
    | conflict target first => simp [reportAlone, deliver, hc, failedReport]
    | path target => simp [writeOf?, hc] at hw

/-- A file with a component and a path of its own is written there. -/
theorem place_of_writeOf? (hy : y ∈ assignTargets outDir claims files) {b : Write}
    (hb : writeOf? t y = some b) :
    b.place = t.destination (y.1.input.componentPath outDir) := by
  obtain ⟨c, target, -, htarget, rfl⟩ := writeOf?_eq_some_iff.1 hb
  rw [← ((of_mem_assignTargets hy).2.2 target htarget).1]
  rfl

/-- Files that are written to the same place map alike. -/
theorem mapsAlike_of_place_eq (hx : x ∈ assignTargets outDir claims files)
    (hy : y ∈ assignTargets outDir claims files) {a b : Write} (ha : writeOf? t x = some a)
    (hb : writeOf? t y = some b) (he : a.place = b.place) : MapsAlike t outDir x.1 y.1 := by
  have hsome : ∀ {z : Planned} {w : Write}, z ∈ assignTargets outDir claims files →
      writeOf? t z = some w → z.1.output?.isSome = true := by
    intro z w hz hw
    obtain ⟨c, target, -, htarget, -⟩ := writeOf?_eq_some_iff.1 hw
    obtain ⟨-, output, ho⟩ := (of_mem_assignTargets hz).2.2 target htarget
    rw [ho, Option.isSome_some]
  refine ⟨hsome hx ha, hsome hy hb, ?_⟩
  rw [← place_of_writeOf? hx ha, ← place_of_writeOf? hy hb, he]

private theorem writesOf_cons_of_ne_path (h : ∀ target, x.2 ≠ .path target)
    (plan : List Planned) : writesOf t (x :: plan) = writesOf t plan := by
  cases hx : writeOf? t x with
  | none => exact List.filterMap_cons_none hx
  | some b =>
    obtain ⟨c, target, -, htarget, -⟩ := writeOf?_eq_some_iff.1 hx
    exact absurd htarget (h target)

/-- Where no write that fits has the place of a file, the files that map there fail. -/
private theorem status_of_no_write (ht : t.IsSound) {file : ReadFile}
    (hplace : ∀ b ∈ writesOf t (assignTargets outDir claims files), b.Fits t →
      t.destination (file.input.componentPath outDir) ≠ b.place) :
    ∀ y ∈ assignTargets outDir claims files, MapsAlike t outDir file y.1 →
      (reportAlone t y).status = .writeFailed := by
  intro y hy hm
  refine status_of_not_fits ht hy hm.2.1 ?_
  intro b hb hfit
  apply hplace b (List.mem_filterMap.2 ⟨y, hy, hb⟩) hfit
  rw [place_of_writeOf? hy hb]
  exact hm.2.2

/-- Where no write that fits has the place of an earlier claim or write, all files that map to the
same place as an earlier one fail. -/
theorem status_of_mapsAlike (ht : t.IsSound)
    (hclaims : ∀ claim ∈ claims, ∀ b ∈ writesOf t (assignTargets outDir claims files),
      b.Fits t → endOf t.workingDirectory claim.1 ≠ b.place)
    (hwrites : (writesOf t (assignTargets outDir claims files)).Pairwise fun a b =>
      b.Fits t → a.place ≠ b.place) :
    (assignTargets outDir claims files).Pairwise fun x y =>
      MapsAlike t outDir x.1 y.1 → (reportAlone t y).status = .writeFailed := by
  induction files generalizing claims with
  | nil => exact List.Pairwise.nil
  | cons file files ih =>
    -- The file fails all later ones that map alike, and its claim is one more to keep clear of.
    rw [assignTargets] at hclaims hwrites ⊢
    cases ho : file.output? with
    | none =>
      simp only [ho] at hclaims hwrites ⊢
      rw [writesOf_cons_of_ne_path (by simp)] at hclaims hwrites
      refine List.pairwise_cons.2 ⟨?_, ih hclaims hwrites⟩
      intro y _ hm
      have hsome := hm.1
      rw [ho] at hsome
      contradiction
    | some output =>
      simp only [ho] at hclaims hwrites ⊢
      cases hl : claims.lookup (components (file.input.componentPath outDir)) with
      | some first =>
        simp only [hl] at hclaims hwrites ⊢
        rw [writesOf_cons_of_ne_path (by simp)] at hclaims hwrites
        obtain ⟨before, after, hc, -⟩ := List.lookup_eq_some_iff.1 hl
        have hmem : (components (file.input.componentPath outDir), first) ∈ claims := by
          rw [hc]
          exact List.mem_append_right _ List.mem_cons_self
        exact List.pairwise_cons.2 ⟨status_of_no_write ht (hclaims _ hmem), ih hclaims hwrites⟩
      | none =>
        simp only [hl] at hclaims hwrites ⊢
        obtain ⟨c, hc, -⟩ := result_of_output? ho
        have hw : writeOf? t (file, .path (file.input.componentPath outDir)) =
            some (ofTarget t (file.input.componentPath outDir) c.output) :=
          writeOf?_eq_some_iff.2 ⟨c, _, hc, rfl, rfl⟩
        rw [writesOf, List.filterMap_cons_some hw] at hclaims hwrites
        obtain ⟨hfirst, hwrites⟩ := List.pairwise_cons.1 hwrites
        refine List.pairwise_cons.2 ⟨status_of_no_write ht hfirst, ih ?_ hwrites⟩
        intro claim hclaim b hb
        rcases List.mem_cons.1 hclaim with rfl | hclaim
        · exact hfirst b hb
        · exact hclaims claim hclaim b (List.mem_cons_of_mem _ hb)

end VueSfc
