import VueSfc.Proofs.Run.Conflicts

/-!
# Runs in which no component is lost

A run is settled if its writes can be carried out in any order, every path that is reported holds
the component of its input, and of the inputs with the same component file only the first one
writes it. Whether it is can be read off the tree before the run: the writes have to be
compatible, pair by pair.
-/

namespace VueSfc

open VueSfc.Path FileTree Write

/-- Of two writes, the one that is planned later does not replace the file of the other one, and
neither changes what becomes of the other one. -/
structure Write.Compatible (t : FileTree) (a b : Write) : Prop where
  /-- The second does not put a file at the place of the first. -/
  apart : b.Fits t → a.place ≠ b.place
  /-- The first does not block the second. -/
  not_blocks : ¬ a.Blocks t b
  /-- The second does not block the first. -/
  not_blocked : ¬ b.Blocks t a
  /-- The first is not misled. -/
  not_misled : ¬ a.IsMisled t
  /-- The second is not misled. -/
  not_misled' : ¬ b.IsMisled t

instance (t : FileTree) (a b : Write) : Decidable (a.Compatible t b) :=
  decidable_of_iff ((b.Fits t → a.place ≠ b.place) ∧ ¬ a.Blocks t b ∧ ¬ b.Blocks t a ∧
      ¬ a.IsMisled t ∧ ¬ b.IsMisled t)
    ⟨fun h => ⟨h.1, h.2.1, h.2.2.1, h.2.2.2.1, h.2.2.2.2⟩, fun h =>
      ⟨h.apart, h.not_blocks, h.not_blocked, h.not_misled, h.not_misled'⟩⟩

/-- Compatible writes are independent. -/
theorem Write.Compatible.independent {t : FileTree} {a b : Write} (h : a.Compatible t b) :
    a.Independent t b :=
  ⟨fun _ hb => h.apart hb, h.not_blocks, h.not_blocked, h.not_misled, h.not_misled'⟩

/-- No component of a plan is lost or overwritten, whatever the order of the writes. -/
structure IsSettled (t : FileTree) (outDir : Option Text) (plan : List Planned) : Prop where
  /-- In any order, every file gets the same report, and the same tree is left. -/
  order_free : ∃ (report : Planned → FileReport) (final : FileTree), ∀ plan', plan'.Perm plan →
    (deliverAll t plan').reports = plan'.map report ∧ (deliverAll t plan').tree = final
  /-- Every path that is reported holds the component of the file that reports it. -/
  holds : ∀ x ∈ plan.zip (deliverAll t plan).reports, ∀ path, x.2.output = some path →
    ∃ output, x.1.1.output? = some output ∧
      (deliverAll t plan).tree.entryOf path = .ok (.file (encodeText (deliveredText output)))
  /-- Files that map to the same place as an earlier one fail. -/
  first_only : (plan.zip (deliverAll t plan).reports).Pairwise fun x y =>
    MapsAlike t outDir x.1.1 y.1.1 → y.2.status = .writeFailed

variable {t u : FileTree} {plan : List Planned} {x y : Planned} {a b : Write}

private theorem zip_map_self (plan : List Planned) (report : Planned → FileReport) :
    plan.zip (plan.map report) = plan.map fun x => (x, report x) := by
  induction plan with
  | nil => rfl
  | cons x plan ih => rw [List.map_cons, List.zip_cons_cons, ih, List.map_cons]

/-- What is written for a planned file is placed. -/
theorem isPlaced_of_writeOf? (hplan : HasFileTargets plan) (hx : x ∈ plan)
    (ha : writeOf? t x = some a) : a.IsPlaced t := by
  obtain ⟨c, target, -, htarget, rfl⟩ := writeOf?_eq_some_iff.1 ha
  exact isPlaced_ofTarget (hplan x hx target htarget) c.output

/-! ## Compatible writes -/

/-- A file that reports a path alone is written there. -/
theorem written_of_output {path : Text} (h : (reportAlone t x).output = some path) :
    x.2 = .path path ∧ ∃ c, x.1.result = .ok c ∧ (writeComponent t path c.output).2 = none := by
  obtain ⟨⟨input, result⟩, target⟩ := x
  cases result with
  | error fault => simp [reportAlone, deliver, failedReport] at h
  | ok c =>
    cases target with
    | nothing => simp [reportAlone, deliver, endedReport] at h
    | conflict target first => simp [reportAlone, deliver, failedReport] at h
    | path target =>
      simp only [reportAlone, deliver] at h
      cases hw : writeComponent t target c.output with
      | mk u fault =>
        cases fault with
        | some fault => simp [hw, failedReport] at h
        | none =>
          simp only [hw, endedReport, Option.some.injEq] at h
          rw [← h]
          exact ⟨rfl, c, rfl, by rw [hw]⟩

/-- Where no write blocks another one, a path that is reported holds the component. -/
theorem entryOf_of_output (ht : t.IsSound) (hl : Laid t (writesOf t plan).reverse u)
    (hplan : HasFileTargets plan)
    (hb : ∀ a ∈ writesOf t plan, ∀ b ∈ writesOf t plan, ¬ a.Blocks t b) (hx : x ∈ plan)
    {path : Text} (h : (reportAlone t x).output = some path) :
    ∃ c, x.1.result = .ok c ∧
      u.entryOf path = .ok (.file (encodeText (deliveredText c.output))) := by
  obtain ⟨htarget, c, hc, hfault⟩ := written_of_output h
  have hends := hplan x hx path htarget
  rw [writeComponent_eq ht hends] at hfault
  have hmem : ofTarget t path c.output ∈ writesOf t plan :=
    List.mem_filterMap.2 ⟨x, hx, writeOf?_eq_some_iff.2 ⟨c, path, hc, htarget, rfl⟩⟩
  have hway : u.way path = t.way path := by rw [FileTree.way, FileTree.way, hl.working]
  have hdest : u.destination path = t.destination path := by
    rw [destination, destination, hl.working]
  have hdirs : ∀ p ∈ u.way path, u.entryAt? p = some .directory := by
    intro p hp
    rw [hway] at hp
    exact hl.entryAt?_way (List.mem_reverse.2 hmem) hfault
      (fun a ha => hb a (List.mem_reverse.1 ha) _ hmem) hp
  have hplace := placeOf_eq_destination hl.sound hends hdirs
  refine ⟨c, hc, ?_⟩
  rw [entryOf, hplace, hdest]
  simp only
  rw [show u.entryAt? (t.destination path) = _ from
    hl.written _ (List.mem_reverse.2 hmem) hfault]
  rfl

/-- A run with compatible writes is settled. -/
theorem isSettled_of_compatible (ht : t.IsSound) {s : RunSettings} {paths : List Text}
    (h : (writesOf t (planOf t s paths)).Pairwise (Compatible t)) :
    IsSettled t s.outDir (planOf t s paths) := by
  have hplan := hasFileTargets_planOf t s paths
  have hind := h.imp Compatible.independent
  obtain ⟨hreports, hlaid⟩ := deliverAll_of_laid ht (laid_nil ht) hplan hind (by simp)
  rw [List.append_nil] at hlaid
  have hblocks : ∀ a ∈ writesOf t (planOf t s paths), ∀ b ∈ writesOf t (planOf t s paths),
      ¬ a.Blocks t b :=
    List.Pairwise.forall_of_forall_of_flip (fun a _ => not_blocks_self a t)
      (h.imp Compatible.not_blocks) (h.imp Compatible.not_blocked)
  refine ⟨⟨reportAlone t, _, fun plan' hperm => deliverAll_perm ht hplan hind hperm⟩, ?_, ?_⟩
  · rw [hreports, zip_map_self]
    intro z hz path hpath
    obtain ⟨x, hx, rfl⟩ := List.mem_map.1 hz
    obtain ⟨c, hc, hentry⟩ := entryOf_of_output ht hlaid hplan hblocks hx hpath
    obtain ⟨-, -, htarget⟩ := of_mem_assignTargets hx
    obtain ⟨output, ho⟩ := (htarget path (written_of_output hpath).1).2
    obtain ⟨c', hc', rfl⟩ := result_of_output? ho
    rw [hc, Except.ok.injEq] at hc'
    rw [← hc'] at ho
    exact ⟨_, ho, hentry⟩
  · rw [hreports, zip_map_self, List.pairwise_map]
    exact status_of_mapsAlike ht (by simp) (h.imp fun hab => hab.apart)

/-! ## Writes of a settled run -/

/-- If two writes begin a run in either order and the reports do not depend on it, then the second
write ends after the first as it does alone. -/
theorem perform_fault_of_reports (ht : t.IsSound) (hplan : HasFileTargets plan)
    {report : Planned → FileReport}
    (hr : ∀ plan', plan'.Perm plan → (deliverAll t plan').reports = plan'.map report)
    {rest : List Planned} (hp : plan.Perm (x :: y :: rest)) (ha : writeOf? t x = some a)
    (hb : writeOf? t y = some b) :
    report y = reportAlone t y ∧ (b.perform (a.perform t).1).2 = (b.perform t).2 := by
  have hx : x ∈ plan := hp.mem_iff.2 List.mem_cons_self
  have hy : y ∈ plan := hp.mem_iff.2 (List.mem_cons_of_mem _ List.mem_cons_self)
  have hsound := (isPlaced_of_writeOf? hplan hx ha).isSound_perform ht
  have hworking := workingDirectory_perform a t
  have hafter := hr (x :: y :: rest) hp.symm
  have hfirst := hr (y :: x :: rest) ((List.Perm.swap x y rest).trans hp.symm)
  simp only [deliverAll, List.map_cons, List.cons.injEq] at hafter hfirst
  obtain ⟨ca, targetA, hca, htargetA, rfl⟩ := writeOf?_eq_some_iff.1 ha
  obtain ⟨cb, targetB, hcb, htargetB, rfl⟩ := writeOf?_eq_some_iff.1 hb
  have hendsB := hplan y hy targetB htargetB
  have hla := hafter.2.1
  have hlb := hfirst.1
  rw [htargetA, (deliver_path ht hca (hplan x hx targetA htargetA)).1, htargetB,
    (deliver_path hsound hcb hendsB).2, ofTarget_congr hworking] at hla
  refine ⟨hlb.symm, ?_⟩
  rw [htargetB, (deliver_path ht hcb hendsB).2, ← hla] at hlb
  exact (eq_of_writeReport_eq hlb).symm

/-- The writes of a settled run are compatible. -/
theorem IsSettled.compatible (ht : t.IsSound) (hn : t.HasNames) {s : RunSettings}
    {paths : List Text} (h : IsSettled t s.outDir (planOf t s paths)) :
    (writesOf t (planOf t s paths)).Pairwise (Compatible t) := by
  obtain ⟨report, final, hall⟩ := h.order_free
  have hplan := hasFileTargets_planOf t s paths
  have hr := fun plan' hp => (hall plan' hp).1
  have hlater := h.first_only
  rw [hr _ (List.Perm.refl _), zip_map_self, List.pairwise_map] at hlater
  rw [writesOf, List.pairwise_filterMap, List.pairwise_iff_forall_sublist]
  intro x y hsub a ha b hb
  obtain ⟨rest, hperm⟩ := hsub.exists_perm_append
  have hx : x ∈ planOf t s paths := hsub.subset List.mem_cons_self
  have hy : y ∈ planOf t s paths := hsub.subset (List.mem_cons_of_mem _ List.mem_cons_self)
  have hplaceA := (isPlaced_of_writeOf? hplan hx ha).ne_nil
  have hplaceB := (isPlaced_of_writeOf? hplan hy hb).ne_nil
  obtain ⟨halone, hab⟩ := perform_fault_of_reports ht hplan hr hperm ha hb
  obtain ⟨-, hba⟩ :=
    perform_fault_of_reports ht hplan hr (hperm.trans (List.Perm.swap y x rest)) hb ha
  refine ⟨?_, not_blocks_of_perform hplaceB hba, not_blocks_of_perform hplaceA hab, ?_, ?_⟩
  · intro hfit he
    have hfailed := List.pairwise_iff_forall_sublist.1 hlater hsub
      (mapsAlike_of_place_eq hx hy ha hb he)
    rw [halone] at hfailed
    exact (status_eq_writeFailed_iff ht hy hb).1 hfailed hfit
  · intro hm
    exact not_misled_of_perform hplaceB
      (fun p hp hne => missing_mem_reach ht hn hy hx hb ha hm hp hne) hba hm
  · intro hm
    exact not_misled_of_perform hplaceA
      (fun p hp hne => missing_mem_reach ht hn hx hy ha hb hm hp hne) hab hm

/-! ## When a run is settled -/

/-- A run is settled just when its writes are compatible in the tree before it: no write that fits
has the place of an earlier one, no write that fits puts its file where another one needs a
directory that is missing, and, if there are several writes, none is misled. -/
theorem isSettled_iff (ht : t.IsSound) (hn : t.HasNames) (s : RunSettings) (paths : List Text) :
    IsSettled t s.outDir (planOf t s paths) ↔
      (writesOf t (planOf t s paths)).Pairwise (Compatible t) :=
  ⟨fun h => h.compatible ht hn, fun h => isSettled_of_compatible ht h⟩

/-- Pages in a directory and below it. -/
def pagesTree : FileTree :=
  let page : Text := "<p>a</p>"
  ((((FileTree.empty []).set ["page.html"] (.file (encodeText page))).set ["page.htm"]
    (.file (encodeText page))).set ["blog"] .directory).set ["blog", "page.html"]
      (.file (encodeText page))

/-- Settings of a run over pages. -/
def pagesSettings (outDir : Option Text) : RunSettings :=
  ⟨.composition, outDir, [".html"], [], none⟩

/-- Converting a directory and a page into a missing directory is settled. -/
theorem pagesTree_isSettled :
    pagesTree.IsSound ∧ pagesTree.HasNames ∧
      IsSettled pagesTree (some "out") (planOf pagesTree (pagesSettings (some "out"))
        [".", "page.htm"]) := by
  have ht : pagesTree.IsSound := ⟨by decide, by decide⟩
  have hn : pagesTree.HasNames := by decide
  exact ⟨ht, hn, (isSettled_iff ht hn (pagesSettings (some "out")) [".", "page.htm"]).2
    (by decide +kernel)⟩

/-- Pages whose components are spelled differently are both written, to the same file. -/
theorem pagesTree_not_isSettled :
    ¬ IsSettled pagesTree none (planOf pagesTree (pagesSettings none)
      ["page.html", "./page.htm"]) :=
  fun h => absurd h.first_only (by decide +kernel)

end VueSfc
