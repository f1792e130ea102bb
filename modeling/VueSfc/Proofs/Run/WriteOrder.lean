import VueSfc.Proofs.Run.Independence

/-!
# The order of the planned writes

A plan of pairwise independent writes can be carried out in any order: every file gets the report
that it would get alone, the final tree is the same, and a path that is reported holds the
component of the file that reports it.
-/

namespace VueSfc

open VueSfc.Path FileTree Write

/-- A planned file with its target. -/
abbrev Planned := ReadFile × Target

/-- The write of a planned file, if it has a path of its own. -/
def writeOf? (t : FileTree) (x : Planned) : Option Write :=
  match x.1.result, x.2 with
  | .ok c, .path target => some (ofTarget t target c.output)
  | _, _ => none

/-- The writes of a plan, in its order. -/
def writesOf (t : FileTree) (plan : List Planned) : List Write := plan.filterMap (writeOf? t)

/-- Every path that a plan gives away ends in the name of a file. -/
def HasFileTargets (plan : List Planned) : Prop :=
  ∀ x ∈ plan, ∀ target, x.2 = .path target → EndsInFile target

/-- The report on a planned file when nothing else is written. -/
def reportAlone (t : FileTree) (x : Planned) : FileReport := (deliver t x.1 x.2).report

variable {t u : FileTree} {x : Planned} {w : Write} {plan : List Planned}

/-- A planned file is written where it was converted and has a path of its own. -/
theorem writeOf?_eq_some_iff :
    writeOf? t x = some w ↔
      ∃ c target, x.1.result = .ok c ∧ x.2 = .path target ∧ ofTarget t target c.output = w := by
  obtain ⟨⟨input, result⟩, target⟩ := x
  cases result with
  | error fault => simp [writeOf?]
  | ok c => cases target <;> simp [writeOf?]

/-- A planned file without a write changes nothing, and its report does not look at the tree. -/
theorem deliver_of_writeOf?_eq_none (h : writeOf? t x = none) (u : FileTree) :
    (deliver u x.1 x.2).tree = u ∧ (deliver u x.1 x.2).report = reportAlone t x := by
  obtain ⟨⟨input, result⟩, target⟩ := x
  cases result with
  | error fault => exact ⟨rfl, rfl⟩
  | ok c =>
    cases target with
    | nothing => exact ⟨rfl, rfl⟩
    | conflict target first => exact ⟨rfl, rfl⟩
    | path target => simp [writeOf?] at h

/-- The report on a file that is written. -/
def writeReport (input target : Text) (c : Conversion) : Option FileFault → FileReport
  | none => endedReport input (some target) c
  | some fault => failedReport input .writeFailed fault.message

/-- Faults are told apart by their wording. -/
theorem FileFault.eq_of_message_eq {f g : FileFault} (h : f.message = g.message) : f = g := by
  cases f <;> cases g <;> first | rfl | exact absurd h (by decide)

/-- The report on a file that is written tells how the write ended. -/
theorem eq_of_writeReport_eq {input target : Text} {c : Conversion} {f g : Option FileFault}
    (h : writeReport input target c f = writeReport input target c g) : f = g := by
  cases f with
  | none =>
    cases g with
    | none => rfl
    | some g => simp [writeReport, endedReport, failedReport] at h
  | some f =>
    cases g with
    | none => simp [writeReport, endedReport, failedReport] at h
    | some g =>
      have hm : f.message = g.message := by
        simpa [writeReport, failedReport] using congrArg FileReport.message h
      rw [FileFault.eq_of_message_eq hm]

/-- Delivering a file that is written is its write, and the report tells how that ended. -/
theorem deliver_path (hu : u.IsSound) {file : ReadFile} {c : Conversion} {target : Text}
    (hr : file.result = .ok c) (he : EndsInFile target) :
    (deliver u file (.path target)).tree = ((ofTarget u target c.output).perform u).1 ∧
      (deliver u file (.path target)).report =
        writeReport file.input.path target c ((ofTarget u target c.output).perform u).2 := by
  simp only [deliver, hr]
  rw [writeComponent_eq hu he]
  cases (ofTarget u target c.output).perform u with
  | mk u' fault => cases fault <;> exact ⟨rfl, rfl⟩

/-- Where a write leads depends on the working directory only. -/
theorem ofTarget_congr (h : u.workingDirectory = t.workingDirectory) (target output : Text) :
    ofTarget u target output = ofTarget t target output := by
  rw [ofTarget, ofTarget, FileTree.way, FileTree.way, destination, destination, h]

/-- Carrying out a plan of independent writes after others that are independent of them. -/
theorem deliverAll_of_laid (ht : t.IsSound) {done : List Write} (h : Laid t done u)
    (hplan : HasFileTargets plan) (hp : (writesOf t plan).Pairwise (Independent t))
    (hi : ∀ w ∈ writesOf t plan, ∀ a ∈ done, a.Independent t w) :
    (deliverAll u plan).reports = plan.map (reportAlone t) ∧
      Laid t ((writesOf t plan).reverse ++ done) (deliverAll u plan).tree := by
  induction plan generalizing u done with
  | nil => exact ⟨rfl, h⟩
  | cons x plan ih =>
    have hrest : HasFileTargets plan := fun y hy => hplan y (List.mem_cons_of_mem _ hy)
    rw [deliverAll]
    cases hx : writeOf? t x with
    | none =>
      obtain ⟨htree, hreport⟩ := deliver_of_writeOf?_eq_none hx u
      have hw : writesOf t (x :: plan) = writesOf t plan := List.filterMap_cons_none hx
      rw [hw] at hp hi ⊢
      obtain ⟨hr, hl⟩ := ih h hrest hp hi
      simp only
      rw [htree, hreport, hr]
      exact ⟨rfl, hl⟩
    | some w =>
      obtain ⟨c, target, hc, htarget, rfl⟩ := writeOf?_eq_some_iff.1 hx
      have hw : writesOf t (x :: plan) = ofTarget t target c.output :: writesOf t plan :=
        List.filterMap_cons_some hx
      rw [hw] at hp hi ⊢
      have hends := hplan x List.mem_cons_self target htarget
      obtain ⟨hfault, hlaid⟩ :=
        h.perform (isPlaced_ofTarget hends c.output) (hi _ List.mem_cons_self)
      obtain ⟨htree, hreport⟩ := deliver_path h.sound hc hends
      rw [ofTarget_congr h.working] at htree hreport
      have halone : reportAlone t x =
          writeReport x.1.input.path target c ((ofTarget t target c.output).perform t).2 := by
        rw [reportAlone, htarget]
        exact (deliver_path ht hc hends).2
      obtain ⟨hfirst, hp⟩ := List.pairwise_cons.1 hp
      have hnext : ∀ b ∈ writesOf t plan, ∀ a ∈ ofTarget t target c.output :: done,
          a.Independent t b := by
        intro b hb a ha
        rcases List.mem_cons.1 ha with rfl | ha
        · exact hfirst b hb
        · exact hi b (List.mem_cons_of_mem _ hb) a ha
      obtain ⟨hr, hl⟩ := ih hlaid hrest hp hnext
      simp only
      rw [htarget, htree, hreport, hfault, hr, List.map_cons, halone, List.reverse_cons,
        List.append_assoc]
      exact ⟨rfl, hl⟩

/-- Independent writes in any order give every file the report that it gets alone, and leave what
all writes together do. -/
theorem deliverAll_perm (ht : t.IsSound) (hplan : HasFileTargets plan)
    (hp : (writesOf t plan).Pairwise (Independent t)) {plan' : List Planned}
    (hperm : plan'.Perm plan) :
    (deliverAll t plan').reports = plan'.map (reportAlone t) ∧
      (deliverAll t plan').tree = (deliverAll t plan).tree := by
  have hw : (writesOf t plan').Perm (writesOf t plan) := hperm.filterMap _
  have hp' : (writesOf t plan').Pairwise (Independent t) :=
    hp.perm hw.symm fun h => h.symm
  have hplan' : HasFileTargets plan' := fun x hx => hplan x (hperm.subset hx)
  obtain ⟨hr', hl'⟩ := deliverAll_of_laid ht (laid_nil ht) hplan' hp' (by simp)
  obtain ⟨-, hl⟩ := deliverAll_of_laid ht (laid_nil ht) hplan hp (by simp)
  refine ⟨hr', hl.eq_of_perm hl' ?_⟩
  intro w
  simp only [List.append_nil, List.mem_reverse]
  exact hw.mem_iff

end VueSfc
