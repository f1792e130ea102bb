import VueSfc.Proofs.Run.Fatal

/-!
# The turns of a run

The files of a run are delivered in any order. Their targets are settled before that, in the order
of the inputs, so the claims on a path do not depend on it, and a turn depends on the turns before
it only by the tree that they have left. When all turns are taken, the reports stand in the order of
the inputs, and each tells of its own turn.
-/

namespace VueSfc

open Relation

/-! ## Turns -/

/-- The turn of an input. -/
structure Turn where
  /-- The inputs that were collected before it. -/
  earlier : List InputFile
  /-- The input. -/
  input : InputFile
  /-- The report on it. -/
  report : FileReport

/-- The turns of some inputs that were collected after others, in the order of the inputs. -/
def turnsOf (earlier : List InputFile) : List InputFile → List FileReport → List Turn
  | input :: inputs, report :: reports =>
    ⟨earlier, input, report⟩ :: turnsOf (earlier ++ [input]) inputs reports
  | _, _ => []

/-- Turns are taken one after another, from one tree to another. -/
inductive TakesTurns (t : FileTree) (s : RunSettings) (printed : Bool) :
    FileTree → List Turn → FileTree → Prop
  /-- No turn is left. -/
  | nil {u : FileTree} : TakesTurns t s printed u [] u
  /-- The first turn and the others. -/
  | cons {u v w : FileTree} {turn : Turn} {turns : List Turn}
      (first : IsReportOn t s printed turn.earlier u turn.input turn.report v)
      (others : TakesTurns t s printed v turns w) : TakesTurns t s printed u (turn :: turns) w

section

variable {t u v w : FileTree} {s : RunSettings} {printed : Bool} {earlier inputs : List InputFile}
  {reports : List FileReport}

/-- One more turn is taken at the end. -/
theorem TakesTurns.concat {turn : Turn} {turns : List Turn}
    (h : TakesTurns t s printed u turns v)
    (last : IsReportOn t s printed turn.earlier v turn.input turn.report w) :
    TakesTurns t s printed u (turns ++ [turn]) w := by
  induction h with
  | nil => exact .cons last .nil
  | cons first _ ih => exact .cons first (ih last)

/-- Reports account for inputs by turns in the order of the inputs. -/
theorem Account.takesTurns (h : Account t s printed earlier u inputs reports v) :
    TakesTurns t s printed u (turnsOf earlier inputs reports) v := by
  induction h with
  | nil => exact .nil
  | cons turn _ ih => exact .cons turn ih

/-! ## Jobs -/

/-- What was planned for a job. -/
def Job.planned (job : Job) : Planned := (job.file, job.target)

/-- Jobs that wait were planned as they stand. -/
theorem map_planned_waiting (plan : List Planned) :
    (plan.map Job.waiting).map Job.planned = plan := by
  rw [List.map_map]
  exact List.map_id plan

/-- The turns of those jobs that are done, in the order of all. -/
def turnsDone (earlier : List InputFile) : List Job → List Turn
  | [] => []
  | job :: jobs =>
    job.report.toList.map (Turn.mk earlier job.file.input) ++
      turnsDone (earlier ++ [job.file.input]) jobs

/-- The turns of some jobs come before those of the jobs behind them. -/
theorem turnsDone_append (earlier : List InputFile) (front behind : List Job) :
    turnsDone earlier (front ++ behind) = turnsDone earlier front ++
      turnsDone (earlier ++ front.map fun job => job.file.input) behind := by
  induction front generalizing earlier with
  | nil => simp [turnsDone]
  | cons job front ih => simp [turnsDone, ih]

/-- Jobs that wait have had no turns. -/
theorem turnsDone_waiting (earlier : List InputFile) (plan : List Planned) :
    turnsDone earlier (plan.map Job.waiting) = [] := by
  induction plan generalizing earlier with
  | nil => rfl
  | cons planned plan ih => exact ih _

/-- Jobs that are all done have had the turns of their inputs. -/
theorem turnsDone_of_done {jobs : List Job} (hd : jobs.map Job.report = reports.map some) :
    turnsDone earlier jobs = turnsOf earlier (jobs.map fun job => job.file.input) reports := by
  induction jobs generalizing earlier reports with
  | nil => cases reports <;> rfl
  | cons job jobs ih =>
    cases reports with
    | nil => cases hd
    | cons report reports =>
      obtain ⟨hreport, hrest⟩ := List.cons.inj hd
      rw [turnsDone, hreport, ih hrest]
      rfl

/-- One job that is done adds its turn to those of the others. -/
theorem turnsDone_perm (front behind : List Job) (file : ReadFile) (target : Target)
    (report : FileReport) :
    (turnsDone [] (front ++ ⟨file, target, some report⟩ :: behind)).Perm
      (⟨front.map fun job => job.file.input, file.input, report⟩ ::
        turnsDone [] (front ++ Job.waiting (file, target) :: behind)) := by
  rw [turnsDone_append, turnsDone_append]
  exact List.perm_middle

/-- What a plan has in the middle is a file with a target for it. -/
theorem AreTargetsFor.exists_isTargetFor {front behind : List Planned} {file : ReadFile}
    {target : Target} (h : AreTargetsFor t s earlier inputs (front ++ (file, target) :: behind)) :
    ∃ input, file = ReadFile.ofInput t s.dialect input ∧
      IsTargetFor t s (earlier ++ front.map fun planned => planned.1.input) input target := by
  induction front generalizing earlier inputs with
  | nil =>
    cases h with
    | cons first _ =>
      rw [← List.append_nil earlier] at first
      exact ⟨_, rfl, first⟩
  | cons planned front ih =>
    cases h with
    | cons _ others =>
      obtain ⟨input, hfile, htarget⟩ := ih others
      rw [List.append_assoc] at htarget
      exact ⟨input, hfile, htarget⟩

end

/-! ## One step -/

/-- The jobs of a run are under way: they are those planned for its inputs, and the turns of those
that are done have been taken in some order. -/
structure AreUnderWay (walk : Walker) (r : Request) (o : Options) (s : RunSettings)
    (jobs : List Job) (u : RunState) : Prop where
  /-- Components are not printed. -/
  not_printed : o.printed = false
  /-- The jobs are planned for the inputs. -/
  planned : AreTargetsFor r.tree s [] (walk.collect r.tree s o.paths) (jobs.map Job.planned)
  /-- The turns have led from the tree of the request to the present one. -/
  turns : ∃ order : List Turn, order.Perm (turnsDone [] jobs) ∧
    TakesTurns r.tree s false r.tree order u.tree
  /-- They keep a tree sound. -/
  sound : r.tree.IsSound → u.tree.IsSound
  /-- Nothing has been printed. -/
  output : u.output = []

/-- A run has come to its end with reports on all inputs, by turns that were taken in some order. -/
structure HasTakenTurns (walk : Walker) (r : Request) (o : Options) (s : RunSettings)
    (reports : List FileReport) (u : RunState) : Prop where
  /-- The turns of the reports have led from the tree of the request to the present one. -/
  turns : ∃ order : List Turn,
    order.Perm (turnsOf [] (walk.collect r.tree s o.paths) reports) ∧
      TakesTurns r.tree s o.printed r.tree order u.tree
  /-- The reports have been printed, unless the components are printed. -/
  output : o.printed = false → u.output = deliveredText (o.format.render reports)

/-- What a stage tells about the turns that have been taken. -/
def Stage.Accounts (walk : Walker) (r : Request) (u : RunState) : Stage → Prop
  | .delivering o s jobs => AreUnderWay walk r o s jobs u
  | .finished reports => ∀ o s warnings, RunsOverFiles r o s warnings →
    HasTakenTurns walk r o s reports u
  | _ => True

section

variable {walk : Walker} {r : Request} {o : Options} {s : RunSettings} {u v : RunState}

/-- Jobs that have just been planned are under way. -/
theorem Untouched.areUnderWay (h : Untouched r u) (hp : o.printed = false) (stage : Stage) :
    AreUnderWay walk r o s ((planTargets s.outDir ((walk.collect r.tree s o.paths).map
      (ReadFile.ofInput u.tree s.dialect))).map Job.waiting) (u.enter stage) where
  not_printed := hp
  planned := by
    rw [h.tree, map_planned_waiting]
    exact areTargetsFor_planTargets _
  turns := by
    rw [turnsDone_waiting]
    exact ⟨[], .nil, h.tree ▸ .nil⟩
  sound ht := h.tree ▸ ht
  output := h.output

/-- They are still under way when one more is done. -/
theorem AreUnderWay.deliver {front behind : List Job} {file : ReadFile} {target : Target}
    (h : AreUnderWay walk r o s (front ++ Job.waiting (file, target) :: behind) u) (stage : Stage) :
    AreUnderWay walk r o s
      (front ++ ⟨file, target, some (VueSfc.deliver u.tree file target).report⟩ :: behind)
      ((u.enter stage).leave (VueSfc.deliver u.tree file target)) := by
  obtain ⟨hprinted, hplanned, ⟨order, hperm, hturns⟩, hsound, houtput⟩ := h
  rw [List.map_append, List.map_cons] at hplanned
  obtain ⟨input, rfl, htarget⟩ := AreTargetsFor.exists_isTargetFor hplanned
  rw [List.nil_append, List.map_map] at htarget
  obtain ⟨hturn, hsound⟩ := isReportOn_deliver hsound htarget
  let file := ReadFile.ofInput r.tree s.dialect input
  let turn : Turn :=
    ⟨front.map fun job => job.file.input, input, (VueSfc.deliver u.tree file target).report⟩
  refine ⟨hprinted, ?_, ⟨order ++ [turn], ?_, hturns.concat hturn⟩, hsound, houtput⟩
  · rw [List.map_append, List.map_cons]
    exact hplanned
  · -- The turn is the last one taken, and stands among the others where its job stands.
    calc
      List.Perm _ (turn :: order) := List.perm_append_singleton _ _
      List.Perm _ (turn :: turnsDone [] (front ++ Job.waiting (file, target) :: behind)) :=
        hperm.cons _
      List.Perm _ (turnsDone [] (front ++ ⟨file, target, some turn.report⟩ :: behind)) :=
        (turnsDone_perm front behind file target turn.report).symm

/-- When all of them are done, the turns of their reports have been taken. -/
theorem AreUnderWay.hasTakenTurns {jobs : List Job} {reports : List FileReport}
    (h : AreUnderWay walk r o s jobs u)
    (hi : (jobs.map fun job => job.file.input) = walk.collect r.tree s o.paths)
    (hd : jobs.map Job.report = reports.map some) :
    HasTakenTurns walk r o s reports ((u.enter (.finished reports)).print
      (deliveredText (o.format.render reports))) where
  turns := by
    obtain ⟨order, hperm, hturns⟩ := h.turns
    rw [turnsDone_of_done hd, hi] at hperm
    rw [h.not_printed]
    exact ⟨order, hperm, hturns⟩
  output _ := (congrArg (· ++ _) h.output).trans (List.nil_append _)

/-- Printing the components of all inputs takes their turns in the order of the inputs. -/
theorem hasTakenTurns_printed (hp : o.printed = true) (ht : v.tree = r.tree) :
    HasTakenTurns walk r o s (((walk.collect r.tree s o.paths).map
      (ReadFile.ofInput r.tree s.dialect)).map fun file => (printedReport file).1) v where
  turns := by
    rw [hp, ht]
    exact ⟨_, .refl _, (account_printed _).takesTurns⟩
  output hn := by
    rw [hp] at hn
    contradiction

/-- A step leads to a stage that accounts for the turns taken. -/
theorem Step.accounts (hc : IsOnCourse walk r u) (h : u.stage.Accounts walk r u)
    (hs : Step walk r u v) : v.stage.Accounts walk r v := by
  obtain ⟨hfits, huntouched⟩ := hc
  cases hs with
  | convertInput stage input =>
    rw [stage] at hfits
    intro o s warnings hruns
    rw [hruns.readsInput_eq_false hfits.1] at input
    contradiction
  | printAll stage printed converted =>
    rw [stage] at hfits huntouched
    intro o s warnings hruns'
    obtain ⟨_, hruns⟩ := hfits.runs
    obtain ⟨rfl, rfl⟩ := hruns.unique hruns'
    have htree := (huntouched rfl).tree
    rw [converted, htree, HasTaken.eq_collect hfits]
    exact hasTakenTurns_printed printed htree
  | plan stage written =>
    rw [stage] at hfits huntouched
    rw [HasTaken.eq_collect hfits]
    exact (huntouched rfl).areUnderWay written _
  | deliver stage =>
    rw [stage] at h
    exact AreUnderWay.deliver h _
  | report stage done =>
    rw [stage] at hfits h
    obtain ⟨⟨_, hruns⟩, hinputs, -⟩ := hfits
    intro o s warnings hruns'
    obtain ⟨rfl, rfl⟩ := hruns.unique hruns'
    exact AreUnderWay.hasTakenTurns h hinputs done
  | refuse | accept | failConfiguration | configure | failSettings | settle | failInput | collect
  | take | setOut | pass | failWalk | comeBack => trivial

/-! ## Whole runs -/

/-- Whatever a run comes to, it accounts for the turns taken. -/
theorem accounts_of_reaches (h : Reaches walk r (.start r.tree) u) :
    u.stage.Accounts walk r u := by
  induction h with
  | refl => trivial
  | tail hreach hs ih => exact hs.accounts (isOnCourse_of_reaches hreach) ih

end

/-- Reports, totals and the exit code describe a run over files exactly, in whatever order its files
are delivered. The run as a whole, which delivers them in the order of the inputs, comes to its end.
There is one report on each collected input, in the order of the inputs, and turn after turn each
report tells what became of its input. The totals of the reports sort all inputs into those that
were converted, those that were not, and errors. The exit code is 1 where some report is an error,
or where inputs that are not converted are to fail the run and there is one, and else it is 0. The
reports are what is written at the end, to standard output unless the components are printed there.

Whatever walks meet and whichever file is delivered next, a run that delivers files can come to an
end, and at each end that it can come to there is the same account: the reports stand in the order
of the inputs, each of them is that of one turn, and these turns, in the order in which they were
taken, have led from the tree of the request to the present one. What an input has claimed goes by
the order of the inputs all the same. -/
theorem run_accounts_for_inputs {r : Request} {o : Options} {s : RunSettings}
    {warnings : List Text} (h : RunsOverFiles r o s warnings) :
    (∃ reports, (run r).ending = .finished reports ∧
      Account r.tree s o.printed [] r.tree (InputFile.collect r.tree s o.paths) reports
        (run r).tree ∧
      AreSummedUp o (InputFile.collect r.tree s o.paths) reports (run r).exitCode ∧
      (if o.printed then (run r).sideReport else some (run r).output) =
        some (deliveredText (o.format.render reports))) ∧
    ∀ walk u, Reaches walk r (.start r.tree) u →
      (u.stage.isLate = true → ∃ v reports, Reaches walk r u v ∧ v.stage = .finished reports) ∧
      ∀ reports, u.stage = .finished reports → HasTakenTurns walk r o s reports u ∧
        AreSummedUp o (walk.collect r.tree s o.paths) reports (exitCodeOf o reports) := by
  constructor
  · obtain ⟨reports, hending, haccount, hcode, hwritten⟩ := h.account
    rw [hcode]
    exact ⟨reports, hending, haccount, areSummedUp_exitCodeOf o haccount.map_input, hwritten⟩
  · intro walk u hreach
    refine ⟨exists_finished, fun reports hu => ?_⟩
    have hfits := (isOnCourse_of_reaches hreach).fits
    have haccounts := accounts_of_reaches hreach
    rw [hu] at hfits haccounts
    exact ⟨haccounts o s warnings h, areSummedUp_exitCodeOf o (hfits o s warnings h)⟩

/-- The reports on inputs of every kind account for them. So do those at the end that is reached
step by step. -/
theorem run_mixedRequest_accounts_for_inputs :
    RunsOverFiles mixedRequest mixedOptions mixedSettings [] ∧ ∃ reports,
      (run mixedRequest).ending = .finished reports ∧
      Account mixedTree mixedSettings false [] mixedTree
        (InputFile.collect mixedTree mixedSettings mixedPaths) reports (run mixedRequest).tree ∧
      reports.map FileReport.status = [.ended .converted, .writeFailed, .ended .emptyInput,
        .readFailed, .writeFailed] ∧ (run mixedRequest).exitCode = 1 ∧
      ∃ u, Reaches FileTree.walk mixedRequest (.start mixedTree) u ∧
        u.stage = .finished reports ∧
        HasTakenTurns FileTree.walk mixedRequest mixedOptions mixedSettings reports u := by
  have hruns : RunsOverFiles mixedRequest mixedOptions mixedSettings [] :=
    ⟨by decide +kernel, by decide, .empty, by rfl, by rfl⟩
  obtain ⟨⟨reports, hending, haccount, -⟩, hreached⟩ := run_accounts_for_inputs hruns
  have hstatus : (match (run mixedRequest).ending with
      | .finished reports => reports.map FileReport.status
      | _ => []) =
        [.ended .converted, .writeFailed, .ended .emptyInput, .readFailed, .writeFailed] := by
    decide +kernel
  rw [hending] at hstatus
  obtain ⟨u, hreach, hends⟩ := exists_reaches_run mixedRequest
  have hstage : u.stage = .finished reports :=
    Stage.ending?_eq_finished_iff.1 (hends.ending.trans (congrArg some hending))
  exact ⟨hruns, reports, hending, haccount, hstatus, by decide +kernel, u, hreach, hstage,
    ((hreached FileTree.walk u hreach).2 reports hstage).1⟩

end VueSfc
