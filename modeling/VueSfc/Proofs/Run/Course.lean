import VueSfc.Proofs.Run.Delivery
import VueSfc.Run.Stage

/-!
# The course of a run

A run that nothing is in the way of takes its steps to its end, and what it leaves there is what the
run as a whole gives: the steps, with the files delivered in their order, are those of the run.
-/

namespace VueSfc

open Relation FileTree

/-- What a first value gives comes before what the others give. -/
theorem filterMap_cons_eq {α β : Type} (f : α → Option β) (a : α) (as : List α) :
    (a :: as).filterMap f = (f a).toList ++ as.filterMap f := by
  cases h : f a with
  | none => rw [List.filterMap_cons_none h]; rfl
  | some b => rw [List.filterMap_cons_some h]; rfl

/-! ## Walked paths -/

/-- A path can be taken: it is no directory, or nothing is in the way of a walk through it. -/
def IsWalkable (walk : Walker) (t : FileTree) (path : Text) : Prop :=
  t.isDirectory path = true → ∀ item ∈ walk t path, item.rootFault? = none

/-- The inputs that a path stands for. -/
def Walker.inputsOf (walk : Walker) (t : FileTree) (s : RunSettings) (path : Text) :
    List InputFile :=
  if t.isDirectory path then (walk t path).flatMap (WalkItem.inputs s path) else [⟨path, []⟩]

/-- The inputs that some paths stand for. -/
def Walker.collect (walk : Walker) (t : FileTree) (s : RunSettings) (paths : List Text) :
    List InputFile :=
  paths.flatMap (walk.inputsOf t s)

/-- What walks through some paths warn of. -/
def Walker.warnings (walk : Walker) (t : FileTree) (paths : List Text) : List Text :=
  paths.flatMap fun path =>
    if t.isDirectory path then (walk t path).filterMap WalkItem.warning? else []

/-- The inputs of a first path come before those of the others. -/
theorem Walker.collect_cons (walk : Walker) (t : FileTree) (s : RunSettings) (path : Text)
    (paths : List Text) :
    walk.collect t s (path :: paths) = walk.inputsOf t s path ++ walk.collect t s paths :=
  List.flatMap_cons

/-- The warnings about a first path come before those about the others. -/
theorem Walker.warnings_cons (walk : Walker) (t : FileTree) (path : Text) (paths : List Text) :
    walk.warnings t (path :: paths) = walk.warnings t [path] ++ walk.warnings t paths :=
  (List.flatMap_append : ([path] ++ paths).flatMap _ = _)

/-- A directory stands at the place to which its path leads. -/
theorem isDirectory_eq_true_iff {t : FileTree} {path : Text} :
    t.isDirectory path = true ↔
      ∃ place, t.placeOf path = .ok place ∧ t.entryAt? place = some .directory := by
  rw [isDirectory, entryOf]
  cases t.placeOf path with
  | error fault => simp
  | ok place =>
    simp only [Except.ok.injEq, exists_eq_left']
    cases t.entryAt? place with
    | none => simp
    | some entry => cases entry <;> simp

/-- Nothing is in the way of a walk through a tree. -/
theorem isWalkable_walk (t : FileTree) (path : Text) : IsWalkable FileTree.walk t path := by
  intro _ item hitem
  rw [FileTree.walk] at hitem
  split at hitem
  · cases hitem
  · obtain ⟨names, -, rfl⟩ := List.mem_map.1 hitem
    rfl

/-- A walk through a tree finds the inputs of a path. -/
theorem inputsOf_walk (t : FileTree) (s : RunSettings) (path : Text) :
    Walker.inputsOf FileTree.walk t s path = InputFile.ofPath t s path := by
  have hfiles (names : List (List Text)) :
      (names.map WalkItem.file).flatMap (WalkItem.inputs s path) =
        (names.filter (InputFile.isWanted s)).map (InputFile.below path) := by
    induction names with
    | nil => rfl
    | cons name names ih =>
      rw [List.map_cons, List.flatMap_cons, ih, WalkItem.inputs]
      cases hw : InputFile.isWanted s name with
      | true => rw [List.filter_cons_of_pos hw]; rfl
      | false => rw [List.filter_cons_of_neg (by simp [hw])]; rfl
  have hd : t.isDirectory path = true ↔ _ := isDirectory_eq_true_iff
  rw [Walker.inputsOf, InputFile.ofPath, FileTree.walk]
  cases hp : t.placeOf path with
  | error fault =>
    rw [if_neg]
    simp [hd, hp]
  | ok place =>
    simp only [hp, Except.ok.injEq, exists_eq_left'] at hd
    simp only [hd, hfiles]

/-- A walk through a tree warns of nothing. -/
theorem warnings_walk (t : FileTree) (paths : List Text) :
    Walker.warnings FileTree.walk t paths = [] := by
  refine List.flatMap_eq_nil_iff.2 fun path _ => ?_
  split
  · refine List.filterMap_eq_nil_iff.2 fun item hitem => ?_
    rw [FileTree.walk] at hitem
    split at hitem
    · cases hitem
    · obtain ⟨names, -, rfl⟩ := List.mem_map.1 hitem
      rfl
  · rfl

/-! ## Steps put together -/

section

variable {walk : Walker} {r : Request} {o : Options} {c : Configuration} {s : RunSettings}
  {t : FileTree} {written warnings warned : List Text} {output : Text} {found : List InputFile}

/-- Accepted arguments and a configuration bring a run to its configuration. -/
theorem reaches_configured (ha : Options.ofArguments r.arguments = .ok o)
    (hc : loadConfiguration r.tree o.config = .ok (c, warnings)) :
    Reaches walk r (.start r.tree) ⟨.configured o c, r.tree, [], [], warnings⟩ :=
  .tail (.single (.accept rfl ha)) (.configure rfl hc)

/-- Patterns that can be read bring it to its settings. -/
theorem reaches_settled (ha : Options.ofArguments r.arguments = .ok o)
    (hc : loadConfiguration r.tree o.config = .ok (c, warnings))
    (hs : RunSettings.resolve o c r.timingsVariable = .ok s) :
    Reaches walk r (.start r.tree) ⟨.settled o s, r.tree, [], [], warnings⟩ :=
  (reaches_configured ha hc).tail (.settle rfl hs)

/-- A walk goes past its items until something is in its way. -/
theorem reaches_past {path : Text} {paths : List Text} {items others : List WalkItem}
    (hi : ∀ item ∈ items, item.rootFault? = none) :
    Reaches walk r
      ⟨.walking o s found path (items ++ others) paths, t, written, output, warnings⟩
      ⟨.walking o s (found ++ items.flatMap (WalkItem.inputs s path)) path others paths, t, written,
        output, warnings ++ items.filterMap WalkItem.warning?⟩ := by
  induction items generalizing found warnings with
  | nil =>
    rw [List.flatMap_nil, List.filterMap_nil, List.append_nil, List.append_nil]
    exact .refl
  | cons item items ih =>
    obtain ⟨hitem, hitems⟩ := List.forall_mem_cons.1 hi
    rw [List.flatMap_cons, filterMap_cons_eq, ← List.append_assoc, ← List.append_assoc]
    exact .head (.pass rfl hitem) (ih hitems)

/-- A run takes a path that can be taken. -/
theorem reaches_taken {path : Text} {paths : List Text} (hp : IsWalkable walk t path) :
    Reaches walk r ⟨.collecting o s found (path :: paths), t, written, output, warnings⟩
      ⟨.collecting o s (found ++ walk.inputsOf t s path) paths, t, written, output,
        warnings ++ walk.warnings t [path]⟩ := by
  rw [Walker.warnings, List.flatMap_singleton, Walker.inputsOf]
  cases hd : t.isDirectory path with
  | false =>
    rw [if_neg Bool.false_ne_true, if_neg Bool.false_ne_true, List.append_nil]
    exact .single (.take rfl hd)
  | true =>
    rw [if_pos rfl, if_pos rfl]
    have hpast : Reaches walk r
        ⟨.walking o s found path (walk t path ++ []) paths, t, written, output, warnings⟩ _ :=
      reaches_past (hp hd)
    rw [List.append_nil] at hpast
    exact (hpast.head (.setOut rfl hd)).tail (.comeBack rfl)

/-- A run takes paths that can be taken. -/
theorem reaches_collected {front paths : List Text} (hf : ∀ path ∈ front, IsWalkable walk t path) :
    Reaches walk r ⟨.collecting o s found (front ++ paths), t, written, output, warnings⟩
      ⟨.collecting o s (found ++ walk.collect t s front) paths, t, written, output,
        warnings ++ walk.warnings t front⟩ := by
  induction front generalizing found warnings with
  | nil =>
    rw [Walker.collect, Walker.warnings, List.flatMap_nil, List.flatMap_nil, List.append_nil,
      List.append_nil]
    exact .refl
  | cons path front ih =>
    obtain ⟨hpath, hfront⟩ := List.forall_mem_cons.1 hf
    have hrest : Reaches walk r ⟨.collecting o s (found ++ walk.inputsOf t s path) (front ++ paths),
        t, written, output, warnings ++ walk.warnings t [path]⟩ _ := ih hfront
    rw [List.append_assoc, List.append_assoc, ← Walker.collect_cons,
      ← Walker.warnings_cons] at hrest
    exact (reaches_taken hpath).trans hrest

/-- A run over files turns to its paths. -/
theorem RunsOverFiles.reaches_collecting (h : RunsOverFiles r o s warnings)
    {front paths : List Text} (hp : o.paths = front ++ paths)
    (hf : ∀ path ∈ front, IsWalkable walk r.tree path) :
    Reaches walk r (.start r.tree) ⟨.collecting o s (walk.collect r.tree s front) paths, r.tree, [],
      [], warnings ++ walk.warnings r.tree front⟩ := by
  obtain ⟨c, hc, hs⟩ := h.settled
  have hstart : Reaches walk r (.start r.tree)
      ⟨.collecting o s [] (front ++ paths), r.tree, [], [], warnings⟩ :=
    hp ▸ (reaches_settled h.accepted hc hs).tail (.collect rfl h.not_input)
  exact hstart.trans (reaches_collected hf)

/-- A run over files sets out on a walk through a directory. -/
theorem RunsOverFiles.reaches_walking (h : RunsOverFiles r o s warnings) {front behind : List Text}
    {path : Text} (hp : o.paths = front ++ path :: behind)
    (hf : ∀ path ∈ front, IsWalkable walk r.tree path) (hd : r.tree.isDirectory path = true) :
    Reaches walk r (.start r.tree) ⟨.walking o s (walk.collect r.tree s front) path
      (walk r.tree path) behind, r.tree, [], [], warnings ++ walk.warnings r.tree front⟩ :=
  (h.reaches_collecting hp hf).tail (.setOut rfl hd)

/-- Files that wait are delivered in their order. -/
theorem reaches_deliverAll (t : FileTree) (written warnings : List Text) (done : List Job)
    (planned : List (ReadFile × Target)) :
    ∃ jobs, jobs.map Job.report = (deliverAll t planned).reports.map some ∧
      Reaches walk r
        ⟨.delivering o s (done ++ planned.map Job.waiting), t, written, output, warnings⟩
        ⟨.delivering o s (done ++ jobs), (deliverAll t planned).tree,
          written ++ (deliverAll t planned).reports.filterMap FileReport.output, output,
          warnings ++ (deliverAll t planned).warnings⟩ := by
  induction planned generalizing t written warnings done with
  | nil =>
    refine ⟨[], rfl, ?_⟩
    rw [List.map_nil]
    simp only [deliverAll, List.filterMap_nil, List.append_nil]
    exact .refl
  | cons p planned ih =>
    obtain ⟨file, target⟩ := p
    let job : Job := ⟨file, target, some (deliver t file target).report⟩
    obtain ⟨jobs, hjobs, hreach⟩ := ih (deliver t file target).tree
      (written ++ (deliver t file target).report.output.toList)
      (warnings ++ (deliver t file target).warning.toList) (done ++ [job])
    refine ⟨job :: jobs, ?_, ?_⟩
    · rw [List.map_cons, hjobs]
      rfl
    · -- The first job is done where it stands, and the others follow behind it.
      rw [deliverAll, filterMap_cons_eq, ← List.append_assoc, ← List.append_assoc]
      rw [List.append_assoc, List.append_assoc] at hreach
      exact .head (.deliver rfl) hreach

end

/-! ## The run as a whole -/

/-- How a run that has come to a stage ends there, if it does. -/
def Stage.ending? : Stage → Option Ending
  | .refused fault => some (.usage fault)
  | .halted (.fatal fault) => some (.fatal fault)
  | .finished reports => some (.finished reports)
  | _ => none

/-- A run ends with a fatal fault just where it was broken off by it. -/
theorem Stage.ending?_eq_fatal_iff {stage : Stage} {fault : FatalFault} :
    stage.ending? = some (.fatal fault) ↔ stage = .halted (.fatal fault) := by
  cases stage with
  | halted halt => cases halt <;> simp [ending?]
  | begun | accepted | configured | settled | collecting | walking | delivering | refused
  | finished => simp [ending?]

/-- A run ends with reports just where it has come to its end with them. -/
theorem Stage.ending?_eq_finished_iff {stage : Stage} {reports : List FileReport} :
    stage.ending? = some (.finished reports) ↔ stage = .finished reports := by
  cases stage with
  | halted halt => cases halt <;> simp [ending?]
  | begun | accepted | configured | settled | collecting | walking | delivering | refused
  | finished => simp [ending?]

/-- A run on its way has ended with a result. -/
structure RunState.EndsWith (u : RunState) (result : RunResult) : Prop where
  /-- It has ended in the same way. -/
  ending : u.stage.ending? = some result.ending
  /-- It has left the same files. -/
  tree : u.tree = result.tree
  /-- It has printed the same text. -/
  output : u.output = result.output
  /-- It has given the same warnings. -/
  warnings : u.warnings = result.warnings
  /-- The components that it has written are those on which it reports. -/
  written : ∀ reports, result.ending = .finished reports →
    u.written = reports.filterMap FileReport.output

section

variable {r : Request} {o : Options} {c : Configuration} {s : RunSettings} {warnings : List Text}

/-- A run over standard input takes its steps to its result. -/
theorem RunsOverInput.exists_reaches (h : RunsOverInput r o s warnings) (walk : Walker) :
    ∃ u, Reaches walk r (.start r.tree) u ∧ u.EndsWith (run r) := by
  obtain ⟨c, hc, hs⟩ := h.settled
  have hsettled : Reaches walk r (.start r.tree) ⟨.settled o s, r.tree, [], [], warnings⟩ :=
    reaches_settled h.accepted hc hs
  rw [h.run_eq, runInput]
  cases ht : r.input.text with
  | error fault =>
    exact ⟨_, hsettled.tail (.failInput rfl h.reads_input ht), rfl, rfl, rfl, rfl,
      fun reports he => by cases he⟩
  | ok page =>
    refine ⟨_, hsettled.tail (.convertInput rfl h.reads_input ht), rfl, rfl, ?_, rfl, ?_⟩
    · exact List.nil_append _
    · intro reports he
      obtain rfl := Ending.finished.inj he
      rfl

/-- A run over files takes its steps to its result. -/
theorem RunsOverFiles.exists_reaches (h : RunsOverFiles r o s warnings) :
    ∃ u, Reaches FileTree.walk r (.start r.tree) u ∧ u.EndsWith (run r) := by
  have hcollect : Walker.collect FileTree.walk r.tree s o.paths =
      InputFile.collect r.tree s o.paths :=
    List.flatMap_congr fun path _ => inputsOf_walk r.tree s path
  have hreach := h.reaches_collecting (List.append_nil _).symm
    fun path _ => isWalkable_walk r.tree path
  rw [warnings_walk, List.append_nil, hcollect] at hreach
  rw [h.run_eq, runFiles]
  cases hp : o.printed with
  | true =>
    refine ⟨_, hreach.tail (.printAll rfl hp rfl), rfl, rfl, ?_, rfl, ?_⟩
    · exact List.nil_append _
    · intro reports he
      obtain rfl := Ending.finished.inj he
      refine (List.filterMap_eq_nil_iff.2 fun report hreport => ?_).symm
      obtain ⟨file, -, rfl⟩ := List.mem_map.1 hreport
      rw [printedReport]
      cases file.result <;> rfl
  | false =>
    obtain ⟨jobs, hjobs, hdelivered⟩ :=
      reaches_deliverAll r.tree [] warnings [] (planOf r.tree s o.paths)
    refine ⟨_, ((hreach.tail (.plan rfl hp)).trans hdelivered).tail (.report rfl hjobs), rfl, rfl,
      ?_, rfl, ?_⟩
    · exact List.nil_append _
    · intro reports he
      obtain rfl := Ending.finished.inj he
      exact List.nil_append _

/-- Every run takes its steps to its result, where nothing is in the way of a walk. -/
theorem exists_reaches_run (r : Request) :
    ∃ u, Reaches FileTree.walk r (.start r.tree) u ∧ u.EndsWith (run r) := by
  cases ha : Options.ofArguments r.arguments with
  | error fault =>
    refine ⟨_, .single (.refuse rfl ha), ?_⟩
    simp only [run, ha, endEarly]
    exact ⟨rfl, rfl, rfl, rfl, fun reports he => by cases he⟩
  | ok o =>
    cases hc : loadConfiguration r.tree o.config with
    | error fault =>
      refine ⟨_, (ReflTransGen.single (.accept rfl ha)).tail (.failConfiguration rfl hc), ?_⟩
      simp only [run, ha, runWith, hc, endEarly]
      exact ⟨rfl, rfl, rfl, rfl, fun reports he => by cases he⟩
    | ok loaded =>
      obtain ⟨c, warnings⟩ := loaded
      cases hs : RunSettings.resolve o c r.timingsVariable with
      | error fault =>
        refine ⟨_, (reaches_configured ha hc).tail (.failSettings rfl hs), ?_⟩
        simp only [run, ha, runWith, hc, hs, endEarly]
        exact ⟨rfl, rfl, rfl, rfl, fun reports he => by cases he⟩
      | ok s =>
        cases hi : o.readsInput with
        | true => exact RunsOverInput.exists_reaches ⟨ha, hi, c, hc, hs⟩ FileTree.walk
        | false => exact RunsOverFiles.exists_reaches ⟨ha, hi, c, hc, hs⟩

end

end VueSfc
