import VueSfc.Proofs.Run.Course

/-!
# Runs that are broken off

A run is broken off only by a configuration file that it was asked for, by the first pattern that
cannot be read, by standard input, or by the first directory that cannot be walked. All of these
come before the files are delivered. So a run that is broken off has changed and printed nothing,
and a run that has changed or printed something comes to its end, whatever becomes of single files.
-/

namespace VueSfc

open Relation Glob

/-! ## What cannot be loaded or read -/

/-- Only a configuration file that is asked for is fatal. -/
theorem loadConfiguration_eq_error_iff {t : FileTree} {asked : Option Text} {fault : FatalFault} :
    loadConfiguration t asked = .error fault ↔
      ∃ path why, asked = some path ∧ Configuration.ofFile t path = .error why ∧
        fault = .config path why := by
  cases asked with
  | some path =>
    simp only [loadConfiguration]
    cases hf : Configuration.ofFile t path with
    | error why => simp [hf, eq_comm]
    | ok c => simp [hf]
  | none =>
    simp only [loadConfiguration, reduceCtorEq, false_and, exists_false, iff_false]
    split
    · split <;> simp
    · simp

/-- Reading patterns fails at the first that cannot be read. -/
theorem readPatterns_eq_error_iff {patterns : List Text} {fault : FatalFault} :
    readPatterns patterns = .error fault ↔
      ∃ front pattern behind why, patterns = front ++ pattern :: behind ∧
        (∀ x ∈ front, ∃ p, Pattern.ofText x = .ok p) ∧
        Pattern.ofText pattern = .error why ∧ fault = .badPattern pattern why := by
  induction patterns with
  | nil => simp [readPatterns]
  | cons first rest ih =>
    rw [readPatterns]
    cases hf : Pattern.ofText first with
    | error why =>
      simp only [Except.error.injEq]
      constructor
      · rintro rfl
        exact ⟨[], first, rest, why, rfl, by simp, hf, rfl⟩
      · rintro ⟨front, pattern, behind, why', he, hfront, hw, rfl⟩
        cases front with
        | nil =>
          obtain ⟨rfl, -⟩ := List.cons.inj he
          rw [Except.error.inj (hf.symm.trans hw)]
        | cons x front =>
          obtain ⟨rfl, -⟩ := List.cons.inj he
          obtain ⟨p, hp⟩ := hfront first List.mem_cons_self
          rw [hf] at hp
          contradiction
    | ok p =>
      have hmap : (readPatterns rest).map (p :: ·) = .error fault ↔
          readPatterns rest = .error fault := by
        cases readPatterns rest <;> simp [Except.map]
      simp only [hmap, ih]
      constructor
      · rintro ⟨front, pattern, behind, why, rfl, hfront, hw, rfl⟩
        exact ⟨first :: front, pattern, behind, why, rfl,
          List.forall_mem_cons.2 ⟨⟨p, hf⟩, hfront⟩, hw, rfl⟩
      · rintro ⟨front, pattern, behind, why, he, hfront, hw, rfl⟩
        cases front with
        | nil =>
          obtain ⟨rfl, -⟩ := List.cons.inj he
          rw [hf] at hw
          contradiction
        | cons x front =>
          obtain ⟨rfl, rfl⟩ := List.cons.inj he
          exact ⟨front, pattern, behind, why, rfl, (List.forall_mem_cons.1 hfront).2, hw, rfl⟩

/-- Only patterns keep a run from its settings. -/
theorem resolve_eq_error_iff {o : Options} {c : Configuration} {asked : Option Text}
    {fault : FatalFault} :
    RunSettings.resolve o c asked = .error fault ↔
      readPatterns (c.ignore ++ o.ignore) = .error fault := by
  rw [RunSettings.resolve]
  cases readPatterns (c.ignore ++ o.ignore) <;> simp [Except.map]

/-! ## Causes -/

/-- Why a run over a request is broken off. -/
inductive IsCauseOf (walk : Walker) (r : Request) : Halt → Prop
  /-- The configuration file that is asked for cannot be loaded. -/
  | config {o : Options} {path : Text} {why : ConfigFault}
      (accepted : Options.ofArguments r.arguments = .ok o) (asked : o.config = some path)
      (failed : Configuration.ofFile r.tree path = .error why) :
      IsCauseOf walk r (.fatal (.config path why))
  /-- A pattern of the configuration or of the arguments cannot be read, but those before it can. -/
  | pattern {o : Options} {c : Configuration} {warnings front behind : List Text} {pattern : Text}
      {why : GlobFault} (accepted : Options.ofArguments r.arguments = .ok o)
      (loaded : loadConfiguration r.tree o.config = .ok (c, warnings))
      (patterns : c.ignore ++ o.ignore = front ++ pattern :: behind)
      (readable : ∀ x ∈ front, ∃ p, Pattern.ofText x = .ok p)
      (failed : Pattern.ofText pattern = .error why) :
      IsCauseOf walk r (.fatal (.badPattern pattern why))
  /-- Standard input cannot be read. -/
  | input {o : Options} {s : RunSettings} {warnings : List Text} {why : FileFault}
      (runs : RunsOverInput r o s warnings) (failed : r.input.text = .error why) :
      IsCauseOf walk r (.fatal (.input why))
  /-- A path is that of a directory that cannot be walked, but the paths before it can be taken. -/
  | directory {o : Options} {s : RunSettings} {warnings front behind : List Text}
      {path message : Text} {before after : List WalkItem} {item : WalkItem}
      (runs : RunsOverFiles r o s warnings) (paths : o.paths = front ++ path :: behind)
      (walkable : ∀ x ∈ front, IsWalkable walk r.tree x)
      (isDirectory : r.tree.isDirectory path = true)
      (walked : walk r.tree path = before ++ item :: after)
      (passed : ∀ x ∈ before, x.rootFault? = none) (failed : item.rootFault? = some message) :
      IsCauseOf walk r (.unwalkable path message)

/-- What there is to break off a run breaks it off. -/
theorem IsCauseOf.exists_reaches {walk : Walker} {r : Request} {halt : Halt}
    (h : IsCauseOf walk r halt) :
    ∃ u, Reaches walk r (.start r.tree) u ∧ u.stage = .halted halt := by
  cases h with
  | config accepted asked failed =>
    have hload := loadConfiguration_eq_error_iff.2 ⟨_, _, asked, failed, rfl⟩
    exact ⟨_, .tail (.single (.accept rfl accepted)) (.failConfiguration rfl hload), rfl⟩
  | pattern accepted loaded patterns readable failed =>
    have hpatterns := readPatterns_eq_error_iff.2 ⟨_, _, _, _, patterns, readable, failed, rfl⟩
    exact ⟨_, (reaches_configured accepted loaded).tail
      (.failSettings rfl (resolve_eq_error_iff.2 hpatterns)), rfl⟩
  | input runs failed =>
    obtain ⟨c, hc, hs⟩ := runs.settled
    exact ⟨_, (reaches_settled runs.accepted hc hs).tail (.failInput rfl runs.reads_input failed),
      rfl⟩
  | directory runs paths walkable isDirectory walked passed failed =>
    have hwalking := runs.reaches_walking paths walkable isDirectory
    rw [walked] at hwalking
    exact ⟨_, (hwalking.trans (reaches_past passed)).tail (.failWalk rfl failed), rfl⟩

/-- A cause that needs no walk is how the run as a whole ends. -/
theorem IsCauseOf.ending_run {walk : Walker} {r : Request} {fault : FatalFault}
    (h : IsCauseOf walk r (.fatal fault)) : (run r).ending = .fatal fault := by
  cases h with
  | config accepted asked failed =>
    have hload := loadConfiguration_eq_error_iff.2 ⟨_, _, asked, failed, rfl⟩
    simp only [run, accepted, runWith, hload, endEarly]
  | pattern accepted loaded patterns readable failed =>
    have hpatterns := readPatterns_eq_error_iff.2 ⟨_, _, _, _, patterns, readable, failed, rfl⟩
    simp only [run, accepted, runWith, loaded, resolve_eq_error_iff.2 hpatterns, endEarly]
  | input runs failed =>
    rw [runs.run_eq, runInput, failed]
    rfl

/-! ## What stages tell -/

/-- A run over files has found some inputs and has some paths left: the paths before them could be
taken, and the inputs are theirs. -/
structure HasTaken (walk : Walker) (r : Request) (o : Options) (s : RunSettings)
    (found : List InputFile) (paths : List Text) : Prop where
  /-- It is a run over files. -/
  runs : ∃ warnings, RunsOverFiles r o s warnings
  /-- The paths that are not left have been taken. -/
  taken : ∃ front, o.paths = front ++ paths ∧ (∀ x ∈ front, IsWalkable walk r.tree x) ∧
    found = walk.collect r.tree s front

/-- One more path has been taken. -/
theorem HasTaken.concat {walk : Walker} {r : Request} {o : Options} {s : RunSettings}
    {found : List InputFile} {path : Text} {paths : List Text}
    (h : HasTaken walk r o s found (path :: paths)) (hp : IsWalkable walk r.tree path) :
    HasTaken walk r o s (found ++ walk.inputsOf r.tree s path) paths := by
  obtain ⟨hruns, front, hpaths, hfront, rfl⟩ := h
  refine ⟨hruns, front ++ [path], ?_, ?_, ?_⟩
  · rw [hpaths, List.append_assoc]
    rfl
  · exact List.forall_mem_append.2 ⟨hfront, List.forall_mem_singleton.2 hp⟩
  · rw [Walker.collect, Walker.collect, List.flatMap_append, List.flatMap_singleton]

/-- Where no path is left, the inputs found are those of all paths. -/
theorem HasTaken.eq_collect {walk : Walker} {r : Request} {o : Options} {s : RunSettings}
    {found : List InputFile} (h : HasTaken walk r o s found []) :
    found = walk.collect r.tree s o.paths := by
  obtain ⟨-, front, hpaths, -, rfl⟩ := h
  rw [hpaths, List.append_nil]

/-- What a stage of a run tells about the request. -/
def Stage.Fits (walk : Walker) (r : Request) : Stage → Prop
  | .begun => True
  | .refused fault => Options.ofArguments r.arguments = .error fault
  | .accepted o => Options.ofArguments r.arguments = .ok o
  | .configured o c =>
    Options.ofArguments r.arguments = .ok o ∧
      ∃ warnings, loadConfiguration r.tree o.config = .ok (c, warnings)
  | .settled o s =>
    Options.ofArguments r.arguments = .ok o ∧
      ∃ c warnings, loadConfiguration r.tree o.config = .ok (c, warnings) ∧
        RunSettings.resolve o c r.timingsVariable = .ok s
  | .collecting o s found paths => HasTaken walk r o s found paths
  | .walking o s found path items paths =>
    r.tree.isDirectory path = true ∧
      ∃ taken before, HasTaken walk r o s taken (path :: paths) ∧
        walk r.tree path = before ++ items ∧ (∀ x ∈ before, x.rootFault? = none) ∧
        found = taken ++ before.flatMap (WalkItem.inputs s path)
  | .delivering o s jobs =>
    (∃ warnings, RunsOverFiles r o s warnings) ∧
      (jobs.map fun job => job.file.input) = walk.collect r.tree s o.paths ∧
      ∀ job ∈ jobs, ∀ report ∈ job.report, report.input = job.file.input.path
  | .halted halt => IsCauseOf walk r halt
  | .finished reports => ∀ o s warnings, RunsOverFiles r o s warnings →
    reports.map FileReport.input = (walk.collect r.tree s o.paths).map InputFile.path

/-- Files are being delivered, or the run has come to its end. -/
def Stage.isLate : Stage → Bool
  | .delivering .. | .finished _ => true
  | _ => false

/-- Nothing has been changed or printed. -/
structure Untouched (r : Request) (u : RunState) : Prop where
  /-- The files are those of the request. -/
  tree : u.tree = r.tree
  /-- No component has been written. -/
  written : u.written = []
  /-- Nothing has been printed. -/
  output : u.output = []

/-- A run is where its steps can bring it. -/
structure IsOnCourse (walk : Walker) (r : Request) (u : RunState) : Prop where
  /-- Its stage fits the request. -/
  fits : u.stage.Fits walk r
  /-- Nothing is changed or printed before files are delivered. -/
  untouched : u.stage.isLate = false → Untouched r u

section

variable {walk : Walker} {r : Request} {u v : RunState}

/-! ## One step -/

/-- A step to an early stage comes from an early stage, and at most warns. -/
theorem Step.of_early (hs : Step walk r u v) (hv : v.stage.isLate = false) :
    u.stage.isLate = false ∧ v.tree = u.tree ∧ v.written = u.written ∧ v.output = u.output := by
  cases hs with
  | convertInput | printAll | plan | deliver | report => cases hv
  | refuse stage | accept stage | failConfiguration stage | configure stage | failSettings stage
  | settle stage | failInput stage | collect stage | take stage | setOut stage | pass stage
  | failWalk stage | comeBack stage =>
    exact ⟨by rw [stage]; rfl, rfl, rfl, rfl⟩

/-- The options and settings of a run over files are those of its request. -/
theorem RunsOverFiles.unique {o o' : Options} {s s' : RunSettings} {warnings warnings' : List Text}
    (h : RunsOverFiles r o s warnings) (h' : RunsOverFiles r o' s' warnings') :
    o = o' ∧ s = s' := by
  obtain ⟨c, hc, hs⟩ := h.settled
  obtain ⟨c', hc', hs'⟩ := h'.settled
  obtain rfl := Except.ok.inj (h.accepted.symm.trans h'.accepted)
  obtain ⟨rfl, -⟩ := Prod.mk.inj (Except.ok.inj (hc.symm.trans hc'))
  exact ⟨rfl, Except.ok.inj (hs.symm.trans hs')⟩

/-- A run over files does not read standard input. -/
theorem RunsOverFiles.readsInput_eq_false {o o' : Options} {s : RunSettings}
    {warnings : List Text} (h : RunsOverFiles r o s warnings)
    (ha : Options.ofArguments r.arguments = .ok o') : o'.readsInput = false := by
  rw [Except.ok.inj (ha.symm.trans h.accepted), h.not_input]

/-- The report on a delivered file names its input. -/
theorem input_deliver (t : FileTree) (file : ReadFile) (target : Target) :
    (deliver t file target).report.input = file.input.path := by
  simp only [deliver]
  split
  · rfl
  · rfl
  · rfl
  · split <;> rfl

/-- The report on a printed file names its input. -/
theorem input_printedReport (file : ReadFile) :
    (printedReport file).1.input = file.input.path := by
  rw [printedReport]
  split <;> rfl

/-- The jobs that are planned for inputs are for these, in their order. -/
theorem map_input_planTargets (outDir : Option Text) (t : FileTree) (dialect : Dialect)
    (inputs : List InputFile) :
    ((planTargets outDir (inputs.map (ReadFile.ofInput t dialect))).map
      fun planned => (Job.waiting planned).file.input) = inputs := by
  have hfiles := congrArg (List.map ReadFile.input)
    (map_fst_assignTargets outDir [] (inputs.map (ReadFile.ofInput t dialect)))
  rw [List.map_map, List.map_map] at hfiles
  exact hfiles.trans (List.map_id inputs)

/-- Reports on jobs that name their inputs name them all. -/
theorem map_input_of_done {jobs : List Job} {reports : List FileReport}
    (hd : jobs.map Job.report = reports.map some)
    (hj : ∀ job ∈ jobs, ∀ report ∈ job.report, report.input = job.file.input.path) :
    reports.map FileReport.input = (jobs.map fun job => job.file.input).map InputFile.path := by
  induction jobs generalizing reports with
  | nil =>
    cases reports with
    | nil => rfl
    | cons report reports => cases hd
  | cons job jobs ih =>
    cases reports with
    | nil => cases hd
    | cons report reports =>
      obtain ⟨hjob, hjobs⟩ := List.forall_mem_cons.1 hj
      obtain ⟨hreport, hrest⟩ := List.cons.inj hd
      rw [List.map_cons, List.map_cons, List.map_cons, hjob report hreport, ih hrest hjobs]

/-- A step leads to a stage that fits the request. -/
theorem Step.fits (h : IsOnCourse walk r u) (hs : Step walk r u v) : v.stage.Fits walk r := by
  have htree (hl : u.stage.isLate = false) : u.tree = r.tree := (h.untouched hl).tree
  obtain ⟨hfits, -⟩ := h
  cases hs with
  | refuse _ refused => exact refused
  | accept _ accepted => exact accepted
  | failConfiguration stage failed =>
    rw [stage] at hfits htree
    rw [htree rfl] at failed
    obtain ⟨path, why, hasked, hf, rfl⟩ := loadConfiguration_eq_error_iff.1 failed
    exact .config hfits hasked hf
  | configure stage loaded =>
    rw [stage] at hfits htree
    rw [htree rfl] at loaded
    exact ⟨hfits, _, loaded⟩
  | failSettings stage failed =>
    rw [stage] at hfits
    obtain ⟨haccepted, warnings, hloaded⟩ := hfits
    obtain ⟨front, pattern, behind, why, hp, hf, hw, rfl⟩ :=
      readPatterns_eq_error_iff.1 (resolve_eq_error_iff.1 failed)
    exact .pattern haccepted hloaded hp hf hw
  | settle stage resolved =>
    rw [stage] at hfits
    obtain ⟨haccepted, warnings, hloaded⟩ := hfits
    exact ⟨haccepted, _, warnings, hloaded, resolved⟩
  | failInput stage input failed =>
    rw [stage] at hfits
    obtain ⟨haccepted, c, warnings, hloaded, hresolved⟩ := hfits
    exact .input ⟨haccepted, input, c, hloaded, hresolved⟩ failed
  | convertInput stage input =>
    rw [stage] at hfits
    intro o s warnings hruns
    rw [hruns.readsInput_eq_false hfits.1] at input
    contradiction
  | collect stage files =>
    rw [stage] at hfits
    obtain ⟨haccepted, c, warnings, hloaded, hresolved⟩ := hfits
    exact ⟨⟨warnings, haccepted, files, c, hloaded, hresolved⟩, [], rfl, by simp, rfl⟩
  | @take o s found path paths stage file =>
    rw [stage] at hfits htree
    rw [htree rfl] at file
    have htaken : HasTaken walk r o s found (path :: paths) := hfits
    have hnext := htaken.concat fun hd => by rw [file] at hd; contradiction
    rwa [Walker.inputsOf, file, if_neg Bool.false_ne_true] at hnext
  | setOut stage directory =>
    rw [stage] at hfits htree
    rw [htree rfl] at directory ⊢
    exact ⟨directory, _, [], hfits, rfl, by simp, (List.append_nil _).symm⟩
  | @pass o s found path item items paths stage passed =>
    rw [stage] at hfits
    obtain ⟨hd, taken, before, htaken, hwalk, hbefore, rfl⟩ := hfits
    refine ⟨hd, taken, before ++ [item], htaken, ?_, ?_, ?_⟩
    · rw [hwalk, List.append_assoc]
      rfl
    · exact List.forall_mem_append.2 ⟨hbefore, List.forall_mem_singleton.2 passed⟩
    · rw [List.flatMap_append, List.flatMap_singleton, List.append_assoc]
  | failWalk stage failed =>
    rw [stage] at hfits
    obtain ⟨hd, _, before, ⟨⟨_, hruns⟩, front, hpaths, hfront, -⟩, hwalk, hbefore, -⟩ := hfits
    exact .directory hruns hpaths hfront hd hwalk hbefore failed
  | @comeBack o s found path paths stage =>
    rw [stage] at hfits
    obtain ⟨hd, taken, before, htaken, hwalk, hbefore, rfl⟩ := hfits
    -- All items of the walk have been passed, so the path could be taken.
    rw [List.append_nil] at hwalk
    have hnext := htaken.concat fun _ => hwalk ▸ hbefore
    rwa [Walker.inputsOf, hd, if_pos rfl, hwalk] at hnext
  | printAll stage printed converted =>
    rw [stage] at hfits
    intro o s warnings hruns'
    obtain ⟨_, hruns⟩ := hfits.runs
    obtain ⟨rfl, rfl⟩ := hruns.unique hruns'
    rw [← HasTaken.eq_collect hfits]
    simp only [converted, List.map_map]
    exact List.map_congr_left fun input _ => input_printedReport _
  | @plan o s found stage written =>
    rw [stage] at hfits
    refine ⟨hfits.runs, ?_, ?_⟩
    · rw [List.map_map, ← HasTaken.eq_collect hfits]
      exact map_input_planTargets s.outDir u.tree s.dialect _
    · intro job hjob report hreport
      obtain ⟨planned, -, rfl⟩ := List.mem_map.1 hjob
      cases hreport
  | deliver stage =>
    rw [stage] at hfits
    obtain ⟨hruns, hinputs, hjobs⟩ := hfits
    refine ⟨hruns, ?_, ?_⟩
    · rw [← hinputs, List.map_append, List.map_append, List.map_cons, List.map_cons]
      rfl
    · -- Only the job that is done gets a report.
      obtain ⟨hfront, hrest⟩ := List.forall_mem_append.1 hjobs
      obtain ⟨-, hbehind⟩ := List.forall_mem_cons.1 hrest
      refine List.forall_mem_append.2 ⟨hfront, List.forall_mem_cons.2 ⟨?_, hbehind⟩⟩
      intro report hreport
      obtain rfl := Option.some.inj hreport
      exact input_deliver _ _ _
  | report stage done =>
    rw [stage] at hfits
    obtain ⟨⟨_, hruns⟩, hinputs, hjobs⟩ := hfits
    intro o s warnings hruns'
    obtain ⟨rfl, rfl⟩ := hruns.unique hruns'
    rw [map_input_of_done done hjobs, hinputs]

/-- A run stays on its course. -/
theorem Step.isOnCourse (h : IsOnCourse walk r u) (hs : Step walk r u v) : IsOnCourse walk r v := by
  refine ⟨hs.fits h, fun hv => ?_⟩
  obtain ⟨hu, htree, hwritten, houtput⟩ := hs.of_early hv
  have hkept := h.untouched hu
  exact ⟨htree.trans hkept.tree, hwritten.trans hkept.written, houtput.trans hkept.output⟩

/-- A late stage is only followed by late stages. -/
theorem Step.isLate (hs : Step walk r u v) (hu : u.stage.isLate = true) :
    v.stage.isLate = true := by
  by_contra hv
  rw [Bool.not_eq_true] at hv
  rw [(hs.of_early hv).1] at hu
  contradiction

/-! ## Whole runs -/

/-- A run that has only begun is on its course. -/
theorem isOnCourse_start (walk : Walker) (r : Request) : IsOnCourse walk r (.start r.tree) :=
  ⟨trivial, fun _ => ⟨rfl, rfl, rfl⟩⟩

/-- Whatever a run comes to, it is on its course. -/
theorem isOnCourse_of_reaches (h : Reaches walk r (.start r.tree) u) : IsOnCourse walk r u := by
  induction h with
  | refl => exact isOnCourse_start walk r
  | tail _ hs ih => exact hs.isOnCourse ih

/-- Whatever comes after a late stage is late. -/
theorem isLate_of_reaches (h : Reaches walk r u v) (hu : u.stage.isLate = true) :
    v.stage.isLate = true := by
  induction h with
  | refl => exact hu
  | tail _ hs ih => exact hs.isLate ih

/-! ## Coming to the end -/

/-- How many files wait to be delivered, and the report on all of them. -/
def Stage.left : Stage → Nat
  | .delivering _ _ jobs => (jobs.countP fun job => job.report.isNone) + 1
  | _ => 0

/-- Once files are being delivered, every step leaves less to do. -/
theorem Step.left_lt (hs : Step walk r u v) (hu : u.stage.isLate = true) :
    v.stage.left < u.stage.left := by
  cases hs with
  | deliver stage =>
    rw [stage]
    simp only [RunState.leave, RunState.enter, Stage.left, List.countP_append, List.countP_cons,
      Job.waiting, Option.isNone_some, Option.isNone_none, if_true, Bool.false_eq_true, if_false]
    omega
  | report stage =>
    rw [stage]
    exact Nat.succ_pos _
  | refuse stage | accept stage | failConfiguration stage | configure stage | failSettings stage
  | settle stage | failInput stage | convertInput stage | collect stage | take stage | setOut stage
  | pass stage | failWalk stage | comeBack stage | printAll stage | plan stage =>
    rw [stage] at hu
    cases hu

/-- Jobs wait, or all have their reports. -/
theorem waits_or_done (jobs : List Job) :
    (∃ front file target behind, jobs = front ++ Job.waiting (file, target) :: behind) ∨
      ∃ reports : List FileReport, jobs.map Job.report = reports.map some := by
  induction jobs with
  | nil => exact .inr ⟨[], rfl⟩
  | cons job jobs ih =>
    obtain ⟨file, target, report⟩ := job
    cases report with
    | none => exact .inl ⟨[], file, target, jobs, rfl⟩
    | some report =>
      rcases ih with ⟨front, file', target', behind, rfl⟩ | ⟨reports, hdone⟩
      · exact .inl ⟨_ :: front, file', target', behind, rfl⟩
      · exact .inr ⟨report :: reports, by rw [List.map_cons, hdone, List.map_cons]⟩

/-- While files are being delivered there is a next step, whatever has become of single files. -/
theorem exists_step (walk : Walker) (r : Request) {o : Options} {s : RunSettings} {jobs : List Job}
    (hu : u.stage = .delivering o s jobs) : ∃ v, Step walk r u v := by
  rcases waits_or_done jobs with ⟨front, file, target, behind, rfl⟩ | ⟨reports, hdone⟩
  · exact ⟨_, .deliver hu⟩
  · exact ⟨_, .report hu hdone⟩

/-- From a late stage a run comes to its end. -/
theorem exists_finished (hu : u.stage.isLate = true) :
    ∃ v reports, Reaches walk r u v ∧ v.stage = .finished reports := by
  induction hn : u.stage.left using Nat.strong_induction_on generalizing u with
  | _ n ih =>
    cases hstage : u.stage with
    | finished reports => exact ⟨u, reports, .refl, hstage⟩
    | delivering o s jobs =>
      obtain ⟨v, hs⟩ := exists_step walk r hstage
      obtain ⟨w, reports, hreach, hw⟩ := ih _ (hn ▸ hs.left_lt hu) (hs.isLate hu) rfl
      exact ⟨w, reports, hreach.head hs, hw⟩
    | begun | accepted | configured | settled | collecting | walking | refused | halted =>
      rw [hstage] at hu
      cases hu

/-- A run that can only go on to its end: it is never broken off, every step leaves less to do, and
at the end there is a report on each input that was collected. -/
structure ComesToItsEnd (walk : Walker) (r : Request) (u : RunState) : Prop where
  /-- It is not broken off. -/
  not_halted : ∀ halt, u.stage ≠ .halted halt
  /-- It is at its end, or there is a next step. -/
  finished_or_step : (∃ reports, u.stage = .finished reports) ∨ ∃ v, Step walk r u v
  /-- Every step leaves less to do. -/
  left_lt : ∀ v, Step walk r u v → v.stage.left < u.stage.left
  /-- It can come to its end. -/
  exists_finished : ∃ v reports, Reaches walk r u v ∧ v.stage = .finished reports
  /-- At its end there is a report on each input. -/
  map_input_eq : ∀ reports, u.stage = .finished reports → ∀ o s warnings,
    RunsOverFiles r o s warnings →
      reports.map FileReport.input = (walk.collect r.tree s o.paths).map InputFile.path

/-- A run at a late stage comes to its end. -/
theorem IsOnCourse.comesToItsEnd (h : IsOnCourse walk r u) (hu : u.stage.isLate = true) :
    ComesToItsEnd walk r u where
  not_halted halt he := by
    rw [he] at hu
    cases hu
  finished_or_step := by
    cases hstage : u.stage with
    | finished reports => exact .inl ⟨reports, rfl⟩
    | delivering o s jobs => exact .inr (exists_step walk r hstage)
    | begun | accepted | configured | settled | collecting | walking | refused | halted =>
      rw [hstage] at hu
      cases hu
  left_lt v hs := hs.left_lt hu
  exists_finished := exists_finished hu
  map_input_eq reports he := by
    have hfits := h.fits
    rwa [he] at hfits

end

/-- A run that is broken off leaves everything as it was. Whatever walks meet, a run is broken off
by just these: a configuration file that it was asked for and that cannot be read, the first pattern
that cannot be read, standard input that cannot be read, and the first directory that cannot be
walked. Then no file has been changed, no component written and nothing printed. Once anything has
been changed, written or printed, a run is not broken off any more: from there on it comes to its
end, with a report on each input. Where nothing is in the way of a walk, these are the steps of the
run as a whole, which ends with a fatal fault for just the same causes, and then its files are those
of the request and its output is empty. -/
theorem broken_off_run_changes_nothing (walk : Walker) (r : Request) :
    (∀ halt, (∃ u, Reaches walk r (.start r.tree) u ∧ u.stage = .halted halt) ↔
      IsCauseOf walk r halt) ∧
    (∀ u halt, Reaches walk r (.start r.tree) u → u.stage = .halted halt → Untouched r u) ∧
    (∀ u v, Reaches walk r (.start r.tree) u → ¬ Untouched r u → Reaches walk r u v →
      ComesToItsEnd walk r v) ∧
    (∃ u, Reaches FileTree.walk r (.start r.tree) u ∧ u.EndsWith (run r)) ∧
    ∀ fault, ((run r).ending = .fatal fault ↔ IsCauseOf FileTree.walk r (.fatal fault)) ∧
      ((run r).ending = .fatal fault → (run r).tree = r.tree ∧ (run r).output = []) := by
  have hcourse {walk : Walker} {u : RunState} {halt : Halt}
      (hreach : Reaches walk r (.start r.tree) u) (hu : u.stage = .halted halt) :
      IsCauseOf walk r halt ∧ Untouched r u := by
    obtain ⟨hfits, huntouched⟩ := isOnCourse_of_reaches hreach
    rw [hu] at hfits huntouched
    exact ⟨hfits, huntouched rfl⟩
  refine ⟨fun halt => ⟨?_, IsCauseOf.exists_reaches⟩, fun u halt hreach hu => (hcourse hreach hu).2,
    ?_, exists_reaches_run r, fun fault => ?_⟩
  · rintro ⟨u, hreach, hu⟩
    exact (hcourse hreach hu).1
  · -- Whatever is touched is late, and what comes after it is late too.
    intro u v hreach htouched hv
    have hlate : u.stage.isLate = true := by
      by_contra hearly
      exact htouched ((isOnCourse_of_reaches hreach).untouched (by simpa using hearly))
    exact (isOnCourse_of_reaches (hreach.trans hv)).comesToItsEnd (isLate_of_reaches hv hlate)
  · obtain ⟨u, hreach, hends⟩ := exists_reaches_run r
    have hhalted (hfault : (run r).ending = .fatal fault) : u.stage = .halted (.fatal fault) :=
      Stage.ending?_eq_fatal_iff.1 (hends.ending.trans (congrArg some hfault))
    refine ⟨⟨fun hfault => (hcourse hreach (hhalted hfault)).1, IsCauseOf.ending_run⟩, ?_⟩
    intro hfault
    obtain ⟨htree, -, houtput⟩ := (hcourse hreach (hhalted hfault)).2
    exact ⟨hends.tree.symm.trans htree, hends.output.symm.trans houtput⟩

/-- A walk that nothing is in the way of, but that one directory cannot be opened. -/
def lockedWalk (locked message : Text) : Walker := fun tree path =>
  if path = locked then [.fault 0 message] else tree.walk path

/-- Two pages, one of them in a directory, and a directory that is to be locked. -/
def lockedTree : FileTree :=
  (((FileTree.empty []).set ["a.html"] (.file (encodeText plainPage))).set ["d"] .directory).set
    ["d", "b.html"] (.file (encodeText plainPage)) |>.set ["e"] .directory

/-- A run over the pages and then over the locked directory. -/
def lockedRequest : Request := ⟨["a.html", "d", "e"], .file [], none, lockedTree⟩

/-- What the walk through the locked directory meets. -/
def lockedMessage : Text := "IO error for operation on e: Permission denied (os error 13)"

/-- A run over a page with a configuration file that is not there. -/
def strayRequest : Request := ⟨["--config", "x.json", "a.html"], .file [], none, lockedTree⟩

/-- A directory that cannot be walked, as the last path, breaks off a run that has changed nothing,
and so does a configuration file that is not there. A run that has written a component comes to its
end, though other inputs cannot be read or written. -/
theorem lockedRequest_changes_nothing :
    (∃ u, Reaches (lockedWalk "e" lockedMessage) lockedRequest (.start lockedTree) u ∧
      u.stage = .halted (.unwalkable "e" lockedMessage) ∧ Untouched lockedRequest u) ∧
    (∃ u, Reaches FileTree.walk mixedRequest (.start mixedTree) u ∧ u.written = [("A.vue" : Text)] ∧
      ComesToItsEnd FileTree.walk mixedRequest u) ∧
    (run strayRequest).tree = lockedTree ∧ (run strayRequest).output = [] := by
  refine ⟨?_, ?_, ?_⟩
  · obtain ⟨hhalts, huntouched, -⟩ :=
      broken_off_run_changes_nothing (lockedWalk "e" lockedMessage) lockedRequest
    have hruns : RunsOverFiles lockedRequest
        { CommandLine.defaults with paths := ["a.html", "d", "e"] } mixedSettings [] :=
      ⟨by decide +kernel, by decide, .empty, by rfl, by rfl⟩
    have hfront : ∀ x ∈ (["a.html", "d"] : List Text),
        IsWalkable (lockedWalk "e" lockedMessage) lockedTree x := by
      intro x hx
      have hne : x ≠ "e" := by
        rintro rfl
        revert hx
        decide
      have hwalk := isWalkable_walk lockedTree x
      rwa [IsWalkable, lockedWalk, if_neg hne]
    have hpaths : lockedRequest.arguments = (["a.html", "d"] : List Text) ++ [("e" : Text)] := rfl
    have hwalked : lockedWalk "e" lockedMessage lockedTree "e" =
        [] ++ [WalkItem.fault 0 lockedMessage] := rfl
    obtain ⟨u, hreach, hu⟩ := (hhalts _).2
      (.directory hruns hpaths hfront (by decide) hwalked (by decide) rfl)
    exact ⟨u, hreach, hu, huntouched u _ hreach hu⟩
  · obtain ⟨-, -, hends, ⟨u, hreach, hend⟩, -⟩ :=
      broken_off_run_changes_nothing FileTree.walk mixedRequest
    have hreports : (match (run mixedRequest).ending with
        | .finished reports => reports.filterMap FileReport.output
        | _ => []) = [("A.vue" : Text)] := by
      decide +kernel
    have hwritten : u.written = [("A.vue" : Text)] := by
      cases hending : (run mixedRequest).ending with
      | finished reports =>
        rw [hending] at hreports
        exact (hend.written reports hending).trans hreports
      | usage fault =>
        rw [hending] at hreports
        cases hreports
      | fatal fault =>
        rw [hending] at hreports
        cases hreports
    refine ⟨u, hreach, hwritten, hends u u hreach (fun h => ?_) .refl⟩
    exact absurd (hwritten.symm.trans h.written) (List.cons_ne_nil _ _)
  · obtain ⟨-, -, -, -, hfatal⟩ :=
      broken_off_run_changes_nothing FileTree.walk strayRequest
    exact (hfatal (.config "x.json" (.unreadable .notFound))).2 (by decide +kernel)

end VueSfc
