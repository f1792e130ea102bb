import VueSfc.Proofs.Run.Settled

/-!
# The account of a run

The reports of a run over files account for it input by input. Each input has its turn, in the order
in which the inputs were collected, and its report tells whether it could be read, whether its
component was to be written, whether another input had claimed the path before, and how the write
ended in the tree that the turns before it had left. From the reports come the totals and the exit
code.
-/

namespace VueSfc

open VueSfc.Path FileTree Write

/-! ## Runs over files -/

/-- A run over files has accepted arguments, with paths among them, and a configuration and patterns
that can be read. -/
structure RunsOverFiles (r : Request) (o : Options) (s : RunSettings) (warnings : List Text) :
    Prop where
  /-- The arguments are accepted. -/
  accepted : Options.ofArguments r.arguments = .ok o
  /-- They do not ask for standard input. -/
  not_input : o.readsInput = false
  /-- The settings come from them and from the configuration. -/
  settled : ∃ c, loadConfiguration r.tree o.config = .ok (c, warnings) ∧
    RunSettings.resolve o c r.timingsVariable = .ok s

/-- A run over files converts them. -/
theorem RunsOverFiles.run_eq {r : Request} {o : Options} {s : RunSettings} {warnings : List Text}
    (h : RunsOverFiles r o s warnings) : run r = runFiles r o s warnings := by
  obtain ⟨c, hc, hs⟩ := h.settled
  simp only [run, h.accepted, runWith, hc, hs, h.not_input, Bool.false_eq_true, if_false]

/-- A run over files that does not print the components delivers its plan and reports on it. -/
theorem RunsOverFiles.run_eq_deliverAll {r : Request} {o : Options} {s : RunSettings}
    {warnings : List Text} (h : RunsOverFiles r o s warnings) (hp : o.printed = false) :
    (run r).tree = (deliverAll r.tree (planOf r.tree s o.paths)).tree ∧
      (run r).ending = .finished (deliverAll r.tree (planOf r.tree s o.paths)).reports ∧
      (run r).exitCode = exitCodeOf o (deliverAll r.tree (planOf r.tree s o.paths)).reports ∧
      (run r).output = deliveredText
        (o.format.render (deliverAll r.tree (planOf r.tree s o.paths)).reports) := by
  rw [h.run_eq, runFiles]
  simp only [hp, Bool.false_eq_true, if_false]
  exact ⟨rfl, rfl, rfl, rfl⟩

/-! ## Texts in files -/

/-- The file at a path is the UTF-8 form of a text. -/
def FileTree.HoldsText (t : FileTree) (path text : Text) : Prop :=
  t.entryOf path = .ok (.file (encodeText text))

/-- Bytes that can be read are those of the text that is read. -/
theorem decodeText?_eq_some_iff {bytes : Bytes} {text : Text} :
    decodeText? bytes = some text ↔ bytes = encodeText text := by
  constructor
  · intro h
    obtain ⟨letters, hd, rfl⟩ := Option.map_eq_some_iff.1 h
    have hs : (ByteArray.mk bytes.toArray).utf8Decode?.isSome = true := by rw [hd]; rfl
    have he := ByteArray.utf8Encode_get_utf8Decode? (h := hs)
    simp only [hd, Option.get_some] at he
    have hdata := congrArg (fun b : ByteArray => b.data.toList) he
    simpa [List.utf8Encode, encodeText] using hdata.symm
  · rintro rfl
    exact decodeText?_encodeText text

/-- A text is read just where it is held. -/
theorem readText_eq_ok_iff {t : FileTree} {path text : Text} :
    t.readText path = .ok text ↔ t.HoldsText path text := by
  rw [readText, HoldsText]
  cases t.entryOf path with
  | error fault => simp
  | ok entry =>
    cases entry with
    | directory => simp [Entry.text]
    | file content =>
      have hd : decodeText? content = some text ↔ content = encodeText text :=
        decodeText?_eq_some_iff
      simp only [Entry.text, Except.ok.injEq, Entry.file.injEq, ← hd]
      cases decodeText? content <;> simp

/-- Nothing is held where reading fails. -/
theorem not_holdsText_of_readText {t : FileTree} {path : Text} {fault : FileFault}
    (h : t.readText path = .error fault) : ¬ ∃ text, t.HoldsText path text := by
  rintro ⟨text, ht⟩
  rw [readText_eq_ok_iff.2 ht] at h
  contradiction

/-! ## Written components -/

section

variable {u : FileTree} {target output : Text}

/-- A component that is written without a fault stands at its path. -/
theorem holdsText_writeComponent (hu : u.IsSound) (ht : EndsInFile target)
    (h : (writeComponent u target output).2 = none) :
    (writeComponent u target output).1.HoldsText target (deliveredText output) := by
  rw [writeComponent_eq hu ht] at h ⊢
  have hplaced := isPlaced_ofTarget (t := u) ht output
  have hworking := workingDirectory_perform (ofTarget u target output) u
  have hreach := reach_eq_self ((fits_iff _ u).1 h).1
  have hdirs : ∀ p ∈ ((ofTarget u target output).perform u).1.way target,
      ((ofTarget u target output).perform u).1.entryAt? p = some .directory := by
    intro p hp
    rw [FileTree.way, hworking, ← FileTree.way] at hp
    exact entryAt?_perform_of_mem_reach hplaced.ne_nil (hreach.symm ▸ hp)
  have hfile : ((ofTarget u target output).perform u).1.entryAt? (u.destination target) =
      some (.file (encodeText (deliveredText output))) := by
    rw [entryAt?_perform hplaced.ne_nil]
    exact if_pos ⟨h, rfl⟩
  rw [HoldsText, entryOf, placeOf_eq_destination (hplaced.isSound_perform hu) ht hdirs,
    destination, hworking, ← destination]
  simp only [hfile]

/-- Writing a component keeps a tree sound. -/
theorem isSound_writeComponent (hu : u.IsSound) (ht : EndsInFile target) :
    (writeComponent u target output).1.IsSound := by
  rw [writeComponent_eq hu ht]
  exact (isPlaced_ofTarget ht output).isSound_perform hu

end

/-! ## What reports tell -/

/-- An input can be read and is converted to a text that is not empty. -/
def HasComponent (t : FileTree) (s : RunSettings) (input : InputFile) (output : Text) : Prop :=
  ∃ text, t.HoldsText input.path text ∧ (convert s.dialect text).output = output ∧ output ≠ []

/-- The path of the component of an input, compared by its components, is that of an earlier input
that has a component. -/
def IsClaimed (t : FileTree) (s : RunSettings) (earlier : List InputFile) (input : InputFile) :
    Prop :=
  ∃ first ∈ earlier, (∃ output, HasComponent t s first output) ∧
    components (first.componentPath s.outDir) = components (input.componentPath s.outDir)

/-- At its turn the component of an input is to be written: components are not printed, there is
one, and no earlier input has claimed its path. -/
def IsAttempted (t : FileTree) (s : RunSettings) (printed : Bool) (earlier : List InputFile)
    (input : InputFile) (output : Text) : Prop :=
  printed = false ∧ HasComponent t s input output ∧ ¬ IsClaimed t s earlier input

/-- A report tells what became of an input whose turn came in a tree, after some inputs, and left
another tree. What is read is read from the tree before all turns. -/
structure IsReportOn (t : FileTree) (s : RunSettings) (printed : Bool) (earlier : List InputFile)
    (u : FileTree) (input : InputFile) (report : FileReport) (v : FileTree) : Prop where
  /-- It names the input. -/
  input_eq : report.input = input.path
  /-- Reading failed just where the input holds no text. -/
  readFailed_iff : report.status = .readFailed ↔ ¬ ∃ text, t.HoldsText input.path text
  /-- Writing failed just where a component was to be written and its path had been claimed or its
  write failed. -/
  writeFailed_iff : report.status = .writeFailed ↔ printed = false ∧
    ∃ output, HasComponent t s input output ∧ (IsClaimed t s earlier input ∨
      (writeComponent u (input.componentPath s.outDir) output).2 ≠ none)
  /-- If neither failed, it tells how the conversion of the text ended. -/
  ended : ∀ text, t.HoldsText input.path text → report.status ≠ .writeFailed →
    report.status = .ended (convert s.dialect text).outcome
  /-- It has a path just where the component was written to that path. -/
  output_eq_some_iff : ∀ path, report.output = some path ↔
    path = input.componentPath s.outDir ∧ ∃ output, IsAttempted t s printed earlier input output ∧
      writeComponent u path output = (v, none)
  /-- A path that it has holds the component then. -/
  holds : t.IsSound → ∀ path, report.output = some path →
    ∃ output, HasComponent t s input output ∧ v.HoldsText path (deliveredText output)
  /-- The turn leaves what the attempt to write a component leaves. -/
  attempted : ∀ output, IsAttempted t s printed earlier input output →
    v = (writeComponent u (input.componentPath s.outDir) output).1
  /-- Without an attempt the turn changes nothing. -/
  untouched : (∀ output, ¬ IsAttempted t s printed earlier input output) → v = u

/-- Reports that tell what became of inputs, turn after turn, from one tree to another. -/
inductive Account (t : FileTree) (s : RunSettings) (printed : Bool) :
    List InputFile → FileTree → List InputFile → List FileReport → FileTree → Prop
  /-- No input is left. -/
  | nil {earlier : List InputFile} {u : FileTree} : Account t s printed earlier u [] [] u
  /-- The turn of one input and those of the others. -/
  | cons {earlier rest : List InputFile} {u v w : FileTree} {input : InputFile}
      {report : FileReport} {reports : List FileReport}
      (turn : IsReportOn t s printed earlier u input report v)
      (others : Account t s printed (earlier ++ [input]) v rest reports w) :
      Account t s printed earlier u (input :: rest) (report :: reports) w

section

variable {t u v : FileTree} {s : RunSettings} {printed : Bool} {earlier : List InputFile}
  {input : InputFile} {text : Text}

/-- An account has one report on each input, in their order. -/
theorem Account.map_input {inputs : List InputFile} {reports : List FileReport}
    (h : Account t s printed earlier u inputs reports v) :
    reports.map FileReport.input = inputs.map InputFile.path := by
  induction h with
  | nil => rfl
  | cons turn _ ih => rw [List.map_cons, List.map_cons, turn.input_eq, ih]

/-- A file holds at most one text. -/
theorem FileTree.HoldsText.unique {path text other : Text} (h : t.HoldsText path text)
    (ho : t.HoldsText path other) : text = other :=
  Except.ok.inj ((readText_eq_ok_iff.2 h).symm.trans (readText_eq_ok_iff.2 ho))

/-- The component of an input is the conversion of what it holds, unless that is empty. -/
theorem hasComponent_iff (h : t.HoldsText input.path text) {output : Text} :
    HasComponent t s input output ↔
      (convert s.dialect text).output = output ∧ output ≠ [] := by
  constructor
  · rintro ⟨other, ho, hc⟩
    rwa [← h.unique ho] at hc
  · exact fun hc => ⟨text, h, hc⟩

/-- An input without a text has no component. -/
theorem not_hasComponent (h : ¬ ∃ text, t.HoldsText input.path text) {output : Text} :
    ¬ HasComponent t s input output :=
  fun ⟨text, ht, _⟩ => h ⟨text, ht⟩

/-- The output of a file is the component of its input. -/
theorem output?_ofInput_eq_some_iff {output : Text} :
    (ReadFile.ofInput t s.dialect input).output? = some output ↔
      HasComponent t s input output := by
  rw [ReadFile.output?, ReadFile.ofInput]
  cases hr : t.readText input.path with
  | error fault => simp [Except.map, not_hasComponent (not_holdsText_of_readText hr)]
  | ok text =>
    rw [hasComponent_iff (readText_eq_ok_iff.1 hr)]
    simp only [Except.map, Option.ite_none_left_eq_some, Option.some.injEq, List.isEmpty_iff]
    constructor
    · rintro ⟨hne, rfl⟩
      exact ⟨rfl, hne⟩
    · rintro ⟨rfl, hne⟩
      exact ⟨hne, rfl⟩

/-! ## One turn -/

/-- An input that cannot be read is reported as such, and changes nothing. -/
theorem isReportOn_of_unreadable (h : ¬ ∃ text, t.HoldsText input.path text)
    (message : Text) :
    IsReportOn t s printed earlier u input (failedReport input.path .readFailed message) u where
  input_eq := rfl
  readFailed_iff := iff_of_true rfl h
  writeFailed_iff := iff_of_false (by rintro ⟨⟩) fun ⟨_, _, hc, _⟩ => not_hasComponent h hc
  ended text ht := absurd ⟨text, ht⟩ h
  output_eq_some_iff _ :=
    iff_of_false (by rintro ⟨⟩) fun ⟨_, _, ha, _⟩ => not_hasComponent h ha.2.1
  holds _ _ hp := by cases hp
  attempted _ ha := absurd ha.2.1 (not_hasComponent h)
  untouched _ := rfl

/-- An input whose component is not to be written gets a report of how its conversion ended, and
changes nothing. -/
theorem isReportOn_of_not_written (h : t.HoldsText input.path text)
    (hn : printed = false → (convert s.dialect text).output = []) :
    IsReportOn t s printed earlier u input
      (endedReport input.path none (convert s.dialect text)) u := by
  have hnone (output : Text) : ¬ (printed = false ∧ HasComponent t s input output) := by
    rintro ⟨hp, hc⟩
    obtain ⟨rfl, hne⟩ := (hasComponent_iff h).1 hc
    exact hne (hn hp)
  exact
    { input_eq := rfl
      readFailed_iff := iff_of_false (by rintro ⟨⟩) fun hr => hr ⟨text, h⟩
      writeFailed_iff :=
        iff_of_false (by rintro ⟨⟩) fun ⟨hp, output, hc, _⟩ => hnone output ⟨hp, hc⟩
      ended := fun other ho _ => by rw [← h.unique ho]; rfl
      output_eq_some_iff := fun path =>
        iff_of_false (by rintro ⟨⟩) fun ⟨_, output, ha, _⟩ => hnone output ⟨ha.1, ha.2.1⟩
      holds := fun _ _ hp => by cases hp
      attempted := fun output ha => absurd ⟨ha.1, ha.2.1⟩ (hnone output)
      untouched := fun _ => rfl }

/-- An input whose path has been claimed is reported as not written, and changes nothing. -/
theorem isReportOn_of_claimed {output : Text} (h : HasComponent t s input output)
    (hc : IsClaimed t s earlier input) (message : Text) :
    IsReportOn t s false earlier u input (failedReport input.path .writeFailed message) u where
  input_eq := rfl
  readFailed_iff := by
    obtain ⟨text, ht, -⟩ := h
    exact iff_of_false (by rintro ⟨⟩) fun hr => hr ⟨text, ht⟩
  writeFailed_iff := iff_of_true rfl ⟨rfl, output, h, .inl hc⟩
  ended _ _ hn := absurd rfl hn
  output_eq_some_iff _ := iff_of_false (by rintro ⟨⟩) fun ⟨_, _, ha, _⟩ => ha.2.2 hc
  holds _ _ hp := by cases hp
  attempted _ ha := absurd hc ha.2.2
  untouched _ := rfl

/-- An input that is written gets a report of how the write ended. -/
theorem isReportOn_of_attempted (hu : t.IsSound → u.IsSound) (h : t.HoldsText input.path text)
    (hne : (convert s.dialect text).output ≠ []) (hn : ¬ IsClaimed t s earlier input)
    {fault : Option FileFault}
    (hw : writeComponent u (input.componentPath s.outDir) (convert s.dialect text).output =
      (v, fault)) :
    IsReportOn t s false earlier u input
      (writeReport input.path (input.componentPath s.outDir) (convert s.dialect text) fault) v := by
  have hcomponent {output : Text} :
      HasComponent t s input output ↔ output = (convert s.dialect text).output := by
    rw [hasComponent_iff h]
    constructor
    · exact fun hc => hc.1.symm
    · rintro rfl
      exact ⟨rfl, hne⟩
  have hattempt {output : Text} :
      IsAttempted t s false earlier input output ↔ output = (convert s.dialect text).output := by
    rw [IsAttempted, hcomponent]
    exact ⟨fun ha => ha.2.1, fun he => ⟨rfl, he, hn⟩⟩
  refine ⟨?_, ?_, ?_, ?_, ?_, ?_, ?_, ?_⟩
  · cases fault <;> rfl
  · refine iff_of_false ?_ fun hr => hr ⟨text, h⟩
    cases fault <;> rintro ⟨⟩
  · simp only [hcomponent, exists_eq_left, hn, false_or, hw, true_and]
    cases fault <;> simp [writeReport, endedReport, failedReport]
  · intro other ho hs
    rw [← h.unique ho]
    cases fault with
    | none => rfl
    | some fault => exact absurd rfl hs
  · intro path
    simp only [hattempt, exists_eq_left]
    cases fault with
    | none =>
      simp only [writeReport, endedReport, Option.some.injEq]
      constructor
      · rintro rfl
        exact ⟨rfl, hw⟩
      · exact fun hp => hp.1.symm
    | some fault =>
      refine iff_of_false (by rintro ⟨⟩) ?_
      rintro ⟨rfl, he⟩
      rw [hw] at he
      cases (Prod.mk.inj he).2
  · intro ht path hp
    cases fault with
    | none =>
      obtain rfl : input.componentPath s.outDir = path := Option.some.inj hp
      have hheld := holdsText_writeComponent (hu ht)
        (endsInFile_componentPath input s.outDir) (congrArg Prod.snd hw)
      rw [hw] at hheld
      exact ⟨_, hcomponent.2 rfl, hheld⟩
    | some fault => cases hp
  · intro output ha
    rw [hattempt.1 ha, hw]
  · intro hnone
    exact absurd (hattempt.2 rfl) (hnone _)

/-- What an input is given at its turn: nothing without a component, the path of the component, or a
conflict over that path. -/
inductive IsTargetFor (t : FileTree) (s : RunSettings) (earlier : List InputFile)
    (input : InputFile) : Target → Prop
  /-- There is no component. -/
  | nothing (h : ∀ output, ¬ HasComponent t s input output) : IsTargetFor t s earlier input .nothing
  /-- No earlier input has claimed the path. -/
  | path {output : Text} (h : HasComponent t s input output) (hn : ¬ IsClaimed t s earlier input) :
      IsTargetFor t s earlier input (.path (input.componentPath s.outDir))
  /-- An earlier input has claimed the path. -/
  | conflict {output first : Text} (h : HasComponent t s input output)
      (hc : IsClaimed t s earlier input) :
      IsTargetFor t s earlier input (.conflict (input.componentPath s.outDir) first)

/-- Delivering an input to its target is a turn that keeps the tree sound. -/
theorem isReportOn_deliver (hu : t.IsSound → u.IsSound) {target : Target}
    (ht : IsTargetFor t s earlier input target) :
    IsReportOn t s false earlier u input
        (deliver u (ReadFile.ofInput t s.dialect input) target).report
        (deliver u (ReadFile.ofInput t s.dialect input) target).tree ∧
      (t.IsSound → (deliver u (ReadFile.ofInput t s.dialect input) target).tree.IsSound) := by
  cases hr : t.readText input.path with
  | error fault =>
    simp only [deliver, ReadFile.ofInput, hr, Except.map]
    exact ⟨isReportOn_of_unreadable (not_holdsText_of_readText hr) _, hu⟩
  | ok text =>
    have htext := readText_eq_ok_iff.1 hr
    cases ht with
    | nothing h =>
      have hempty : (convert s.dialect text).output = [] := by
        by_contra hne
        exact h _ ((hasComponent_iff htext).2 ⟨rfl, hne⟩)
      simp only [deliver, ReadFile.ofInput, hr, Except.map]
      exact ⟨isReportOn_of_not_written htext fun _ => hempty, hu⟩
    | conflict h hc =>
      simp only [deliver, ReadFile.ofInput, hr, Except.map]
      exact ⟨isReportOn_of_claimed h hc _, hu⟩
    | path h hn =>
      obtain ⟨rfl, hne⟩ := (hasComponent_iff htext).1 h
      have hsound (ht : t.IsSound) : (writeComponent u (input.componentPath s.outDir)
          (convert s.dialect text).output).1.IsSound :=
        isSound_writeComponent (hu ht) (endsInFile_componentPath input s.outDir)
      simp only [deliver, ReadFile.ofInput, hr, Except.map]
      cases hw : writeComponent u (input.componentPath s.outDir)
          (convert s.dialect text).output with
      | mk v fault =>
        rw [hw] at hsound
        have hturn := isReportOn_of_attempted hu htext hne hn hw
        cases fault <;> exact ⟨hturn, hsound⟩

/-! ## All turns -/

/-- Some claims are those of the inputs with a component among some inputs. -/
def AreClaimsOf (t : FileTree) (s : RunSettings) (earlier : List InputFile) (claims : Claims) :
    Prop :=
  ∀ input, (∃ first, claims.lookup (components (input.componentPath s.outDir)) = some first) ↔
    IsClaimed t s earlier input

/-- A path is claimed among some inputs and one more just where it is claimed among those or the one
more claims it. -/
theorem isClaimed_concat_iff {other : InputFile} :
    IsClaimed t s (earlier ++ [input]) other ↔ IsClaimed t s earlier other ∨
      (∃ output, HasComponent t s input output) ∧
        components (input.componentPath s.outDir) = components (other.componentPath s.outDir) := by
  simp only [IsClaimed, List.mem_append, List.mem_singleton, or_and_right, exists_or,
    exists_eq_left]

/-- An input with a component that claims its path joins the claims. -/
theorem AreClaimsOf.cons {claims : Claims} {output : Text} (hc : AreClaimsOf t s earlier claims)
    (h : HasComponent t s input output) :
    AreClaimsOf t s (earlier ++ [input])
      ((components (input.componentPath s.outDir), input.path) :: claims) := by
  intro other
  rw [isClaimed_concat_iff, ← hc other, List.lookup_cons]
  by_cases he : components (other.componentPath s.outDir) =
      components (input.componentPath s.outDir)
  · simp only [he, beq_self_eq_true]
    exact iff_of_true ⟨_, rfl⟩ (.inr ⟨⟨output, h⟩, trivial⟩)
  · simp [beq_false_of_ne he, Ne.symm he]

/-- An input that claims nothing of its own leaves the claims as they are. -/
theorem AreClaimsOf.concat {claims : Claims} (hc : AreClaimsOf t s earlier claims)
    (h : ∀ output, HasComponent t s input output → IsClaimed t s earlier input) :
    AreClaimsOf t s (earlier ++ [input]) claims := by
  intro other
  rw [hc other, isClaimed_concat_iff]
  constructor
  · exact .inl
  · rintro (he | ⟨⟨output, ho⟩, he⟩)
    · exact he
    · obtain ⟨first, hm, hf, hp⟩ := h output ho
      exact ⟨first, hm, hf, hp.trans he⟩

/-- The first of some inputs is given a target for it, and the others theirs after it. -/
theorem exists_assignTargets_cons {claims : Claims} (hc : AreClaimsOf t s earlier claims)
    (input : InputFile) (rest : List ReadFile) :
    ∃ target claims', IsTargetFor t s earlier input target ∧
      AreClaimsOf t s (earlier ++ [input]) claims' ∧
      assignTargets s.outDir claims (ReadFile.ofInput t s.dialect input :: rest) =
        (ReadFile.ofInput t s.dialect input, target) :: assignTargets s.outDir claims' rest := by
  rw [assignTargets]
  cases ho : (ReadFile.ofInput t s.dialect input).output? with
  | none =>
    have hnone : ∀ output, ¬ HasComponent t s input output := by
      intro output h
      rw [output?_ofInput_eq_some_iff.2 h] at ho
      contradiction
    exact ⟨.nothing, claims, .nothing hnone, hc.concat fun _ h => absurd h (hnone _), rfl⟩
  | some output =>
    have h := output?_ofInput_eq_some_iff.1 ho
    have hinput : (ReadFile.ofInput t s.dialect input).input = input := rfl
    simp only [hinput]
    cases hl : claims.lookup (components (input.componentPath s.outDir)) with
    | some first =>
      have hclaimed := (hc input).1 ⟨first, hl⟩
      exact ⟨_, claims, .conflict h hclaimed, hc.concat fun _ _ => hclaimed, rfl⟩
    | none =>
      have hfree : ¬ IsClaimed t s earlier input := by
        intro hclaimed
        obtain ⟨first, hf⟩ := (hc input).2 hclaimed
        rw [hl] at hf
        contradiction
      exact ⟨_, _, .path h hfree, hc.cons h, rfl⟩

/-- A plan gives each of some inputs, which come after others, a target for it. -/
inductive AreTargetsFor (t : FileTree) (s : RunSettings) :
    List InputFile → List InputFile → List Planned → Prop
  /-- No input is left. -/
  | nil {earlier : List InputFile} : AreTargetsFor t s earlier [] []
  /-- The target of one input and those of the others. -/
  | cons {earlier rest : List InputFile} {input : InputFile} {target : Target}
      {plan : List Planned} (first : IsTargetFor t s earlier input target)
      (others : AreTargetsFor t s (earlier ++ [input]) rest plan) :
      AreTargetsFor t s earlier (input :: rest)
        ((ReadFile.ofInput t s.dialect input, target) :: plan)

/-- The targets that are assigned to inputs are a plan for them. -/
theorem areTargetsFor_assignTargets {claims : Claims} (hc : AreClaimsOf t s earlier claims)
    (inputs : List InputFile) :
    AreTargetsFor t s earlier inputs
      (assignTargets s.outDir claims (inputs.map (ReadFile.ofInput t s.dialect))) := by
  induction inputs generalizing earlier claims with
  | nil => exact .nil
  | cons input inputs ih =>
    obtain ⟨target, claims', htarget, hclaims, he⟩ := exists_assignTargets_cons hc input
      (inputs.map (ReadFile.ofInput t s.dialect))
    rw [List.map_cons, he]
    exact .cons htarget (ih hclaims)

/-- The targets that are planned for inputs are a plan for them. -/
theorem areTargetsFor_planTargets (inputs : List InputFile) :
    AreTargetsFor t s [] inputs
      (planTargets s.outDir (inputs.map (ReadFile.ofInput t s.dialect))) :=
  areTargetsFor_assignTargets (fun input => by simp [IsClaimed]) inputs

/-- The reports of delivered files account for their inputs. -/
theorem AreTargetsFor.account_deliverAll {inputs : List InputFile} {plan : List Planned}
    (h : AreTargetsFor t s earlier inputs plan) (hu : t.IsSound → u.IsSound) :
    Account t s false earlier u inputs (deliverAll u plan).reports (deliverAll u plan).tree := by
  induction h generalizing u with
  | nil => exact .nil
  | cons first _ ih =>
    obtain ⟨hturn, hsound⟩ := isReportOn_deliver hu first
    exact .cons hturn (ih hsound)

/-- The reports of printed files account for their inputs. -/
theorem account_printed (inputs : List InputFile) :
    Account t s true earlier u inputs
      ((inputs.map (ReadFile.ofInput t s.dialect)).map fun file => (printedReport file).1) u := by
  induction inputs generalizing earlier with
  | nil => exact .nil
  | cons input inputs ih =>
    refine .cons (v := u) ?_ ih
    cases hr : t.readText input.path with
    | error fault =>
      simp only [printedReport, ReadFile.ofInput, hr, Except.map]
      exact isReportOn_of_unreadable (not_holdsText_of_readText hr) _
    | ok text =>
      simp only [printedReport, ReadFile.ofInput, hr, Except.map]
      exact isReportOn_of_not_written (readText_eq_ok_iff.1 hr) (by rintro ⟨⟩)

/-- Within a run over files the reports account for the inputs. -/
theorem RunsOverFiles.account {r : Request} {o : Options} {warnings : List Text}
    (h : RunsOverFiles r o s warnings) :
    ∃ reports, (run r).ending = .finished reports ∧
      Account r.tree s o.printed [] r.tree (InputFile.collect r.tree s o.paths) reports
        (run r).tree ∧
      (run r).exitCode = exitCodeOf o reports ∧
      (if o.printed then (run r).sideReport else some (run r).output) =
        some (deliveredText (o.format.render reports)) := by
  rw [h.run_eq, runFiles]
  cases hp : o.printed with
  | true => exact ⟨_, rfl, account_printed _, rfl, rfl⟩
  | false => exact ⟨_, rfl, (areTargetsFor_planTargets _).account_deliverAll id, rfl, rfl⟩

end

/-! ## Totals and exit codes -/

/-- A file that was converted is one whose conversion ended with a component. -/
theorem FileStatus.isConverted_iff {status : FileStatus} :
    status.isConverted = true ↔ status = .ended .converted := by
  cases status with
  | ended outcome => cases outcome <;> simp [isConverted, Outcome.isConverted]
  | readFailed => simp [isConverted]
  | writeFailed => simp [isConverted]

/-- An error is a failure to read or to write. -/
theorem FileStatus.isError_iff {status : FileStatus} :
    status.isError = true ↔ status = .readFailed ∨ status = .writeFailed := by
  cases status <;> simp [isError]

/-- Every file is converted, not converted, or an error, and no file is two of these. -/
theorem Totals.files_eq (reports : List FileReport) :
    (Totals.ofReports reports).files = (Totals.ofReports reports).converted +
      (Totals.ofReports reports).notConverted + (Totals.ofReports reports).errors := by
  simp only [Totals.ofReports]
  induction reports with
  | nil => rfl
  | cons report reports ih =>
    have hone : ¬ (report.status.isConverted = true ∧ report.status.isError = true) := by
      rw [FileStatus.isConverted_iff]
      rintro ⟨hc, he⟩
      rw [hc] at he
      contradiction
    simp only [List.length_cons, List.countP_cons, ih]
    cases hc : report.status.isConverted <;> cases he : report.status.isError <;>
      simp_all <;> omega

/-- The exit code is 1 where some file is an error, or where all files are to be converted and one
is not, and else it is 0. -/
theorem exitCodeOf_eq (o : Options) (reports : List FileReport) :
    (exitCodeOf o reports = 1 ↔
      (∃ report ∈ reports, report.status = .readFailed ∨ report.status = .writeFailed) ∨
        o.failOnInvalid = true ∧ ∃ report ∈ reports, report.status ≠ .ended .converted) ∧
      (exitCodeOf o reports ≠ 1 → exitCodeOf o reports = 0) := by
  have herrors : hasErrors reports = true ↔
      ∃ report ∈ reports, report.status = .readFailed ∨ report.status = .writeFailed := by
    simp only [hasErrors, List.any_eq_true, FileStatus.isError_iff]
  have hall : allConverted reports = false ↔
      ∃ report ∈ reports, report.status ≠ .ended .converted := by
    rw [allConverted, ← Bool.not_eq_true, List.all_eq_true]
    simp only [FileStatus.isConverted_iff, not_forall, exists_prop, ne_eq]
  rw [exitCodeOf, ← herrors, ← hall]
  cases hasErrors reports <;> cases o.failOnInvalid <;> cases allConverted reports <;> decide

/-- Reports on some inputs are summed up by their totals and by an exit code. -/
structure AreSummedUp (o : Options) (inputs : List InputFile) (reports : List FileReport)
    (exitCode : Nat) : Prop where
  /-- There is one report on each input, in the order of the inputs. -/
  map_input_eq : reports.map FileReport.input = inputs.map InputFile.path
  /-- All inputs are counted. -/
  files_eq_length : (Totals.ofReports reports).files = inputs.length
  /-- Each of them counts as converted, as not converted, or as an error. -/
  files_eq_add : (Totals.ofReports reports).files = (Totals.ofReports reports).converted +
    (Totals.ofReports reports).notConverted + (Totals.ofReports reports).errors
  /-- The exit code is 1 where some report is an error, or where inputs that are not converted are
  to fail the run and there is one. -/
  exitCode_eq_one_iff : exitCode = 1 ↔
    (∃ report ∈ reports, report.status = .readFailed ∨ report.status = .writeFailed) ∨
      o.failOnInvalid = true ∧ ∃ report ∈ reports, report.status ≠ .ended .converted
  /-- Otherwise it is 0. -/
  exitCode_eq_zero : exitCode ≠ 1 → exitCode = 0

/-- Reports that name inputs in their order are summed up by the exit code for them. -/
theorem areSummedUp_exitCodeOf (o : Options) {inputs : List InputFile} {reports : List FileReport}
    (h : reports.map FileReport.input = inputs.map InputFile.path) :
    AreSummedUp o inputs reports (exitCodeOf o reports) where
  map_input_eq := h
  files_eq_length := by
    have hlength := congrArg List.length h
    rwa [List.length_map, List.length_map] at hlength
  files_eq_add := Totals.files_eq reports
  exitCode_eq_one_iff := (exitCodeOf_eq o reports).1
  exitCode_eq_zero := (exitCodeOf_eq o reports).2

end VueSfc
