import VueSfc.Proofs.Run.Account
import VueSfc.Proofs.Run.Redo

/-!
# Running a second time

A run over directories, without a configuration file, can be repeated on the tree that it has left.
The components that it has written are no pages, so the same inputs are collected and the same
components are planned, and what could be written before can be written again. The only thing that
can be said in another way is why a first write failed.
-/

namespace VueSfc

open VueSfc.Path FileTree Write

/-- The same request on the tree that it has left. -/
def Request.again (r : Request) : Request := { r with tree := (run r).tree }

/-- The arguments name directories and leave it at that: components are written to files, and there
is no configuration. -/
structure NamesDirectories (r : Request) (o : Options) : Prop where
  /-- The arguments are accepted. -/
  accepted : Options.ofArguments r.arguments = .ok o
  /-- There are paths. -/
  paths_ne_nil : o.paths ≠ []
  /-- The paths are those of directories. -/
  directories : ∀ path ∈ o.paths, r.tree.isDirectory path = true
  /-- No configuration file is named. -/
  config_eq_none : o.config = none
  /-- Components are not printed. -/
  not_printed : o.printed = false
  /-- There is no configuration file to be found. -/
  not_configured : r.tree.exists? configFileName = false

variable {r : Request} {o : Options} {s : RunSettings} {warnings : List Text} {t u : FileTree}

/-! ## Settings -/

/-- Where no configuration file is found, there is no configuration. -/
theorem loadConfiguration_of_not_exists (h : t.exists? configFileName = false) :
    loadConfiguration t none = .ok (.empty, []) := by
  simp only [loadConfiguration, h, Bool.false_eq_true, if_false]

/-- The configuration file is looked for in the working directory. -/
theorem placeOf_configFileName (ht : t.IsSound) :
    t.placeOf configFileName = .ok (t.workingDirectory ++ [configFileName]) := by
  have hsplit : split configFileName = (.relative, [configFileName]) := by decide
  have hstep : stepFrom t.workingDirectory configFileName =
      t.workingDirectory ++ [configFileName] := by
    rw [stepFrom, if_neg (by decide), if_neg (by decide)]
  rw [placeOf, if_neg (by decide), hsplit]
  simp only [follow, ht.working, hstep]

/-- A tree that has grown without a configuration has none: what stands at its place, if anything
does, is a directory. -/
theorem loadConfiguration_of_grows (hg : Grows t u) (ht : t.IsSound)
    (h : t.exists? configFileName = false) :
    ∃ warnings, loadConfiguration u none = .ok (.empty, warnings) := by
  have hplace := placeOf_configFileName ht
  have hplace' := hg.placeOf_eq_ok hplace
  have hnone : t.entryAt? (t.workingDirectory ++ [configFileName]) = none := by
    rw [exists?, entryOf, hplace] at h
    cases he : t.entryAt? (t.workingDirectory ++ [configFileName]) with
    | none => rfl
    | some entry => simp [he] at h
  have hname : ¬ IsComponentPlace (t.workingDirectory ++ [configFileName]) := by
    rintro ⟨name, hn, hv⟩
    rw [List.getLast?_concat] at hn
    obtain rfl := Option.some.inj hn
    exact absurd hv (by decide)
  rcases hg.other hname with he | ⟨-, he⟩
  · refine ⟨[], loadConfiguration_of_not_exists ?_⟩
    simp only [exists?, entryOf, hplace', he, hnone]
  · have hexists : u.exists? configFileName = true := by
      simp only [exists?, entryOf, hplace', he]
    have hfile : Configuration.ofFile u configFileName = .error (.unreadable .isDirectory) := by
      simp only [Configuration.ofFile, readText, entryOf, hplace', he, Entry.text]
    simp only [loadConfiguration, hexists, if_true, hfile]
    exact ⟨_, rfl⟩

/-- Without a configuration the pages are the files with the usual extensions. -/
theorem extensions_of_resolve {asked : Option Text}
    (h : RunSettings.resolve o .empty asked = .ok s) :
    s.extensions = Configuration.defaultExtensions := by
  rw [RunSettings.resolve] at h
  cases hp : readPatterns (Configuration.empty.ignore ++ o.ignore) with
  | error fault =>
    rw [hp] at h
    contradiction
  | ok ignore =>
    rw [hp] at h
    rw [← Except.ok.inj h]
    exact (by decide : Configuration.empty.fileExtensions.map Text.lowerAscii =
      Configuration.defaultExtensions)

/-! ## Runs over directories -/

namespace NamesDirectories

variable (h : NamesDirectories r o)
include h

/-- The settings of a run without a configuration come from the command line. -/
theorem resolve_eq_ok (hr : RunsOverFiles r o s warnings) :
    RunSettings.resolve o .empty r.timingsVariable = .ok s := by
  obtain ⟨c, hc, hs⟩ := hr.settled
  rw [h.config_eq_none, loadConfiguration_of_not_exists h.not_configured] at hc
  rwa [← (Prod.mk.inj (Except.ok.inj hc)).1] at hs

/-- A run that does not get as far as its files leaves the tree as it is. -/
theorem again_eq (hr : ∀ s warnings, ¬ RunsOverFiles r o s warnings) : r.again = r := by
  have hload := loadConfiguration_of_not_exists h.not_configured
  have htree : (run r).tree = r.tree := by
    simp only [run, h.accepted, runWith, h.config_eq_none, hload]
    cases hs : RunSettings.resolve o .empty r.timingsVariable with
    | error fault => rfl
    | ok s =>
      by_cases hi : o.readsInput = true
      · simp only [hi, if_true, runInput]
        split <;> rfl
      · refine absurd ⟨h.accepted, by simpa using hi, .empty, ?_, hs⟩ (hr s [])
        rw [h.config_eq_none, hload]
  rw [Request.again, htree]

end NamesDirectories

/-! ## Reports that differ in a fault -/

namespace DifferInFault

variable {first second : List FileReport} (h : DifferInFault first second)
include h

/-- The exit code does not tell the faults apart. -/
theorem exitCodeOf_eq (o : Options) : exitCodeOf o second = exitCodeOf o first := by
  obtain ⟨before, report, behind, -, rfl, rfl⟩ := h
  simp only [exitCodeOf, hasErrors, allConverted, List.any_append, List.any_cons, List.all_append,
    List.all_cons]

/-- The lines for machines do not tell the faults apart. -/
theorem machine_eq : Report.machine second = Report.machine first := by
  obtain ⟨before, report, behind, -, rfl, rfl⟩ := h
  simp only [Report.machine, List.map_append, List.map_cons, Report.machineLine]

end DifferInFault

/-! ## The second run -/

/-- A second run over files says what the first one has said. -/
structure Repeats (r : Request) (o : Options) (s : RunSettings) : Prop where
  /-- It has the same settings. -/
  settled : ∃ warnings, RunsOverFiles r.again o s warnings
  /-- It collects the same inputs. -/
  collect_eq : InputFile.collect (run r).tree s o.paths = InputFile.collect r.tree s o.paths
  /-- Its reports and its text are the same if the first write is not misled. -/
  same : ¬ FirstIsMisled r.tree (planOf r.tree s o.paths) →
    (run r.again).ending = (run r).ending ∧ (run r.again).output = (run r).output
  /-- Its reports differ in the fault of that write if it is, and its lines for machines do not. -/
  differ : FirstIsMisled r.tree (planOf r.tree s o.paths) → ∃ first second,
    (run r).ending = .finished first ∧ (run r.again).ending = .finished second ∧
      DifferInFault first second ∧ (run r).output = deliveredText (o.format.render first) ∧
      (run r.again).output = deliveredText (o.format.render second) ∧
      (o.format = .machine → (run r.again).output = (run r).output)

/-- A run over files can be repeated. -/
theorem NamesDirectories.repeats (h : NamesDirectories r o) (ht : r.tree.IsSound)
    (hn : r.tree.HasNames) (hr : RunsOverFiles r o s warnings) :
    (run r.again).tree = (run r).tree ∧ (run r.again).exitCode = (run r).exitCode ∧
      Repeats r o s := by
  have hs := h.resolve_eq_ok hr
  have hext := extensions_of_resolve hs
  have hplan := hasComponentTargets_planOf r.tree s o.paths
  obtain ⟨htree, hending, hcode, houtput⟩ := hr.run_eq_deliverAll h.not_printed
  obtain ⟨hu, hg⟩ := grows_deliverAll ht hplan
  rw [← htree] at hu hg
  -- The second run has the same settings, inputs and plan.
  obtain ⟨warnings', hload⟩ := loadConfiguration_of_grows hg ht h.not_configured
  have hr' : RunsOverFiles r.again o s warnings' :=
    ⟨h.accepted, hr.not_input, .empty, by rw [h.config_eq_none]; exact hload, hs⟩
  obtain ⟨htree', hending', hcode', houtput'⟩ := hr'.run_eq_deliverAll h.not_printed
  have hplan' : planOf r.again.tree s o.paths = planOf r.tree s o.paths :=
    planOf_of_grows hg ht hu hext h.directories hn
  rw [hplan'] at htree' hending' hcode' houtput'
  obtain ⟨hend, hequal, hdiffer⟩ := deliverAll_again ht hplan
    (fun x hx a ha t' ht' hk y hy b hb => not_isMisled_after ht hn hx hy ha ht' hk hb)
    (Redoing.start (htree ▸ hu) r.tree)
  rw [← htree] at hend hequal hdiffer
  refine ⟨htree'.trans hend, ?_, ⟨warnings', hr'⟩,
    collect_of_grows hg ht hu hext h.directories, fun hm => ?_, fun hm => ?_⟩
  · rw [hcode', hcode]
    by_cases hm : FirstIsMisled r.tree (planOf r.tree s o.paths)
    · exact (hdiffer hm).exitCodeOf_eq o
    · exact congrArg (exitCodeOf o) (hequal hm)
  · rw [hending', hending, houtput', houtput]
    exact ⟨congrArg Ending.finished (hequal hm),
      congrArg (fun reports => deliveredText (o.format.render reports)) (hequal hm)⟩
  · refine ⟨_, _, hending, hending', hdiffer hm, houtput, houtput', fun hf => ?_⟩
    rw [houtput', houtput, hf]
    exact congrArg deliveredText (hdiffer hm).machine_eq

/-- A run over directories, without a configuration, can be repeated on the tree that it has left.
The second run changes nothing and has the same exit code. It collects the same inputs, and unless
the first write of the run is misled it ends with the same reports and writes the same text. If that
write is misled, it fails both times, and the reports agree but for the fault that is given for it,
so the lines for machines are still the same. A run that does not get as far as its files is
repeated as it was. All this is about trees of directories and files, in which there are no
links. -/
theorem rerun_changes_nothing (ht : r.tree.IsSound) (hn : r.tree.HasNames)
    (h : NamesDirectories r o) :
    (run r.again).tree = (run r).tree ∧ (run r.again).exitCode = (run r).exitCode ∧
      (∀ s warnings, RunsOverFiles r o s warnings → Repeats r o s) ∧
      ((∀ s warnings, ¬ RunsOverFiles r o s warnings) → r.again = r) := by
  by_cases hr : ∃ s warnings, RunsOverFiles r o s warnings
  · obtain ⟨s, warnings, hr⟩ := hr
    obtain ⟨htree, hcode, -⟩ := h.repeats ht hn hr
    exact ⟨htree, hcode, fun s warnings hr => (h.repeats ht hn hr).2.2,
      fun hnone => absurd hr (hnone s warnings)⟩
  · have hnone : ∀ s warnings, ¬ RunsOverFiles r o s warnings :=
      fun s warnings hs => hr ⟨s, warnings, hs⟩
    have hagain := h.again_eq hnone
    rw [hagain]
    exact ⟨rfl, rfl, fun s warnings hs => absurd hs (hnone s warnings), fun _ => rfl⟩

/-- A page in a directory, and a file beside the directory. -/
def siteTree : FileTree :=
  let page : Text := "<p>a</p>"
  (((FileTree.empty []).set ["site"] .directory).set ["site", "a.html"]
    (.file (encodeText page))).set ["file"] (.file [])

/-- A run over the directory that writes to another one. -/
def siteRequest (outDir : Text) : Request :=
  ⟨["site", "--out-dir", outDir], .file [], none, siteTree⟩

/-- The options of the run. -/
def siteOptions (outDir : Text) : Options :=
  { CommandLine.defaults with paths := ["site"], outDir := some outDir }

/-- The settings of the run. -/
def siteSettings (outDir : Text) : RunSettings :=
  ⟨.composition, some outDir, Configuration.defaultExtensions, readablePatterns defaultIgnores,
    none⟩

/-- A way through a missing directory and back to a file. -/
def misleadingDir : Text := "new/../file/x"

/-- A write that fails is told that there is a file already, and when it is repeated that the file
is no directory. -/
theorem rerun_changes_output :
    siteTree.IsSound ∧ siteTree.HasNames ∧
      NamesDirectories (siteRequest misleadingDir) (siteOptions misleadingDir) ∧
      (run (siteRequest misleadingDir).again).output ≠ (run (siteRequest misleadingDir)).output :=
  ⟨⟨by decide, by decide⟩, by decide,
    ⟨by decide +kernel, by decide, by decide, rfl, rfl, by decide⟩, by decide +kernel⟩

/-- A run that writes to a missing directory is repeated as it was, and one that is misled is
repeated but for the fault. -/
theorem rerun_of_siteRequest_changes_nothing :
    (run (siteRequest "out").again).tree = (run (siteRequest "out")).tree ∧
      (run (siteRequest "out").again).output = (run (siteRequest "out")).output ∧
      (run (siteRequest misleadingDir).again).exitCode =
        (run (siteRequest misleadingDir)).exitCode ∧
      ∃ first second, (run (siteRequest misleadingDir)).ending = .finished first ∧
        (run (siteRequest misleadingDir).again).ending = .finished second ∧
        DifferInFault first second := by
  have ht : siteTree.IsSound := ⟨by decide, by decide⟩
  have hn : siteTree.HasNames := by decide
  have hdirs : NamesDirectories (siteRequest "out") (siteOptions "out") :=
    ⟨by decide +kernel, by decide, by decide, rfl, rfl, by decide⟩
  have hruns : RunsOverFiles (siteRequest "out") (siteOptions "out") (siteSettings "out") [] :=
    ⟨by decide +kernel, by decide, .empty, by rfl, by rfl⟩
  have hdirs' : NamesDirectories (siteRequest misleadingDir) (siteOptions misleadingDir) :=
    ⟨by decide +kernel, by decide, by decide, rfl, rfl, by decide⟩
  have hruns' : RunsOverFiles (siteRequest misleadingDir) (siteOptions misleadingDir)
      (siteSettings misleadingDir) [] :=
    ⟨by decide +kernel, by decide, .empty, by rfl, by rfl⟩
  obtain ⟨htree, -, hrepeats, -⟩ := rerun_changes_nothing ht hn hdirs
  obtain ⟨-, hcode, hrepeats', -⟩ := rerun_changes_nothing ht hn hdirs'
  obtain ⟨-, houtput⟩ := (hrepeats _ _ hruns).same (by decide +kernel)
  obtain ⟨first, second, hf, hs, hdiffer, -⟩ :=
    (hrepeats' _ _ hruns').differ (by decide +kernel)
  exact ⟨htree, houtput, hcode, first, second, hf, hs, hdiffer⟩

end VueSfc
