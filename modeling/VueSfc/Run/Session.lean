import VueSfc.Run.Delivery
import VueSfc.Run.Timing

/-!
# A run

A run reads its arguments, settles its configuration, and then converts a page from standard
input or the files that its paths stand for. A run that ends early, because its arguments are
not accepted or because of a fatal fault, has printed nothing and changed no file.
-/

namespace VueSfc

/-- What a run is given. -/
structure Request where
  /-- The arguments. -/
  arguments : List Text
  /-- Standard input. -/
  input : Entry
  /-- The value of the timings variable, if it is set. -/
  timingsVariable : Option Text
  /-- The files. -/
  tree : FileTree

/-- How a run ends. -/
inductive Ending where
  /-- The arguments are not accepted. -/
  | usage (fault : UsageFault)
  /-- A fault ended the run early. -/
  | fatal (fault : FatalFault)
  /-- The run came to its end with the given reports. -/
  | finished (reports : List FileReport)
  deriving DecidableEq, Repr

/-- What a run leaves behind. -/
structure RunResult where
  /-- How it ended. -/
  ending : Ending
  /-- The exit code. -/
  exitCode : Nat
  /-- Standard output. -/
  output : Text
  /-- The warnings, in the order in which they arose. -/
  warnings : List Text
  /-- The report, where it does not go to standard output. -/
  sideReport : Option Text
  /-- The format of the timings and the number of files, if timings are reported. -/
  timings : Option (TimingFormat × Nat)
  /-- The files. -/
  tree : FileTree

/-- The exit code for some reports. -/
def exitCodeOf (o : Options) (reports : List FileReport) : Nat :=
  if hasErrors reports || o.failOnInvalid && !allConverted reports then 1 else 0

/-- The result of a run that ends early. -/
def endEarly (r : Request) (ending : Ending) (exitCode : Nat) (warnings : List Text) : RunResult :=
  ⟨ending, exitCode, [], warnings, none, none, r.tree⟩

/-- Convert a page from standard input. -/
def runInput (r : Request) (o : Options) (s : RunSettings) (warnings : List Text) : RunResult :=
  match r.input.text with
  | .error fault => endEarly r (.fatal (.input fault)) 1 warnings
  | .ok page =>
    let c := convert s.dialect page
    let reports := [endedReport ['-'] none c]
    { ending := .finished reports
      exitCode := exitCodeOf o reports
      output := if c.output.isEmpty then [] else deliveredText c.output
      warnings := warnings
      sideReport := none
      timings := none
      tree := r.tree }

/-- Convert the files that the paths stand for. -/
def runFiles (r : Request) (o : Options) (s : RunSettings) (warnings : List Text) : RunResult :=
  let inputs := InputFile.collect r.tree s o.paths
  let files := inputs.map (ReadFile.ofInput r.tree s.dialect)
  if o.printed then
    let reports := files.map fun file => (printedReport file).1
    { ending := .finished reports
      exitCode := exitCodeOf o reports
      output := printedText files
      warnings := warnings ++ files.filterMap fun file => (printedReport file).2
      sideReport := some (deliveredText (o.format.render reports))
      timings := s.timings.map fun format => (format, files.length)
      tree := r.tree }
  else
    let done := deliverAll r.tree (planTargets s.outDir files)
    { ending := .finished done.reports
      exitCode := exitCodeOf o done.reports
      output := deliveredText (o.format.render done.reports)
      warnings := warnings ++ done.warnings
      sideReport := none
      timings := s.timings.map fun format => (format, files.length)
      tree := done.tree }

/-- Run with accepted arguments. -/
def runWith (r : Request) (o : Options) : RunResult :=
  match loadConfiguration r.tree o.config with
  | .error fault => endEarly r (.fatal fault) 1 []
  | .ok (c, warnings) =>
    match RunSettings.resolve o c r.timingsVariable with
    | .error fault => endEarly r (.fatal fault) 1 warnings
    | .ok s => if o.readsInput then runInput r o s warnings else runFiles r o s warnings

/-- Run. -/
def run (r : Request) : RunResult :=
  match Options.ofArguments r.arguments with
  | .error fault =>
    let exitCode := if fault = .help ∨ fault = .version then 0 else 2
    endEarly r (.usage fault) exitCode []
  | .ok o => runWith r o

/-- What a run writes to standard error, given how long its stages took: warnings, the report
where it does not go to standard output, and timings. -/
def RunResult.errorOutput (result : RunResult) (d : Durations) : Text :=
  result.warnings.flatMap (fun w => deliveredText ("Warning: " ++ w)) ++
    result.sideReport.getD [] ++
    match result.timings with
    | some (format, files) => deliveredText (format.render d files)
    | none => []

end VueSfc
