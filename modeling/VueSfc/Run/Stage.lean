import Mathlib.Logic.Relation
import VueSfc.Run.Session

/-!
# The stages of a run

A run goes from stage to stage: it reads its arguments and its configuration, settles what it is to
do, takes its paths one after another and walks the directories among them, and then converts and
delivers what it has found. At several of these stages it can be broken off. How a directory is
walked is left open here, so that a walk can fail, and so is the order in which files are delivered.
-/

namespace VueSfc

/-! ## Walks -/

/-- What a walk through a directory comes upon. -/
inductive WalkItem where
  /-- A file, by the names on the way from the directory. -/
  | file (names : List Text)
  /-- Something that is no file, or that has no text for a path. -/
  | other
  /-- Something that cannot be looked at, so many names below the directory. -/
  | fault (depth : Nat) (message : Text)
  deriving DecidableEq, Repr

/-- How the directory at a path is walked. -/
abbrev Walker := FileTree → Text → List WalkItem

namespace WalkItem

/-- The directory itself cannot be walked. -/
def rootFault? : WalkItem → Option Text
  | .fault 0 message => some message
  | _ => none

/-- What is worth a warning: something below the directory cannot be looked at. -/
def warning? : WalkItem → Option Text
  | .fault (_ + 1) message => some message
  | _ => none

/-- The inputs that it gives to a walk through the directory at a path. -/
def inputs (s : RunSettings) (root : Text) : WalkItem → List InputFile
  | .file names => if InputFile.isWanted s names then [InputFile.below root names] else []
  | _ => []

end WalkItem

/-- A walk that nothing is in the way of. -/
def FileTree.walk (tree : FileTree) (path : Text) : List WalkItem :=
  match tree.placeOf path with
  | .error _ => []
  | .ok place => (tree.filesBelow place).map .file

/-! ## Stages -/

/-- Why a run is broken off. -/
inductive Halt where
  /-- A fatal fault. -/
  | fatal (fault : FatalFault)
  /-- A directory that cannot be walked. -/
  | unwalkable (path message : Text)
  deriving DecidableEq, Repr

/-- A file that is to be delivered to its target, and the report on it once that is done. -/
structure Job where
  /-- The file. -/
  file : ReadFile
  /-- Its target. -/
  target : Target
  /-- The report. -/
  report : Option FileReport

/-- A job that waits to be done. -/
def Job.waiting (planned : ReadFile × Target) : Job := ⟨planned.1, planned.2, none⟩

/-- How far a run has come. -/
inductive Stage where
  /-- It has only begun. -/
  | begun
  /-- The arguments are accepted. -/
  | accepted (o : Options)
  /-- The configuration is loaded. -/
  | configured (o : Options) (c : Configuration)
  /-- It is settled what to do. -/
  | settled (o : Options) (s : RunSettings)
  /-- Some inputs have been found, and some paths are left. -/
  | collecting (o : Options) (s : RunSettings) (found : List InputFile) (paths : List Text)
  /-- It is on a walk through the directory at a path, with some items to come. -/
  | walking (o : Options) (s : RunSettings) (found : List InputFile) (path : Text)
      (items : List WalkItem) (paths : List Text)
  /-- The inputs are read and converted, and their components are being written. -/
  | delivering (o : Options) (s : RunSettings) (jobs : List Job)
  /-- The arguments were not accepted. -/
  | refused (fault : UsageFault)
  /-- It was broken off. -/
  | halted (halt : Halt)
  /-- It has come to its end. -/
  | finished (reports : List FileReport)

/-- A run on its way. -/
structure RunState where
  /-- How far it has come. -/
  stage : Stage
  /-- The files. -/
  tree : FileTree
  /-- The paths of the components that it has written. -/
  written : List Text
  /-- What it has printed. -/
  output : Text
  /-- What it has warned of. -/
  warnings : List Text

namespace RunState

/-- A run that has only begun. -/
def start (tree : FileTree) : RunState := ⟨.begun, tree, [], [], []⟩

/-- Enter a stage. -/
def enter (u : RunState) (stage : Stage) : RunState := { u with stage := stage }

/-- Warn. -/
def warn (u : RunState) (warnings : List Text) : RunState :=
  { u with warnings := u.warnings ++ warnings }

/-- Print. -/
def print (u : RunState) (text : Text) : RunState := { u with output := u.output ++ text }

/-- Leave what delivering a file gives. -/
def leave (u : RunState) (done : Delivered) : RunState :=
  { u with
    tree := done.tree
    written := u.written ++ done.report.output.toList
    warnings := u.warnings ++ done.warning.toList }

end RunState

/-! ## Steps -/

/-- What a run does next. -/
inductive Step (walk : Walker) (r : Request) (u : RunState) : RunState → Prop
  /-- Refuse the arguments. -/
  | refuse {fault : UsageFault} (stage : u.stage = .begun)
      (refused : Options.ofArguments r.arguments = .error fault) :
      Step walk r u (u.enter (.refused fault))
  /-- Accept the arguments. -/
  | accept {o : Options} (stage : u.stage = .begun)
      (accepted : Options.ofArguments r.arguments = .ok o) :
      Step walk r u (u.enter (.accepted o))
  /-- Fail to load the configuration. -/
  | failConfiguration {o : Options} {fault : FatalFault} (stage : u.stage = .accepted o)
      (failed : loadConfiguration u.tree o.config = .error fault) :
      Step walk r u (u.enter (.halted (.fatal fault)))
  /-- Load the configuration. -/
  | configure {o : Options} {c : Configuration} {warnings : List Text}
      (stage : u.stage = .accepted o)
      (loaded : loadConfiguration u.tree o.config = .ok (c, warnings)) :
      Step walk r u ((u.enter (.configured o c)).warn warnings)
  /-- Fail to read the patterns. -/
  | failSettings {o : Options} {c : Configuration} {fault : FatalFault}
      (stage : u.stage = .configured o c)
      (failed : RunSettings.resolve o c r.timingsVariable = .error fault) :
      Step walk r u (u.enter (.halted (.fatal fault)))
  /-- Settle what to do. -/
  | settle {o : Options} {c : Configuration} {s : RunSettings} (stage : u.stage = .configured o c)
      (resolved : RunSettings.resolve o c r.timingsVariable = .ok s) :
      Step walk r u (u.enter (.settled o s))
  /-- Fail to read standard input. -/
  | failInput {o : Options} {s : RunSettings} {fault : FileFault} (stage : u.stage = .settled o s)
      (input : o.readsInput = true) (failed : r.input.text = .error fault) :
      Step walk r u (u.enter (.halted (.fatal (.input fault))))
  /-- Convert a page from standard input and print what there is to print. -/
  | convertInput {o : Options} {s : RunSettings} {page : Text} (stage : u.stage = .settled o s)
      (input : o.readsInput = true) (read : r.input.text = .ok page) :
      Step walk r u
        ((u.enter (.finished [endedReport ['-'] none (convert s.dialect page)])).print
          (if (convert s.dialect page).output.isEmpty then []
            else deliveredText (convert s.dialect page).output))
  /-- Turn to the paths. -/
  | collect {o : Options} {s : RunSettings} (stage : u.stage = .settled o s)
      (files : o.readsInput = false) :
      Step walk r u (u.enter (.collecting o s [] o.paths))
  /-- Take a path that is no directory as it stands. -/
  | take {o : Options} {s : RunSettings} {found : List InputFile} {path : Text} {paths : List Text}
      (stage : u.stage = .collecting o s found (path :: paths))
      (file : u.tree.isDirectory path = false) :
      Step walk r u (u.enter (.collecting o s (found ++ [⟨path, []⟩]) paths))
  /-- Set out on a walk through a directory. -/
  | setOut {o : Options} {s : RunSettings} {found : List InputFile} {path : Text}
      {paths : List Text} (stage : u.stage = .collecting o s found (path :: paths))
      (directory : u.tree.isDirectory path = true) :
      Step walk r u (u.enter (.walking o s found path (walk u.tree path) paths))
  /-- Go past an item of the walk. -/
  | pass {o : Options} {s : RunSettings} {found : List InputFile} {path : Text} {item : WalkItem}
      {items : List WalkItem} {paths : List Text}
      (stage : u.stage = .walking o s found path (item :: items) paths)
      (passed : item.rootFault? = none) :
      Step walk r u ((u.enter (.walking o s (found ++ item.inputs s path) path items paths)).warn
        item.warning?.toList)
  /-- Fail to walk a directory. -/
  | failWalk {o : Options} {s : RunSettings} {found : List InputFile} {path message : Text}
      {item : WalkItem} {items : List WalkItem} {paths : List Text}
      (stage : u.stage = .walking o s found path (item :: items) paths)
      (failed : item.rootFault? = some message) :
      Step walk r u (u.enter (.halted (.unwalkable path message)))
  /-- Come back from a walk. -/
  | comeBack {o : Options} {s : RunSettings} {found : List InputFile} {path : Text}
      {paths : List Text} (stage : u.stage = .walking o s found path [] paths) :
      Step walk r u (u.enter (.collecting o s found paths))
  /-- Print the components of all inputs. -/
  | printAll {o : Options} {s : RunSettings} {found : List InputFile} {files : List ReadFile}
      (stage : u.stage = .collecting o s found []) (printed : o.printed = true)
      (converted : files = found.map (ReadFile.ofInput u.tree s.dialect)) :
      Step walk r u
        (((u.enter (.finished (files.map fun file => (printedReport file).1))).print
          (printedText files)).warn (files.filterMap fun file => (printedReport file).2))
  /-- Give the inputs their targets. -/
  | plan {o : Options} {s : RunSettings} {found : List InputFile}
      (stage : u.stage = .collecting o s found []) (written : o.printed = false) :
      Step walk r u (u.enter (.delivering o s
        ((planTargets s.outDir (found.map (ReadFile.ofInput u.tree s.dialect))).map Job.waiting)))
  /-- Deliver one of the files that wait. -/
  | deliver {o : Options} {s : RunSettings} {front behind : List Job} {file : ReadFile}
      {target : Target}
      (stage : u.stage = .delivering o s (front ++ Job.waiting (file, target) :: behind)) :
      Step walk r u ((u.enter (.delivering o s (front ++
        ⟨file, target, some (deliver u.tree file target).report⟩ :: behind))).leave
          (deliver u.tree file target))
  /-- Report on the files when all are delivered. -/
  | report {o : Options} {s : RunSettings} {jobs : List Job} {reports : List FileReport}
      (stage : u.stage = .delivering o s jobs) (done : jobs.map Job.report = reports.map some) :
      Step walk r u
        ((u.enter (.finished reports)).print (deliveredText (o.format.render reports)))

/-- One run on its way comes to be another. -/
abbrev Reaches (walk : Walker) (r : Request) : RunState → RunState → Prop :=
  Relation.ReflTransGen (Step walk r)

end VueSfc
