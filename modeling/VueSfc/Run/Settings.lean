import VueSfc.CommandLine.Options
import VueSfc.Config.Reading
import VueSfc.Glob.Reading

/-!
# Settings of a run

The settings of a run come from the command line first, then from the configuration. Paths are
ignored by the patterns of both and by three that always apply.
-/

namespace VueSfc

open Glob

/-- Why a run ends before its work is done. -/
inductive FatalFault where
  /-- The configuration file named on the command line is of no use. -/
  | config (path : Text) (fault : ConfigFault)
  /-- A pattern of paths to ignore cannot be read. -/
  | badPattern (pattern : Text) (fault : GlobFault)
  /-- Standard input cannot be read. -/
  | input (fault : FileFault)
  deriving DecidableEq, Repr

/-- The wording of a failed reading. -/
def readFailure (path : Text) (fault : FileFault) : Text :=
  "failed to read " ++ path ++ ": " ++ fault.message

/-- The wording of a fatal fault. -/
def FatalFault.message : FatalFault → Text
  | .config path (.unreadable fault) => readFailure path fault
  | .config path .malformed => "failed to parse " ++ path
  | .config path (.unknownDialect name) =>
    "failed to parse " ++ path ++ ": " ++ Dialect.unknownMessage name
  | .badPattern pattern fault =>
    "invalid glob pattern: error parsing glob '" ++ pattern ++ "': " ++ fault.message
  | .input fault => readFailure ['-'] fault

/-- The settings of a run. -/
structure RunSettings where
  /-- The dialect of the scripts. -/
  dialect : Dialect
  /-- The directory for components. -/
  outDir : Option Text
  /-- What the names of input files end with, in lower case. -/
  extensions : List Text
  /-- The patterns of paths to ignore. -/
  ignore : List Pattern
  /-- The format of the timings, if they are reported. -/
  timings : Option TimingFormat

/-- The file that holds the configuration where the command line names none. -/
def configFileName : Text := "html2vue.json"

/-- The patterns that always apply. -/
def defaultIgnores : List Text := ["**/node_modules/**", "**/dist/**", "**/.git/**"]

/-- The patterns that can be read, those that cannot be left out. -/
def readablePatterns (patterns : List Text) : List Pattern :=
  patterns.filterMap fun t =>
    match Pattern.ofText t with
    | .ok p => some p
    | .error _ => none

/-- Read patterns, up to the first that cannot be read. -/
def readPatterns : List Text → Except FatalFault (List Pattern)
  | [] => .ok []
  | t :: rest =>
    match Pattern.ofText t with
    | .error fault => .error (.badPattern t fault)
    | .ok p => (readPatterns rest).map (p :: ·)

/-- The values of the timings variable that turn timings on, in any letter case. -/
def affirmations : List Text := ["1", "true", "yes", "on"]

/-- Timings are asked for by a flag, by their format or by the timings variable. -/
def wantsTimings (o : Options) (asked : Option Text) : Bool :=
  o.timings || o.timingFormat == .json ||
    asked.any fun value => affirmations.contains (Text.lowerAscii value)

/-- Load the configuration: the file that is asked for, or the default file if it exists. What is
wrong with the default file is only worth a warning. -/
def loadConfiguration (tree : FileTree) (asked : Option Text) :
    Except FatalFault (Configuration × List Text) :=
  match asked with
  | some path =>
    match Configuration.ofFile tree path with
    | .error fault => .error (.config path fault)
    | .ok c => .ok (c, [])
  | none =>
    if tree.exists? configFileName then
      match Configuration.ofFile tree configFileName with
      | .ok c => .ok (c, [])
      | .error (.unreadable fault) => .ok (.empty, [readFailure configFileName fault])
      | .error _ => .ok (.empty, ["failed to parse " ++ configFileName])
    else .ok (.empty, [])

/-- The settings that the command line, the configuration and the timings variable give. -/
def RunSettings.resolve (o : Options) (c : Configuration) (asked : Option Text) :
    Except FatalFault RunSettings :=
  (readPatterns (c.ignore ++ o.ignore)).map fun ignore =>
    { dialect := (o.dialect <|> c.dialect).getD .composition
      outDir := o.outDir <|> c.outDir
      extensions := c.fileExtensions.map Text.lowerAscii
      ignore := ignore ++ readablePatterns defaultIgnores
      timings := if wantsTimings o asked then some o.timingFormat else none }

end VueSfc
