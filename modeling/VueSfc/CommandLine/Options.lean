import VueSfc.Component.Dialect
import VueSfc.Report.Format

/-!
# The command line

Arguments are read from left to right. An option that takes a value waits for it, and the value
is examined only when the next thing that can be told apart begins, so an argument that no
option knows is reported before a bad value in front of it. Two dashes alone end the options.
-/

namespace VueSfc

/-- How timings are written. -/
inductive TimingFormat where
  /-- One line each. -/
  | text
  /-- A JSON object. -/
  | json
  deriving DecidableEq, Repr

/-- What the command line asks for. -/
structure Options where
  /-- Files and directories. -/
  paths : List Text
  /-- The dialect of the scripts. -/
  dialect : Option Dialect
  /-- The directory for components. -/
  outDir : Option Text
  /-- Print components instead of writing files. -/
  printed : Bool
  /-- The format of the report. -/
  format : ReportFormat
  /-- Patterns of paths to ignore. -/
  ignore : List Text
  /-- Fail when some file is not converted. -/
  failOnInvalid : Bool
  /-- The configuration file. -/
  config : Option Text
  /-- Report timings. -/
  timings : Bool
  /-- The format of the timings. -/
  timingFormat : TimingFormat
  deriving DecidableEq, Repr

/-- Why the arguments are not accepted; asking for help or the version counts among the reasons. -/
inductive UsageFault where
  /-- An option has a bad value or none. -/
  | invalidValue
  /-- No option has the name. -/
  | unknownArgument
  /-- An option that may be given once is given again. -/
  | repeated
  /-- A flag is given a value. -/
  | unwantedValue
  /-- Help is asked for. -/
  | help
  /-- The version is asked for. -/
  | version
  deriving DecidableEq, Repr

namespace CommandLine

/-- An option without a value. -/
inductive Flag where
  /-- Print components. -/
  | stdout
  /-- Fail when some file is not converted. -/
  | failOnInvalid
  /-- Report timings. -/
  | timings
  deriving DecidableEq, Repr

/-- An option with a value. -/
inductive Setting where
  /-- The dialect. -/
  | api
  /-- The directory for components. -/
  | outDir
  /-- The format of the report. -/
  | output
  /-- A pattern of paths to ignore. -/
  | ignore
  /-- The configuration file. -/
  | config
  /-- The format of the timings. -/
  | timingsFormat
  deriving DecidableEq, Repr

/-- What an option name stands for. -/
inductive Switch where
  /-- An option without a value. -/
  | flag (f : Flag)
  /-- An option with a value. -/
  | setting (s : Setting)
  /-- The question for help. -/
  | help
  /-- The question for the version. -/
  | version
  deriving DecidableEq, Repr

/-- The names of all options, without their dashes. -/
def switches : List (Text × Switch) :=
  [("api", .setting .api), ("out-dir", .setting .outDir), ("stdout", .flag .stdout),
   ("output", .setting .output), ("ignore", .setting .ignore),
   ("fail-on-invalid", .flag .failOnInvalid), ("config", .setting .config),
   ("timings", .flag .timings), ("timings-format", .setting .timingsFormat), ("help", .help),
   ("version", .version)]

/-- An option whose value is still to be examined. -/
inductive Pending where
  /-- There is none. -/
  | none
  /-- The value is still to come. -/
  | awaiting (s : Setting)
  /-- The value has come. -/
  | holding (s : Setting) (value : Text)
  deriving DecidableEq, Repr

/-- How far the arguments have been read. -/
structure Progress where
  /-- What they ask for so far. -/
  options : Options
  /-- The flags given. -/
  flags : List Flag
  /-- The options with a value given and examined. -/
  settings : List Setting
  /-- The option that is still open. -/
  pending : Pending
  deriving DecidableEq, Repr

/-- What is asked for without any arguments. -/
def defaults : Options :=
  ⟨[], Option.none, Option.none, false, .human, [], false, Option.none, false, .text⟩

/-- The choice that a value stands for, by its exact name. -/
def choose {α : Type} (choices : List (Text × α)) (value : Text) : Except UsageFault α :=
  match choices.lookup value with
  | some choice => .ok choice
  | Option.none => .error .invalidValue

/-- The names of the report formats. -/
def formatNames : List (Text × ReportFormat) :=
  [("human", .human), ("json", .json), ("machine", .machine)]

/-- The names of the timing formats. -/
def timingNames : List (Text × TimingFormat) := [("text", .text), ("json", .json)]

/-- The names of the dialects. -/
def dialectNames : List (Text × Dialect) :=
  [(Dialect.composition.name, .composition), (Dialect.options.name, .options)]

/-- What is asked for once an option is given a value. -/
def applySetting (o : Options) (value : Text) : Setting → Except UsageFault Options
  | .api => (choose dialectNames value).map fun d => { o with dialect := some d }
  | .outDir => .ok { o with outDir := some value }
  | .output => (choose formatNames value).map fun f => { o with format := f }
  | .ignore => .ok { o with ignore := o.ignore ++ [value] }
  | .config => .ok { o with config := some value }
  | .timingsFormat => (choose timingNames value).map fun f => { o with timingFormat := f }

/-- What is asked for once a flag is given. -/
def applyFlag (o : Options) : Flag → Options
  | .stdout => { o with printed := true }
  | .failOnInvalid => { o with failOnInvalid := true }
  | .timings => { o with timings := true }

/-- Examine a value. All options but the one for patterns may be given once. -/
def assign (p : Progress) (s : Setting) (value : Text) : Except UsageFault Progress :=
  if s ≠ .ignore ∧ s ∈ p.settings then .error .repeated
  else (applySetting p.options value s).map fun o =>
    { p with options := o, settings := s :: p.settings }

/-- Examine the value of the option that is still open. -/
def settle (p : Progress) : Except UsageFault Progress :=
  match p.pending with
  | .none => .ok p
  | .awaiting _ => .error .invalidValue
  | .holding s value => assign { p with pending := .none } s value

/-- Read a flag. -/
def giveFlag (p : Progress) (f : Flag) : Except UsageFault Progress :=
  match settle p with
  | .error fault => .error fault
  | .ok p =>
    if f ∈ p.flags then .error .repeated
    else .ok { p with options := applyFlag p.options f, flags := f :: p.flags }

/-- Read an option with a value in the same argument, or with one still to come. -/
def giveSetting (p : Progress) (s : Setting) (value : Option Text) : Except UsageFault Progress :=
  match settle p with
  | .error fault => .error fault
  | .ok p =>
    match value with
    | some value => assign p s value
    | Option.none => .ok { p with pending := .awaiting s }

/-- Read a question, which ends the reading once the open option is settled. -/
def giveQuestion (p : Progress) (question : UsageFault) : Except UsageFault Progress :=
  match settle p with
  | .error fault => .error fault
  | .ok _ => .error question

/-- Read a path. -/
def givePath (p : Progress) (path : Text) : Except UsageFault Progress :=
  (settle p).map fun p => { p with options := { p.options with paths := p.options.paths ++ [path] } }

/-- Split an option into its name and the value behind an equals sign, if there is one. -/
def splitOption (text : Text) : Text × Option Text :=
  match text.dropWhile (· != '=') with
  | [] => (text, Option.none)
  | _ :: value => (text.takeWhile (· != '='), some value)

/-- Read an argument that begins with two dashes, given without them. -/
def giveLong (p : Progress) (text : Text) : Except UsageFault Progress :=
  match switches.lookup (splitOption text).1, (splitOption text).2 with
  | Option.none, _ => .error .unknownArgument
  | some (.setting s), value => giveSetting p s value
  | some _, some _ => .error .unwantedValue
  | some (.flag f), Option.none => giveFlag p f
  | some .help, Option.none => giveQuestion p .help
  | some .version, Option.none => giveQuestion p .version

/-- Read an argument that begins with one dash, given by the letter behind it. -/
def giveShort (p : Progress) (letter : Char) : Except UsageFault Progress :=
  if letter = 'h' then giveQuestion p .help
  else if letter = 'V' then giveQuestion p .version
  else .error .unknownArgument

/-- Read a value of the option that waits for one, or else a path. -/
def giveValue (p : Progress) (text : Text) : Except UsageFault Progress :=
  match p.pending with
  | .awaiting s => .ok { p with pending := .holding s text }
  | _ => givePath p text

/-- Read arguments that are all paths. -/
def readPaths (p : Progress) : List Text → Except UsageFault Progress
  | [] => .ok p
  | path :: rest =>
    match givePath p path with
    | .error fault => .error fault
    | .ok p => readPaths p rest

/-- Read one argument other than two dashes alone. -/
def readArgument (p : Progress) : Text → Except UsageFault Progress
  | '-' :: '-' :: text => giveLong p text
  | '-' :: letter :: _ => giveShort p letter
  | text => giveValue p text

/-- Read arguments. -/
def readArguments (p : Progress) : List Text → Except UsageFault Progress
  | [] => .ok p
  | argument :: rest =>
    if argument = ['-', '-'] then readPaths p rest
    else
      match readArgument p argument with
      | .error fault => .error fault
      | .ok p => readArguments p rest

end CommandLine

open CommandLine in
/-- What some arguments ask for. -/
def Options.ofArguments (arguments : List Text) : Except UsageFault Options :=
  match readArguments ⟨defaults, [], [], .none⟩ arguments with
  | .error fault => .error fault
  | .ok p => (settle p).map Progress.options

/-- The page is read from standard input: there is no path, or only a dash. -/
def Options.readsInput (o : Options) : Bool := o.paths == [] || o.paths == [['-']]

end VueSfc
