import VueSfc.Script.LineShape
import VueSfc.Script.Diagnostic

/-!
# Classifying scripts

A script is read line by line. A reader is idle or is collecting the lines of a function that
has begun. A line that opens a function always begins a new one, and takes the place of one
that is still being collected. The lines of a function end where an added line brings the
count of its braces to zero, or at the end of the script. Braces are counted wherever they
stand, in strings and comments too.
-/

namespace VueSfc.Script

open Text

/-- How many more braces a line opens than it closes. -/
def braceBalance : Text → Int
  | [] => 0
  | c :: r => (if c = '\x7b' then 1 else if c = '\x7d' then -1 else 0) + braceBalance r

/-- A function whose lines are being collected. -/
structure PendingFunction where
  /-- What its first line says. -/
  head : FunctionHead
  /-- Its first line. -/
  firstLine : Text
  /-- The lines after the first. -/
  later : List Text
  /-- The braces opened and not closed so far. -/
  depth : Int
  deriving DecidableEq, Repr

namespace PendingFunction

/-- A function of which only the first line has been read. -/
def start (head : FunctionHead) (line : Text) : PendingFunction :=
  ⟨head, line, [], braceBalance line⟩

/-- One more line. -/
def addLine (p : PendingFunction) (line : Text) : PendingFunction :=
  { p with later := p.later ++ [line], depth := p.depth + braceBalance line }

/-- The lines collected so far. -/
def lines (p : PendingFunction) : List Text := p.firstLine :: p.later

/-- The function made of the lines collected. -/
def finish (p : PendingFunction) : FunctionStatement where
  name := p.head.name
  form := p.head.form
  params := p.head.params
  body := p.head.rest ++ p.later.flatMap ('\n' :: ·)
  source := unlines p.lines

end PendingFunction

/-- What the reader is doing between two lines. -/
inductive ScanState where
  /-- No function is open. -/
  | idle
  /-- The lines of a function are being collected. -/
  | collecting (p : PendingFunction)
  deriving DecidableEq, Repr

/-- A line that opens a function is all of it if it has an arrow and does not end with a brace. -/
def isWholeArrow (line : Text) : Bool := containsWord "=>" line && line.getLast? != some '\x7b'

namespace ScanState

/-- Read one line: the statement it completes, if any, and the state after it. -/
def step (state : ScanState) (line : Text) : Option Statement × ScanState :=
  match LineShape.ofLine line, state with
  | .opens head, _ =>
    let p := PendingFunction.start head line
    if isWholeArrow line then (some (.function p.finish), .idle) else (none, .collecting p)
  | _, .collecting p =>
    let p := p.addLine line
    if p.depth = 0 then (some (.function p.finish), .idle) else (none, .collecting p)
  | .state s, .idle => (some (.state s), .idle)
  | .other, .idle => (none, .idle)

/-- Read lines one after another: the statements completed, in order, and the final state. -/
def scan (state : ScanState) : List Text → List Statement × ScanState
  | [] => ([], state)
  | line :: rest =>
    let (statement, next) := state.step line
    let (statements, last) := next.scan rest
    (statement.toList ++ statements, last)

/-- What the end of the script completes. -/
def flush : ScanState → List Statement
  | .idle => []
  | .collecting p => [.function p.finish]

end ScanState

/-- The lines of a script that count: trimmed, neither blank nor comments. -/
def scriptLines (script : Text) : List Text :=
  ((trim script).lines.map trim).filter fun line => !line.isEmpty && !"//".toList.isPrefixOf line

/-- The statements of a sequence of lines, the last one possibly cut short. -/
def statementsOf (ls : List Text) : List Statement :=
  let (statements, last) := ScanState.idle.scan ls
  statements ++ last.flush

/-- The analysis of one script. -/
def classify (script : Text) : Analysis :=
  Analysis.ofStatements (statementsOf (scriptLines (stripDiagnostics script)))

/-- The analysis of several scripts, in their order. -/
def classifyAll (scripts : List Text) : Analysis :=
  scripts.foldl (fun a script => a ++ classify script) Analysis.empty

end VueSfc.Script
