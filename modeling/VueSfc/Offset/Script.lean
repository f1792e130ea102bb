import VueSfc.Offset.Cursor
import VueSfc.Script.Classifier

/-!
# Scripts by offsets

Diagnostic calls are cut out of a script by a loop on byte offsets, its lines are read by a cursor,
and the body of a function is what its source has behind the first line.
-/

namespace VueSfc.Offset

open Text Script

/-! ## Diagnostic calls -/

/-- Where the call with the given name ends, if there is one at an offset. -/
def callEnd? (script : Text) (start : Nat) (name : Text) : Checked (Option Nat) := do
  let behind ← sliceFrom script start
  match after? (name ++ ['(']) behind with
  | none => return none
  | some arguments =>
    let first ← minus (byteSize script) (byteSize arguments)
    match seekChar (· == ')') arguments with
    | none => return none
    | some length =>
      let stop := first + length + 1
      let tail ← sliceFrom script stop
      return some (if tail.head? = some ';' then stop + 1 else stop)

/-- Take out diagnostic calls from an offset on: the text left from the place behind the last
call. -/
def stripCallsLoop (script : Text) : (rounds cursor search : Nat) → Checked Text
  | 0, _, _ => .error .endless
  | rounds + 1, cursor, search => do
    let ahead ← sliceFrom script search
    match seek consoleWord.isPrefixOf ahead with
    | none => sliceFrom script cursor
    | some length =>
      let call := search + length
      let name := call + byteSize consoleWord
      match ← diagnosticNames.findSomeM? (callEnd? script name) with
      | none => stripCallsLoop script rounds cursor name
      | some stop =>
        let kept ← slice script cursor call
        let left ← stripCallsLoop script rounds stop stop
        return kept ++ left

/-- A script without its diagnostic calls. -/
def stripCalls (script : Text) : Checked Text := stripCallsLoop script (byteSize script + 1) 0 0

/-! ## Reading lines -/

/-- The function made of the lines collected. What its source has behind the first line goes to the
body. -/
def finish (p : PendingFunction) : Checked FunctionStatement := do
  let behind ← sliceFrom (unlines p.lines) (byteSize p.firstLine)
  return { p.finish with body := p.head.rest ++ behind }

/-- Read one line: the statement it completes, if any, and the state after it. -/
def step (state : ScanState) (line : Text) : Checked (Option Statement × ScanState) := do
  match ← recognize line, state with
  | .opens head, _ =>
    let p := PendingFunction.start head line
    if isWholeArrow line then
      let f ← finish p
      return (some (.function f), .idle)
    else return (none, .collecting p)
  | _, .collecting p =>
    let p := p.addLine line
    if p.depth = 0 then
      let f ← finish p
      return (some (.function f), .idle)
    else return (none, .collecting p)
  | .state s, .idle => return (some (.state s), .idle)
  | .other, .idle => return (none, .idle)

/-- Read lines one after another: the statements completed, in order, and the final state. -/
def scan (state : ScanState) : List Text → Checked (List Statement × ScanState)
  | [] => return ([], state)
  | line :: rest => do
    let first ← step state line
    let others ← scan first.2 rest
    return (first.1.toList ++ others.1, others.2)

/-- What the end of the script completes. -/
def flush : ScanState → Checked (List Statement)
  | .idle => return []
  | .collecting p => do
    let f ← finish p
    return [.function f]

/-- The analysis of one script. -/
def classifyScript (script : Text) : Checked Analysis := do
  let cleaned ← stripCalls script
  let scanned ← scan .idle (scriptLines cleaned)
  let last ← flush scanned.2
  return Analysis.ofStatements (scanned.1 ++ last)

/-- The analysis of several scripts, in their order. -/
def classifyScripts (scripts : List Text) : Checked Analysis :=
  scripts.foldlM (fun a script => do
    let b ← classifyScript script
    return a ++ b) Analysis.empty

end VueSfc.Offset
