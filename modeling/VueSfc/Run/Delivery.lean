import VueSfc.Run.Target

/-!
# Delivering components

Components are written to their targets, or printed one after another. Either way every input
gets its report, and what goes wrong is worth a warning.
-/

namespace VueSfc

/-- A component as it is delivered: its text and a line feed. -/
def deliveredText (output : Text) : Text := output ++ ['\n']

/-- The report on a file whose conversion ended. -/
def endedReport (input : Text) (output : Option Text) (c : Conversion) : FileReport :=
  ⟨input, output, .ended c.outcome, c.counts, none⟩

/-- The report on a file that went wrong. -/
def failedReport (input : Text) (status : FileStatus) (message : Text) : FileReport :=
  ⟨input, none, status, none, some message⟩

/-- Write a component, and make the directories that it needs. -/
def writeComponent (tree : FileTree) (target output : Text) : FileTree × Option FileFault :=
  let (tree, fault) :=
    match Path.parent? target with
    | none => (tree, none)
    | some parent => if parent.isEmpty then (tree, none) else tree.makeDirectories parent
  match fault with
  | some fault => (tree, some fault)
  | none =>
    match tree.write target (encodeText (deliveredText output)) with
    | .error fault => (tree, some fault)
    | .ok tree => (tree, none)

/-- What delivering a file gives: the tree after it, the report on it, and its warning. -/
structure Delivered where
  /-- The tree. -/
  tree : FileTree
  /-- The report. -/
  report : FileReport
  /-- The warning, if there is one. -/
  warning : Option Text

/-- Write the component of a file to its target. -/
def deliver (tree : FileTree) (file : ReadFile) (target : Target) : Delivered :=
  let input := file.input.path
  match file.result, target with
  | .error fault, _ =>
    ⟨tree, failedReport input .readFailed fault.message, some (readFailure input fault)⟩
  | .ok _, .conflict target first =>
    ⟨tree, failedReport input .writeFailed (conflictMessage target first),
      some (conflictMessage target first)⟩
  | .ok c, .nothing => ⟨tree, endedReport input none c, none⟩
  | .ok c, .path target =>
    match writeComponent tree target c.output with
    | (tree, none) => ⟨tree, endedReport input (some target) c, none⟩
    | (tree, some fault) =>
      ⟨tree, failedReport input .writeFailed fault.message,
        some ("failed to write " ++ target ++ ": " ++ fault.message)⟩

/-- What delivering several files gives. -/
structure Deliveries where
  /-- The tree after all of them. -/
  tree : FileTree
  /-- The reports, in the order of the files. -/
  reports : List FileReport
  /-- The warnings. -/
  warnings : List Text

/-- Write the components of files to their targets, in order. -/
def deliverAll (tree : FileTree) : List (ReadFile × Target) → Deliveries
  | [] => ⟨tree, [], []⟩
  | (file, target) :: rest =>
    let done := deliver tree file target
    let others := deliverAll done.tree rest
    ⟨others.tree, done.report :: others.reports, done.warning.toList ++ others.warnings⟩

/-- The report on a file whose component is printed, and its warning. -/
def printedReport (file : ReadFile) : FileReport × Option Text :=
  let input := file.input.path
  match file.result with
  | .error fault =>
    (failedReport input .readFailed fault.message, some (readFailure input fault))
  | .ok c => (endedReport input none c, none)

/-- The line that tells whose component follows. -/
def pathHeader (path : Text) : Text := "// " ++ path ++ ['\n']

/-- The components of files, each under its path if there are several. -/
def printedText (files : List ReadFile) : Text :=
  let several := 1 < (files.filterMap ReadFile.output?).length
  files.flatMap fun file =>
    match file.output? with
    | none => []
    | some output =>
      (if several then pathHeader file.input.path else []) ++ deliveredText output

end VueSfc
