import VueSfc.Run.Input
import VueSfc.Component.Name

/-!
# Targets

Every converted file with some output is given the path of its component. The first file to
claim a path gets it, and every later one is in conflict with the first. Paths are compared by
their components.
-/

namespace VueSfc

/-- An input file and what reading and converting it gave. -/
structure ReadFile where
  /-- The input. -/
  input : InputFile
  /-- The conversion, or why the file cannot be read. -/
  result : Except FileFault Conversion

/-- Read and convert an input. -/
def ReadFile.ofInput (tree : FileTree) (dialect : Dialect) (input : InputFile) : ReadFile :=
  ⟨input, (tree.readText input.path).map (convert dialect)⟩

/-- The text that is delivered for a file: its output, unless there is none. -/
def ReadFile.output? (file : ReadFile) : Option Text :=
  match file.result with
  | .error _ => none
  | .ok conversion => if conversion.output.isEmpty then none else some conversion.output

/-- The file name of the component made from the file at a path. -/
def componentFileName (path : Text) : Text := Component.nameOfPath path ++ ".vue"

/-- Where the component of an input is written: beside the input, or in the directory for
components under the directories that the input had below the one that was walked. -/
def InputFile.componentPath (input : InputFile) (outDir : Option Text) : Text :=
  match outDir with
  | some dir => Path.join (Path.join dir input.relativeDir) (componentFileName input.path)
  | none => Path.withFileName input.path (componentFileName input.path)

/-- What a file is given. -/
inductive Target where
  /-- Nothing, since there is nothing to write. -/
  | nothing
  /-- A path of its own. -/
  | path (target : Text)
  /-- A path that an earlier input has claimed. -/
  | conflict (target first : Text)
  deriving DecidableEq, Repr

/-- The wording of a conflict. -/
def conflictMessage (target first : Text) : Text := target ++ " conflicts with " ++ first

/-- The paths claimed, each with the input that claimed it. -/
abbrev Claims := List (List PathComponent × Text)

/-- Give each file its target, given the claims of the files before it. -/
def assignTargets (outDir : Option Text) (claims : Claims) :
    List ReadFile → List (ReadFile × Target)
  | [] => []
  | file :: rest =>
    match file.output? with
    | none => (file, .nothing) :: assignTargets outDir claims rest
    | some _ =>
      let target := file.input.componentPath outDir
      match claims.lookup (Path.components target) with
      | some first => (file, .conflict target first) :: assignTargets outDir claims rest
      | none =>
        (file, .path target) ::
          assignTargets outDir ((Path.components target, file.input.path) :: claims) rest

/-- Give each file its target. -/
def planTargets (outDir : Option Text) (files : List ReadFile) : List (ReadFile × Target) :=
  assignTargets outDir [] files

end VueSfc
