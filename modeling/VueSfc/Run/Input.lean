import VueSfc.Run.Settings

/-!
# Input files

A path that is no directory is an input as it stands. A directory stands for the files below it
whose names have one of the extensions and whose paths from there are not ignored, in the order
of their names.
-/

namespace VueSfc

/-- An input file. -/
structure InputFile where
  /-- Its path. -/
  path : Text
  /-- The path of its directory from the directory that was walked; empty for a file that was
  named itself. -/
  relativeDir : Text
  deriving DecidableEq, Repr

namespace InputFile

/-- The path made of the given names. -/
def relativePath (names : List Text) : Text := Text.joinWith ['/'] names

/-- A file below a directory is an input. -/
def isWanted (s : RunSettings) (names : List Text) : Bool :=
  !(s.ignore.any fun p => Glob.matchesPath p (relativePath names)) &&
    s.extensions.any fun e => Text.endsWith e (Text.lowerAscii (names.getLast?.getD []))

/-- The input with the given names below a directory. -/
def below (root : Text) (names : List Text) : InputFile :=
  ⟨names.foldl Path.join root, relativePath names.dropLast⟩

/-- The inputs that a path stands for. -/
def ofPath (tree : FileTree) (s : RunSettings) (path : Text) : List InputFile :=
  match tree.placeOf path with
  | .error _ => [⟨path, []⟩]
  | .ok place =>
    if tree.entryAt? place = some .directory then
      ((tree.filesBelow place).filter (isWanted s)).map (below path)
    else [⟨path, []⟩]

/-- The inputs that some paths stand for, in their order. -/
def collect (tree : FileTree) (s : RunSettings) (paths : List Text) : List InputFile :=
  paths.flatMap (ofPath tree s)

end InputFile

end VueSfc
