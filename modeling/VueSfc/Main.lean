import VueSfc.Run.Session

/-!
# The command

The command loads the part of the file system that a run can see into a file tree, runs, and
carries out what the run has changed. Everything it decides, it decides by the run.
-/

namespace VueSfc.Command

/-- What stands where a path leads, files without their bytes. -/
def entryAt (path : Text) : IO (Option Entry) := do
  match ← ((← IO.currentDir) / String.ofList path).metadata.toBaseIO with
  | .error _ => return none
  | .ok metadata =>
    match metadata.type with
    | .dir => return some .directory
    | _ => return some (.file [])

/-- Put an entry where a path leads, if nothing stands there yet. -/
def plantAt (tree : FileTree) (path : Text) (entry : Entry) : FileTree :=
  match tree.placeOf path with
  | .error _ => tree
  | .ok place => if tree.entryAt? place = none then tree.plant place entry else tree

/-- Load what stands on the way to a path and at its end. -/
def loadPath (tree : FileTree) (path : Text) : IO FileTree := do
  let addEntry (tree : FileTree) (path : Text) : IO FileTree := do
    match ← entryAt path with
    | some entry => return plantAt tree path entry
    | none => return tree
  (Path.ancestors path).reverse.foldlM addEntry tree

/-- Load everything below a directory, links left out. -/
partial def loadBelow (tree : FileTree) (path : Text) : IO FileTree := do
  let mut tree := tree
  for child in ← ((← IO.currentDir) / String.ofList path).readDir do
    let childPath := Path.join path child.fileName.toList
    match (← child.path.symlinkMetadata).type with
    | .dir => tree ← loadBelow (plantAt tree childPath .directory) childPath
    | .file => tree := plantAt tree childPath (.file [])
    | _ => pure ()
  return tree

/-- Load a path and, if it leads to a directory, everything below it. -/
def loadAll (tree : FileTree) (path : Text) : IO FileTree := do
  let tree ← loadPath tree path
  if tree.isDirectory path then loadBelow tree path else return tree

/-- Load the bytes of the file at a path. -/
def loadBytes (tree : FileTree) (path : Text) : IO FileTree := do
  match tree.placeOf path, tree.entryOf path with
  | .ok place, .ok (.file _) =>
    return tree.set place (.file (← IO.FS.readBinFile (String.ofList path)).toList)
  | _, _ => return tree

/-- The names on the way from the root to the directory of the command. -/
def workingPlace : IO Place := do
  let directory ← IO.currentDir
  return (Path.components directory.toString.toList).filterMap fun
    | .name text => some text
    | _ => none

/-- Read standard input to its end. -/
partial def readInput (stream : IO.FS.Stream) (before : ByteArray) : IO ByteArray := do
  let block ← stream.read 65536
  if block.isEmpty then return before else readInput stream (before ++ block)

/-- Nanoseconds as milliseconds with three digits behind the point. -/
def milliseconds (nanoseconds : Nat) : Text :=
  let micros := nanoseconds / 1000
  let fraction := Text.ofNat (micros % 1000)
  Text.ofNat (micros / 1000) ++ ['.'] ++ List.replicate (3 - fraction.length) '0' ++ fraction

/-- A duration as the timings have it. -/
def duration (format : TimingFormat) (nanoseconds : Nat) : Text :=
  match format with
  | .text => milliseconds nanoseconds ++ ['m', 's']
  | .json => milliseconds nanoseconds

/-- Load what a run with accepted arguments can see. -/
def loadFor (o : Options) (timingsValue : Option Text) : IO FileTree := do
  let place ← workingPlace
  let mut tree := (FileTree.empty place).plant place .directory
  for path in [configFileName] ++ o.config.toList do
    tree ← loadBytes (← loadPath tree path) path
  match loadConfiguration tree o.config with
  | .error _ => return tree
  | .ok (c, _) =>
    match RunSettings.resolve o c timingsValue with
    | .error _ => return tree
    | .ok s =>
      for path in o.paths ++ s.outDir.toList do
        tree ← loadAll tree path
      for input in InputFile.collect tree s o.paths do
        tree ← loadBytes tree input.path
        tree ← loadPath tree (input.componentPath s.outDir)
      return tree

/-- Carry out the changes of a run. -/
def store (earlier tree : FileTree) : IO Unit := do
  for (place, content) in tree.changesSince earlier do
    let path := Path.build .root place
    if let some parent := Path.parent? path then
      IO.FS.createDirAll (String.ofList parent)
    IO.FS.writeBinFile (String.ofList path) ⟨content.toArray⟩

/-- What is said about the use of the command. -/
def usage : String :=
  "usage: html2vue [PATHS]... [--api composition|options] [--out-dir DIR] [--stdout]\n" ++
  "  [--output human|json|machine] [--ignore GLOB]... [--fail-on-invalid] [--config FILE]\n" ++
  "  [--timings] [--timings-format text|json]"

/-- Run with accepted arguments. -/
def runOptions (arguments : List Text) (o : Options) : IO UInt32 := do
  let started ← IO.monoNanosNow
  let timingsValue := (← IO.getEnv "HTML2VUE_TIMINGS").map String.toList
  let tree ← loadFor o timingsValue
  let input ← if o.readsInput then readInput (← IO.getStdin) .empty else pure .empty
  let loaded ← IO.monoNanosNow
  let result := run ⟨arguments, .file input.toList, timingsValue, tree⟩
  (← IO.getStdout).putStr (String.ofList result.output)
  let converted ← IO.monoNanosNow
  store tree result.tree
  let stored ← IO.monoNanosNow
  let format := (result.timings.map Prod.fst).getD .text
  let durations : Durations := ⟨duration format (loaded - started),
    duration format (converted - loaded), duration format (stored - converted),
    duration format (stored - started)⟩
  (← IO.getStderr).putStr (String.ofList (result.errorOutput durations))
  if let .fatal fault := result.ending then
    IO.eprintln s!"Error: {String.ofList fault.message}"
  return result.exitCode.toUInt32

end VueSfc.Command

open VueSfc VueSfc.Command in
/-- The command. -/
def main (arguments : List String) : IO UInt32 := do
  let arguments := arguments.map String.toList
  match Options.ofArguments arguments with
  | .ok o => runOptions arguments o
  | .error .help => IO.println usage; return 0
  | .error .version => IO.println "html2vue 0.3.1"; return 0
  | .error _ => IO.eprintln usage; return 2
