import VueSfc.Path

/-!
# File trees

A file tree holds directories and files by their place: the names on the way from the root.
Paths are looked up from a working directory, one segment after another, and every segment
needs a directory to start from. Entries are kept in the order of their places, so a directory
comes before what it holds and neighbours are in the order of their names.

There is nothing else in a tree, no links in particular. So every entry has one place, two places
never hold the same file, and what a run does to one of them is not seen at the other.
-/

namespace VueSfc

/-- A place in a tree: the names on the way from the root. -/
abbrev Place := List Text

/-- The content of a file. -/
abbrev Bytes := List UInt8

/-- What stands at a place. An entry is never a link to another place. -/
inductive Entry where
  /-- A directory. -/
  | directory
  /-- A file with its bytes. -/
  | file (content : Bytes)
  deriving DecidableEq, Repr

/-- Why an operation on files failed. -/
inductive FileFault where
  /-- Nothing stands at the place. -/
  | notFound
  /-- Something stands at the place already. -/
  | exists
  /-- A directory was needed. -/
  | notDirectory
  /-- A file was needed. -/
  | isDirectory
  /-- The bytes are not the UTF-8 form of a text. -/
  | notText
  deriving DecidableEq, Repr

/-- The wording of a file fault. -/
def FileFault.message : FileFault → Text
  | .notFound => "No such file or directory (os error 2)"
  | .exists => "File exists (os error 17)"
  | .notDirectory => "Not a directory (os error 20)"
  | .isDirectory => "Is a directory (os error 21)"
  | .notText => "stream did not contain valid UTF-8"

/-- Entries in the order of their places, each place once. -/
def InOrder (entries : List (Place × Entry)) : Prop := entries.Pairwise fun a b => a.1 < b.1

/-- Directories and files, without links, and the directory from which paths are looked up. -/
structure FileTree where
  /-- What stands at each place but the root. -/
  entries : List (Place × Entry)
  /-- The working directory. -/
  workingDirectory : Place
  /-- The entries stand in order. -/
  inOrder : InOrder entries

/-- The bytes of a text. -/
def encodeText (text : Text) : Bytes := text.flatMap String.utf8EncodeChar

/-- The text that bytes are the UTF-8 form of. -/
def decodeText? (bytes : Bytes) : Option Text :=
  (ByteArray.mk bytes.toArray).utf8Decode?.map Array.toList

/-- Every text is read back from its bytes. -/
theorem decodeText?_encodeText (text : Text) : decodeText? (encodeText text) = some text := by
  have h : ByteArray.mk (encodeText text).toArray = text.utf8Encode :=
    ByteArray.ext (by simp [encodeText, List.utf8Encode])
  simp [decodeText?, h]

/-- The text of a file. -/
def Entry.text : Entry → Except FileFault Text
  | .directory => .error .isDirectory
  | .file content =>
    match decodeText? content with
    | some text => .ok text
    | none => .error .notText

namespace FileTree

/-- Put an entry at its place in the order, instead of one that stands there. -/
def insertEntry (place : Place) (entry : Entry) : List (Place × Entry) → List (Place × Entry)
  | [] => [(place, entry)]
  | (p, e) :: rest =>
    if place = p then (place, entry) :: rest
    else if place < p then (place, entry) :: (p, e) :: rest
    else (p, e) :: insertEntry place entry rest

/-- Every entry is the one put in or was there before. -/
theorem mem_insertEntry {place : Place} {entry : Entry} {es : List (Place × Entry)}
    {x : Place × Entry} (h : x ∈ insertEntry place entry es) : x = (place, entry) ∨ x ∈ es := by
  induction es with
  | nil => simpa [insertEntry] using h
  | cons y rest ih =>
    simp only [insertEntry] at h
    split at h
    · rcases List.mem_cons.1 h with h | h
      · exact .inl h
      · exact .inr (List.mem_cons_of_mem _ h)
    · split at h
      · simpa using h
      · rcases List.mem_cons.1 h with h | h
        · exact .inr (h ▸ List.mem_cons_self)
        · exact (ih h).imp id (List.mem_cons_of_mem _)

/-- Entries stay in order. -/
theorem inOrder_insertEntry (place : Place) (entry : Entry) {es : List (Place × Entry)}
    (h : InOrder es) : InOrder (insertEntry place entry es) := by
  induction es with
  | nil => exact List.pairwise_singleton _ _
  | cons y rest ih =>
    obtain ⟨hy, hr⟩ := List.pairwise_cons.1 h
    simp only [insertEntry]
    split
    · rename_i he
      exact List.pairwise_cons.2 ⟨fun x hx => he ▸ hy x hx, hr⟩
    · rename_i hne
      split
      · rename_i hl
        refine List.pairwise_cons.2 ⟨fun x hx => ?_, h⟩
        rcases List.mem_cons.1 hx with rfl | hx
        · exact hl
        · exact List.lt_trans hl (hy x hx)
      · rename_i hl
        have hg : y.1 < place := by
          refine Decidable.byContradiction fun hn => hne ?_
          exact Std.Trichotomous.trichotomous (r := (· < ·)) place y.1 hl hn
        refine List.pairwise_cons.2 ⟨fun x hx => ?_, ih hr⟩
        rcases mem_insertEntry hx with rfl | hx
        · exact hg
        · exact hy x hx

/-- The tree that holds nothing. -/
def empty (workingDirectory : Place) : FileTree := ⟨[], workingDirectory, .nil⟩

/-- What stands at a place; the root is a directory. -/
def entryAt? (tree : FileTree) (place : Place) : Option Entry :=
  if place = [] then some .directory else tree.entries.lookup place

/-- A tree with an entry put at a place. -/
def set (tree : FileTree) (place : Place) (entry : Entry) : FileTree :=
  { tree with
    entries := insertEntry place entry tree.entries
    inOrder := inOrder_insertEntry place entry tree.inOrder }

/-- The place one segment away from a directory. -/
def stepFrom (place : Place) (segment : Text) : Place :=
  if Path.isIdle segment then place
  else if segment = ['.', '.'] then place.dropLast
  else place ++ [segment]

/-- The place that segments lead to. Whatever stands at the last place, even nothing, every place
before it must be a directory. -/
def follow (tree : FileTree) (place : Place) : List Text → Except FileFault Place
  | [] => .ok place
  | segment :: rest =>
    match tree.entryAt? place with
    | none => .error .notFound
    | some (.file _) => .error .notDirectory
    | some .directory => tree.follow (stepFrom place segment) rest

/-- The place that a path leads to. -/
def placeOf (tree : FileTree) (path : Text) : Except FileFault Place :=
  if path.isEmpty then .error .notFound
  else
    match Path.split path with
    | (.root, segments) => tree.follow [] segments
    | (_, segments) => tree.follow tree.workingDirectory segments

/-- What stands where a path leads. -/
def entryOf (tree : FileTree) (path : Text) : Except FileFault Entry :=
  match tree.placeOf path with
  | .error fault => .error fault
  | .ok place =>
    match tree.entryAt? place with
    | none => .error .notFound
    | some entry => .ok entry

/-- Something stands where the path leads. -/
def exists? (tree : FileTree) (path : Text) : Bool :=
  match tree.entryOf path with
  | .ok _ => true
  | .error _ => false

/-- A directory stands where the path leads. -/
def isDirectory (tree : FileTree) (path : Text) : Bool :=
  match tree.entryOf path with
  | .ok .directory => true
  | _ => false

/-- The text of the file at a path. -/
def readText (tree : FileTree) (path : Text) : Except FileFault Text :=
  match tree.entryOf path with
  | .error fault => .error fault
  | .ok entry => entry.text

/-- Write a file, in place of one that stands there. -/
def write (tree : FileTree) (path : Text) (content : Bytes) : Except FileFault FileTree :=
  match tree.placeOf path with
  | .error fault => .error fault
  | .ok place =>
    match tree.entryAt? place with
    | some .directory => .error .isDirectory
    | _ => .ok (tree.set place (.file content))

/-- Make one directory, where nothing stands yet. -/
def makeDirectory (tree : FileTree) (path : Text) : Except FileFault FileTree :=
  match tree.placeOf path with
  | .error fault => .error fault
  | .ok place =>
    match tree.entryAt? place with
    | some _ => .error .exists
    | none => .ok (tree.set place .directory)

/-- Make the first of some directories, the others being its parents, nearest first. Parents are
made when one is missing, and a directory that stands there already will do. What has been made
stays, also when the last step fails. -/
def makeChain (tree : FileTree) : List Text → FileTree × Option FileFault
  | [] => (tree, none)
  | path :: parents =>
    match tree.makeDirectory path with
    | .ok tree => (tree, none)
    | .error .notFound =>
      match tree.makeChain parents with
      | (tree, some fault) => (tree, some fault)
      | (tree, none) =>
        match tree.makeDirectory path with
        | .ok tree => (tree, none)
        | .error fault => (tree, if tree.isDirectory path then none else some fault)
    | .error fault => (tree, if tree.isDirectory path then none else some fault)

/-- Make a directory and the parents that it lacks. -/
def makeDirectories (tree : FileTree) (path : Text) : FileTree × Option FileFault :=
  tree.makeChain (Path.ancestors path)

/-- The files below a place, by the names on the way from there, a directory's own files and the
files of its directories in the order of their names. -/
def filesBelow (tree : FileTree) (place : Place) : List Place :=
  tree.entries.filterMap fun (p, entry) =>
    match entry, Text.after? place p with
    | .file _, some names => if names.isEmpty then none else some names
    | _, _ => none

/-- The files that are new or have changed since an earlier tree, with their bytes. -/
def changesSince (tree earlier : FileTree) : List (Place × Bytes) :=
  tree.entries.filterMap fun (place, entry) =>
    match entry with
    | .directory => none
    | .file content =>
      if earlier.entryAt? place = some (.file content) then none else some (place, content)

/-- The places on the way to a place, the root left out. -/
def placesAbove (place : Place) : List Place :=
  (List.range place.length).tail.map fun n => place.take n

/-- A tree with an entry put at a place, and directories put on the way to it. -/
def plant (tree : FileTree) (place : Place) (entry : Entry) : FileTree :=
  let addDirectory (t : FileTree) (p : Place) : FileTree :=
    if t.entryAt? p = none then t.set p .directory else t
  ((placesAbove place).foldl addDirectory tree).set place entry

end FileTree

end VueSfc
