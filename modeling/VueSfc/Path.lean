import VueSfc.Text.Basic

/-!
# Paths

A path is a text in which slashes separate segments. Segments that are empty or a single dot
say nothing, except that a path may start at the root or with a dot, and what is left are its
components, which decide whether two paths are the same. Operations keep the text of a path
as it was written wherever they can.
-/

namespace VueSfc

/-- One step of a path. -/
inductive PathComponent where
  /-- The root. -/
  | root
  /-- A dot at the start. -/
  | here
  /-- Two dots. -/
  | up
  /-- A name. -/
  | name (text : Text)
  deriving DecidableEq, Repr

namespace Path

/-- What a path starts with: the root, a dot, or nothing. -/
inductive Anchor where
  /-- A slash at the start. -/
  | root
  /-- A dot as the first segment. -/
  | here
  /-- Neither. -/
  | relative
  deriving DecidableEq, Repr

/-- The anchor of a path, and the segments behind it. -/
def split (path : Text) : Anchor × List Text :=
  match path with
  | '/' :: body => (.root, body.splitOn '/')
  | ['.'] => (.here, [])
  | '.' :: '/' :: body => (.here, [] :: body.splitOn '/')
  | _ => (.relative, path.splitOn '/')

/-- The text of an anchor. -/
def Anchor.text : Anchor → Text
  | .root => ['/']
  | .here => ['.']
  | .relative => []

/-- The text of a path with the given anchor and segments. -/
def build (anchor : Anchor) (segments : List Text) : Text :=
  anchor.text ++ Text.joinWith ['/'] segments

/-- A segment that says nothing. -/
def isIdle (segment : Text) : Bool := segment.isEmpty || segment == ['.']

/-- The component of a segment, if it says anything. -/
def componentOf? (segment : Text) : Option PathComponent :=
  if isIdle segment then none
  else if segment = ['.', '.'] then some .up
  else some (.name segment)

/-- The components of an anchor. -/
def Anchor.components : Anchor → List PathComponent
  | .root => [.root]
  | .here => [.here]
  | .relative => []

/-- The components of a path. -/
def components (path : Text) : List PathComponent :=
  (split path).1.components ++ (split path).2.filterMap componentOf?

/-- The segments up to the last one that says something. -/
def trimIdle (segments : List Text) : List Text :=
  (segments.reverse.dropWhile isIdle).reverse

/-- The name that a path ends in. -/
def fileName? (path : Text) : Option Text :=
  match (components path).getLast? with
  | some (.name text) => some text
  | _ => none

/-- A file name without its extension, which begins at the last dot unless that is the first
character. -/
def stemOf (name : Text) : Text :=
  let stem := (name.reverse.dropWhile (· != '.')).tail.reverse
  if stem.isEmpty then name else stem

/-- The file name of a path without its extension. -/
def fileStem? (path : Text) : Option Text := (fileName? path).map stemOf

/-- A path without its last component, if it has one to lose. -/
def parent? (path : Text) : Option Text :=
  let (anchor, segments) := split path
  match trimIdle segments, anchor with
  | [], .here => some []
  | [], _ => none
  | segments, anchor => some (build anchor (trimIdle segments.dropLast))

/-- A path continued by another one, which takes its place if it starts at the root. -/
def join (path next : Text) : Text :=
  if next.head? = some '/' then next
  else if path.isEmpty || path.getLast? = some '/' then path ++ next
  else path ++ ['/'] ++ next

/-- A path with its file name, if it has one, replaced by another one. -/
def withFileName (path name : Text) : Text :=
  match fileName? path with
  | some _ => join ((parent? path).getD []) name
  | none => join path name

/-- The ends of reversed segments that begin with one that says something. -/
def tailsAtNames : List Text → List (List Text)
  | [] => []
  | s :: r => if isIdle s then tailsAtNames r else (s :: r) :: tailsAtNames r

/-- A path and its parents, nearest first, without the empty one. -/
def ancestors (path : Text) : List Text :=
  let (anchor, segments) := split path
  let fronts := (tailsAtNames segments.reverse).map fun s => build anchor s.reverse
  if anchor = .relative then fronts else fronts ++ [anchor.text]

end Path

end VueSfc
