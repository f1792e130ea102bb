import VueSfc.Glob.Pattern

/-!
# Reading glob patterns

A pattern is written with `?` and `*` for any one byte and any bytes, classes in brackets,
choices in braces, and a backslash in front of a character that stands for itself. Two stars
speak of directories where slashes or the ends of the pattern or of a branch are around them,
and stand for two single stars everywhere else. What is wrong with a pattern is found from
left to right; a brace that is never closed is found last.
-/

namespace VueSfc.Glob

/-- What is wrong with a written pattern. -/
inductive GlobFault where
  /-- A class has no end. -/
  | unclosedClass
  /-- A range goes from a character down to a lower one. -/
  | invalidRange (first last : Char)
  /-- A choice has no end. -/
  | unclosedChoice
  /-- A closing brace ends no choice. -/
  | unopenedChoice
  /-- A backslash ends the pattern. -/
  | danglingEscape
  deriving DecidableEq, Repr

/-- The wording of a fault. -/
def GlobFault.message : GlobFault → Text
  | .unclosedClass => "unclosed character class; missing ']'"
  | .invalidRange first last => "invalid range; '" ++ [first] ++ "' > '" ++ [last] ++ "'"
  | .unclosedChoice =>
    "unclosed alternate group; missing '\x7d' (maybe escape '\x7b' with '[\x7b]'?)"
  | .unopenedChoice =>
    "unopened alternate group; missing '\x7b' (maybe escape '\x7d' with '[\x7d]'?)"
  | .danglingEscape => "dangling '\\'"

/-- How far the inside of a class has been read. -/
structure ClassState where
  /-- The ranges of characters, the last one first. -/
  ranges : List (Char × Char)
  /-- Nothing has been read yet. -/
  atStart : Bool
  /-- A dash has been read that may stand inside a range. -/
  dashed : Bool

/-- Read one more character of a class. The last range is extended behind a dash. -/
def ClassState.step (s : ClassState) (c : Char) : Except GlobFault ClassState :=
  if c = '-' ∧ !s.atStart ∧ !s.dashed then .ok { s with dashed := true }
  else
    match s.dashed, s.ranges with
    | true, (first, _) :: rest =>
      if c < first then .error (.invalidRange first c) else .ok ⟨(first, c) :: rest, false, false⟩
    | _, ranges => .ok ⟨(c, c) :: ranges, false, false⟩

/-- The ranges of a class, the first one first; a dash at the end stands for itself. -/
def ClassState.finish (s : ClassState) : List (Char × Char) :=
  (if s.dashed then ('-', '-') :: s.ranges else s.ranges).reverse

/-- Read the inside of a class and its closing bracket, which stands for itself at the start. -/
def readRanges (s : ClassState) : Text → Except GlobFault (List (Char × Char) × Text)
  | [] => .error .unclosedClass
  | c :: r =>
    if c = ']' ∧ !s.atStart then .ok (s.finish, r)
    else
      match s.step c with
      | .error fault => .error fault
      | .ok s => readRanges s r

/-- The mark that turns a class around, if the class begins with one. -/
def readNegation : Text → Bool × Text
  | '!' :: r => (true, r)
  | '^' :: r => (true, r)
  | r => (false, r)

/-- The bytes that a range of characters stands for: the bytes of its ends, those between the
last byte of the first and the first byte of the last taken as a range. -/
def rangeBytes (range : Char × Char) : List (UInt8 × UInt8) :=
  let single (bs : List UInt8) : List (UInt8 × UInt8) := bs.map fun b => (b, b)
  let first := String.utf8EncodeChar range.1
  let last := String.utf8EncodeChar range.2
  if range.1 = range.2 then single first
  else
    single first.dropLast ++ [(first.getLast?.getD 0, last.head?.getD 0)] ++ single last.tail

/-- Read a class behind its opening bracket. -/
def readClass (text : Text) : Except GlobFault (Pattern × Text) :=
  let (negated, text) := readNegation text
  match readRanges ⟨[], true, false⟩ text with
  | .error fault => .error fault
  | .ok (ranges, rest) => .ok (.oneOf negated (ranges.flatMap rangeBytes), rest)

/-- A part of a branch. -/
inductive Item where
  /-- A part written without braces. -/
  | single (p : Pattern)
  /-- A choice. -/
  | choice (p : Pattern)
  deriving DecidableEq, Repr

/-- The pattern of a part. -/
def Item.pattern : Item → Pattern
  | single p => p
  | choice p => p

/-- A place in a pattern: the items of the current branch and the earlier branches of its choice,
both with the last one first. -/
structure Branch where
  /-- The items of the branch. -/
  items : List Item
  /-- The earlier branches. -/
  earlier : List Pattern

/-- How far a pattern has been read. -/
structure ReadState where
  /-- The innermost place. -/
  branch : Branch
  /-- The places around it. -/
  outer : List Branch
  /-- The last character read. -/
  last : Option Char

namespace ReadState

/-- A choice is open. -/
def inChoice (s : ReadState) : Bool := !s.outer.isEmpty

/-- One more item, ended by the given character. -/
def pushItem (s : ReadState) (item : Item) (last : Char) : ReadState :=
  { s with branch := { s.branch with items := item :: s.branch.items }, last := some last }

/-- One more item that is no choice. -/
def push (s : ReadState) (p : Pattern) (last : Char) : ReadState := s.pushItem (.single p) last

/-- The pattern of the current branch. -/
def branchPattern (s : ReadState) : Pattern := .ofItems (s.branch.items.reverse.map Item.pattern)

/-- Open a choice. -/
def openChoice (s : ReadState) : ReadState := ⟨⟨[], []⟩, s.branch :: s.outer, some '\x7b'⟩

/-- End a branch, where a choice is open. -/
def nextBranch (s : ReadState) : ReadState :=
  { s with branch := ⟨[], s.branchPattern :: s.branch.earlier⟩, last := some ',' }

/-- Close a choice. -/
def closeChoice (s : ReadState) : Except GlobFault ReadState :=
  match s.outer with
  | [] => .error .unopenedChoice
  | branch :: outer =>
    let choice := Pattern.ofBranches (s.branchPattern :: s.branch.earlier).reverse
    .ok (ReadState.pushItem ⟨branch, outer, s.last⟩ (.choice choice) '\x7d')

/-- Put directories in the place of the last item, unless that speaks of directories at the front
or at the end itself. -/
def replaceLast (s : ReadState) (dirs : Pattern) (last : Char) : ReadState :=
  match s.branch.items with
  | .single .leadingDirs :: _ => { s with last := some last }
  | .single .trailingDirs :: _ => { s with last := some last }
  | items => ReadState.push { s with branch := { s.branch with items := items.tail } } dirs last

/-- Two single stars. -/
def pushStars (s : ReadState) : ReadState := (s.push .anyBytes '*').push .anyBytes '*'

/-- Two stars may speak of directories here, where the branch has items: behind a slash, or behind
a comma or an opening brace inside a choice. -/
def mayBeDirs (s : ReadState) : Bool :=
  s.last == some '/' || s.inChoice && (s.last == some ',' || s.last == some '\x7b')

/-- Read two stars, with what follows them. -/
def doubleStar (s : ReadState) (text : Text) : ReadState × Text :=
  if s.branch.items.isEmpty then
    match text with
    | [] => (s.push .leadingDirs '*', [])
    | '/' :: r => (s.push .leadingDirs '/', r)
    | r => (s.pushStars, r)
  else if !s.mayBeDirs then (s.pushStars, text)
  else
    match text with
    | [] => (s.replaceLast .trailingDirs '*', [])
    | '/' :: r => (s.replaceLast .innerDirs '/', r)
    | c :: r =>
      if s.inChoice && (c == ',' || c == '\x7d') then (s.replaceLast .trailingDirs '*', c :: r)
      else (s.pushStars, c :: r)

/-- Read one item that begins with the given character. -/
def readItem (s : ReadState) (c : Char) (r : Text) : Except GlobFault (ReadState × Text) :=
  match c with
  | '?' => .ok (s.push .anyByte '?', r)
  | '*' =>
    match r with
    | '*' :: r => .ok (s.doubleStar r)
    | r => .ok (s.push .anyBytes '*', r)
  | '[' => (readClass r).map fun (item, r) => (s.push item ']', r)
  | '\x7b' => .ok (s.openChoice, r)
  | '\x7d' => s.closeChoice.map fun s => (s, r)
  | ',' => .ok (if s.inChoice then s.nextBranch else s.push (.ofChar ',') ',', r)
  | '\\' =>
    match r with
    | [] => .error .danglingEscape
    | c :: r => .ok (s.push (.ofChar c) c, r)
  | c => .ok (s.push (.ofChar c) c, r)

/-- Read items, of which there are at most the given number. -/
def readItems (s : ReadState) : Nat → Text → Except GlobFault ReadState
  | n + 1, c :: r =>
    match s.readItem c r with
    | .error fault => .error fault
    | .ok (s, r) => s.readItems n r
  | _, _ => .ok s

/-- The pattern that has been read; directories at the front alone match everything. -/
def finish (s : ReadState) : Except GlobFault Pattern :=
  if s.inChoice then .error .unclosedChoice
  else
    match s.branch.items with
    | [.single .leadingDirs] => .ok .anyBytes
    | _ => .ok s.branchPattern

end ReadState

/-- Read a written pattern. -/
def Pattern.ofText (text : Text) : Except GlobFault Pattern :=
  match ReadState.readItems ⟨⟨[], []⟩, [], none⟩ text.length text with
  | .error fault => .error fault
  | .ok s => s.finish

end VueSfc.Glob
