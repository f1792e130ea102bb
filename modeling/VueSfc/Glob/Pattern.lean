import VueSfc.Text.Basic

/-!
# Glob patterns

A pattern says which byte strings it matches. Slashes are bytes like any other, except that
some patterns speak of whole directories. A pattern matches in front of a continuation: it
accepts what is left once it has taken its share, and a whole string is matched when nothing
may be left.
-/

namespace VueSfc.Glob

/-- What a pattern is made of. -/
inductive Pattern where
  /-- The empty string. -/
  | nothing
  /-- One given byte. -/
  | byte (b : UInt8)
  /-- Any one byte. -/
  | anyByte
  /-- Any bytes. -/
  | anyBytes
  /-- One byte inside some inclusive ranges, or outside all of them. -/
  | oneOf (negated : Bool) (ranges : List (UInt8 × UInt8))
  /-- Directories at the front: nothing, a slash, or bytes that end with a slash. -/
  | leadingDirs
  /-- Directories in the middle: a slash, or bytes that begin and end with one. -/
  | innerDirs
  /-- A slash and any bytes. -/
  | trailingDirs
  /-- One pattern and then another. -/
  | seq (first second : Pattern)
  /-- One pattern or another. -/
  | either (first second : Pattern)
  deriving DecidableEq, Repr

/-- The byte of a slash. -/
def slash : UInt8 := 0x2F

/-- Some end of the string is accepted. -/
def someTail (accept : List UInt8 → Bool) : List UInt8 → Bool
  | [] => accept []
  | b :: s => accept (b :: s) || someTail accept s

/-- What follows some slash of the string is accepted. -/
def someAfterSlash (accept : List UInt8 → Bool) : List UInt8 → Bool
  | [] => false
  | b :: s => b == slash && accept s || someAfterSlash accept s

/-- The first byte passes a test and what follows it is accepted. -/
def firstByte (test : UInt8 → Bool) (accept : List UInt8 → Bool) : List UInt8 → Bool
  | [] => false
  | b :: s => test b && accept s

/-- A byte lies in one of some inclusive ranges. -/
def inRanges (ranges : List (UInt8 × UInt8)) (b : UInt8) : Bool :=
  ranges.any fun (low, high) => low ≤ b && b ≤ high

namespace Pattern

/-- The pattern takes a front part of the string and what is left is accepted. -/
def accepts : Pattern → (List UInt8 → Bool) → List UInt8 → Bool
  | nothing, accept, s => accept s
  | byte b, accept, s => firstByte (· == b) accept s
  | anyByte, accept, s => firstByte (fun _ => true) accept s
  | anyBytes, accept, s => someTail accept s
  | oneOf negated ranges, accept, s => firstByte (fun b => inRanges ranges b != negated) accept s
  | leadingDirs, accept, s => accept s || someAfterSlash accept s
  | innerDirs, accept, s =>
    firstByte (· == slash) (fun s => accept s || someAfterSlash accept s) s
  | trailingDirs, accept, s => firstByte (· == slash) (someTail accept) s
  | seq p q, accept, s => p.accepts (q.accepts accept) s
  | either p q, accept, s => p.accepts accept s || q.accepts accept s

/-- The pattern matches the whole string. -/
def isMatch (p : Pattern) (s : List UInt8) : Bool := p.accepts List.isEmpty s

/-- Patterns one after another, those left out that match the empty string only. -/
def ofItems : List Pattern → Pattern
  | [] => nothing
  | p :: ps =>
    if p = nothing then ofItems ps
    else if ofItems ps = nothing then p
    else seq p (ofItems ps)

/-- A choice between patterns, those left out that match the empty string only; if there is no
other, the empty string. -/
def ofBranches : List Pattern → Pattern
  | [] => nothing
  | p :: ps =>
    if p = nothing then ofBranches ps
    else if ofBranches ps = nothing then p
    else either p (ofBranches ps)

/-- The bytes of a character, one after another. -/
def ofChar (c : Char) : Pattern := ofItems ((String.utf8EncodeChar c).map byte)

end Pattern

/-- A path is matched by its bytes. -/
def matchesPath (p : Pattern) (path : Text) : Bool :=
  p.isMatch (path.flatMap String.utf8EncodeChar)

end VueSfc.Glob
