import VueSfc.Offset.Slice
import VueSfc.Markup.BlankRun
import VueSfc.Markup.Element
import VueSfc.Markup.Tag

/-!
# Markup by offsets

Words are looked for in the bytes of a text, and elements are taken out, tags removed and runs of
blank characters collapsed by loops that keep their places in the text as byte offsets. Each loop
has a number of rounds, and one more round is a breach.
-/

namespace VueSfc.Offset

open Text Markup Element

/-! ## Words in bytes -/

/-- The bytes of a text in UTF-8. -/
def utf8 (text : Text) : List UInt8 := text.flatMap String.utf8EncodeChar

/-- Lower case for the byte of an ASCII letter, every other byte kept. -/
def lowerByte (b : UInt8) : UInt8 := if 65 ≤ b.toNat ∧ b.toNat ≤ 90 then b + 32 else b

/-- Some bytes agree with a word up to the case of ASCII letters. -/
def eqFoldBytes (bytes word : List UInt8) : Bool := bytes.map lowerByte == word.map lowerByte

/-- Compare a word with the bytes at some offsets in a row, and give the first at which it
stands. -/
def firstMatch (word bytes : List UInt8) : (rounds start : Nat) → Checked (Option Nat)
  | 0, _ => return none
  | rounds + 1, start => do
    let piece ← byteSlice bytes start (start + word.length)
    if eqFoldBytes piece word then return some start
    else firstMatch word bytes rounds (start + 1)

/-- The offset of the first occurrence of a word at or behind an offset, ignoring the case of ASCII
letters. The last offset that is tried leaves room for the word. -/
def findIgnoreCase (word text : Text) (start : Nat) : Checked (Option Nat) := do
  let bytes := utf8 text
  if (utf8 word).isEmpty || bytes.length < start then return none
  let room ← minus bytes.length start
  if room < (utf8 word).length then return none
  let last ← minus bytes.length (utf8 word).length
  firstMatch (utf8 word) bytes (last + 1 - start) start

/-- The text starts with a word, ignoring the case of ASCII letters. -/
def startsIgnoreCase (word text : Text) : Checked Bool := do
  if (utf8 text).length < (utf8 word).length then return false
  let front ← byteSlice (utf8 text) 0 (utf8 word).length
  return eqFoldBytes front (utf8 word)

/-! ## Elements -/

/-- The span of the first element that opens at or behind an offset. Only the first opening word is
looked at. -/
def findElement (name text : Text) (start : Nat) : Checked (Option Span) := do
  match ← findIgnoreCase (opening name) text start with
  | none => return none
  | some first =>
    let behind ← sliceFrom text first
    match seekChar (· == '>') behind with
    | none => return none
    | some length =>
      let contentStart := first + length + 1
      match ← findIgnoreCase (closing name) text contentStart with
      | none => return none
      | some contentStop =>
        return some ⟨first, contentStart, contentStop, contentStop + byteSize (closing name)⟩

/-- Take out the elements of a name from an offset on: the text left from there and the contents. -/
def exciseLoop (name text : Text) : (rounds cursor : Nat) → Checked (Text × List Text)
  | 0, _ => .error .endless
  | rounds + 1, cursor => do
    match ← findElement name text cursor with
    | none =>
      let rest ← sliceFrom text cursor
      return (rest, [])
    | some span =>
      let content ← slice text span.contentStart span.contentStop
      let kept ← slice text cursor span.start
      let behind ← exciseLoop name text rounds span.stop
      return (kept ++ behind.1, content :: behind.2)

/-- A text without its elements of a name, and their contents. -/
def exciseElements (name text : Text) : Checked (Text × List Text) :=
  exciseLoop name text (byteSize text + 1) 0

/-! ## Tags -/

/-- The place behind a slash at an offset, where closing tags are meant and there is one. -/
def skipSlash (form : TagForm) (text : Text) (start : Nat) : Checked Nat :=
  match form with
  | .opening => return start
  | .openingOrClosing => do
    let behind ← sliceFrom text start
    return if behind.head? = some '/' then start + 1 else start

/-- What a `<` is, for the removal of tags. -/
inductive TagScan where
  /-- The name does not stand behind it. -/
  | unnamed
  /-- The name stands behind it, and no `>` anywhere behind that. -/
  | unclosed
  /-- It begins a tag that ends at an offset. -/
  | tag (stop : Nat)
  deriving DecidableEq, Repr

/-- What the `<` at an offset is. -/
def scanTag (form : TagForm) (name text : Text) (start : Nat) : Checked TagScan := do
  let nameStart ← skipSlash form text (start + 1)
  let behind ← sliceFrom text nameStart
  let named ← startsIgnoreCase name behind
  if named then
    match seekChar (· == '>') behind with
    | none => return .unclosed
    | some length => return .tag (nameStart + length + 1)
  else return .unnamed

/-- Remove the tags of a name from an offset on: the text left from the place behind the last
tag. -/
def stripLoop (form : TagForm) (name text : Text) : (rounds cursor search : Nat) → Checked Text
  | 0, _, _ => .error .endless
  | rounds + 1, cursor, search => do
    let ahead ← sliceFrom text search
    match seekChar (· == '<') ahead with
    | none => sliceFrom text cursor
    | some length =>
      let start := search + length
      match ← scanTag form name text start with
      | .unnamed => stripLoop form name text rounds cursor (start + 1)
      | .unclosed => sliceFrom text cursor
      | .tag stop =>
        let kept ← slice text cursor start
        let left ← stripLoop form name text rounds stop stop
        return kept ++ left

/-- A text without its tags of a form and name. -/
def stripTags (form : TagForm) (name text : Text) : Checked Text :=
  stripLoop form name text (byteSize text + 1) 0 0

/-! ## Runs of blank characters -/

/-- A run with three or more line feeds has two in place of them and what stands between them. -/
def squeezeRun (run : Text) : Checked Text :=
  if 3 ≤ run.count '\n' then do
    let first := (seekChar (· == '\n') run).getD 0
    let final ← minus (byteSize run) 1
    let last := (seekLast (· == '\n') run).getD final
    let front ← sliceTo run first
    let back ← sliceFrom run (last + 1)
    return front ++ ['\n', '\n'] ++ back
  else return run

/-- Squeeze the runs of blank characters of a text, one after another. -/
def collapseLoop : (rounds : Nat) → Text → Checked Text
  | 0, _ => .error .endless
  | rounds + 1, rest => do
    match seekChar isBlank rest with
    | none => return rest
    | some start =>
      let before ← sliceTo rest start
      let behind ← sliceFrom rest start
      let size ← minus (byteSize rest) start
      let stop := start + (seekChar (fun c => !isBlank c) behind).getD size
      let run ← slice rest start stop
      let squeezed ← squeezeRun run
      let tail ← sliceFrom rest stop
      let left ← collapseLoop rounds tail
      return before ++ squeezed ++ left

/-- A text with its runs of blank characters squeezed. -/
def collapseBlankLines (text : Text) : Checked Text := collapseLoop (byteSize text + 1) text

end VueSfc.Offset
