import VueSfc.Text.Search

/-!
# Ranges of bytes

A program on the UTF-8 form of a text speaks of places as byte offsets. It may take what lies
between two offsets only if the first is not behind the second, the second is not behind the end,
and neither lies inside of a character, and it may take one size from another only if that is not
negative. Here each such step gives its result or the breach that it would be.
-/

namespace VueSfc.Offset

open Text

/-- A step that a program on byte offsets may not take. -/
inductive Breach where
  /-- A range that stops before it starts. -/
  | reversed (start stop : Nat)
  /-- An offset behind the end. -/
  | outside (offset size : Nat)
  /-- An offset inside of a character. -/
  | insideChar (offset : Nat)
  /-- A difference below zero. -/
  | negative (whole part : Nat)
  /-- One more round of a loop that has had all of its rounds. -/
  | endless
  deriving DecidableEq, Repr

/-- What a program on byte offsets comes to: a result, or the first breach on the way. -/
abbrev Checked := Except Breach

@[simp] theorem ok_bind {α β : Type} (a : α) (f : α → Checked β) : (Except.ok a >>= f) = f a := rfl

@[simp] theorem pure_eq_ok {α : Type} (a : α) : (pure a : Checked α) = .ok a := rfl

/-- A difference of two sizes. -/
def minus (whole part : Nat) : Checked Nat :=
  if part ≤ whole then .ok (whole - part) else .error (.negative whole part)

/-- The bytes between two offsets. -/
def byteSlice (bytes : List UInt8) (start stop : Nat) : Checked (List UInt8) :=
  if stop < start then .error (.reversed start stop)
  else if bytes.length < stop then .error (.outside stop bytes.length)
  else .ok ((bytes.take stop).drop start)

/-! ## Ranges of a text -/

/-- Cut a text in two at a byte offset. -/
def cutAt (text : Text) (offset : Nat) : Checked (Text × Text) :=
  match cutAtByte? offset text with
  | none => .error (.outside offset (byteSize text))
  | some (front, back) =>
    if byteSize front = offset then .ok (front, back) else .error (.insideChar offset)

/-- The text between two byte offsets. -/
def slice (text : Text) (start stop : Nat) : Checked Text :=
  if stop < start then .error (.reversed start stop)
  else do
    let upTo ← cutAt text stop
    let between ← cutAt upTo.1 start
    return between.2

/-- The text from a byte offset on. -/
def sliceFrom (text : Text) (start : Nat) : Checked Text := slice text start (byteSize text)

/-- The text up to a byte offset. -/
def sliceTo (text : Text) (stop : Nat) : Checked Text := slice text 0 stop

/-! ## Searches -/

/-- The byte offset of the first place that passes a test. -/
def seek (test : Text → Bool) (text : Text) : Option Nat :=
  (cutBefore? test text).map fun (front, _) => byteSize front

/-- The byte offset of the first character that passes a test. -/
def seekChar (test : Char → Bool) : Text → Option Nat := seek fun rest => rest.head?.any test

/-- The byte offset of the last character that passes a test. -/
def seekLast (test : Char → Bool) : Text → Option Nat
  | [] => none
  | c :: r =>
    match seekLast test r with
    | some offset => some (c.utf8Size + offset)
    | none => if test c then some 0 else none

end VueSfc.Offset
