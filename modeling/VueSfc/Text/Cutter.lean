import VueSfc.Text.Basic

/-!
# Cutting pieces out of a text

A cutter reads one removable piece at the front of a text. Cutting a text removes the
leftmost piece, goes on behind it, and so removes every piece that does not overlap an
earlier one. The text that is left and the pieces are returned in their order.
-/

namespace VueSfc.Text

/-- A reader of one piece at the front of a text, which always consumes some of it. -/
structure Cutter (α : Type) where
  /-- The piece at the front of a text and what follows it. -/
  read? : Text → Option (α × Text)
  /-- What follows a piece is shorter than what began with it. -/
  shorter : ∀ {text piece rest}, read? text = some (piece, rest) → rest.length < text.length

namespace Cutter

variable {α : Type}

/-- The leftmost piece of a text, with what precedes and what follows it. -/
def find? (cutter : Cutter α) : Text → Option (Text × α × Text)
  | [] => none
  | c :: r =>
    match cutter.read? (c :: r) with
    | some (piece, rest) => some ([], piece, rest)
    | none => (cutter.find? r).map fun (front, found) => (c :: front, found)

/-- The text that is left when every piece is cut out, and the pieces in order. -/
def cut (cutter : Cutter α) : Text → Text × List α
  | [] => ([], [])
  | c :: r =>
    match _h : cutter.read? (c :: r) with
    | some (piece, rest) =>
      let (left, pieces) := cutter.cut rest
      (left, piece :: pieces)
    | none =>
      let (left, pieces) := cutter.cut r
      (c :: left, pieces)
termination_by text => text.length
decreasing_by
  · exact cutter.shorter _h
  · exact Nat.lt_succ_self _

/-- The text that is left when every piece is cut out. -/
def remove (cutter : Cutter α) (text : Text) : Text := (cutter.cut text).1

/-- Nothing is cut out of the empty text. -/
theorem cut_nil (cutter : Cutter α) : cutter.cut [] = ([], []) := by
  rw [cut]

/-- A piece at the front is cut out. -/
theorem cut_of_read? {cutter : Cutter α} {text rest : Text} {piece : α}
    (h : cutter.read? text = some (piece, rest)) :
    cutter.cut text = ((cutter.cut rest).1, piece :: (cutter.cut rest).2) := by
  cases text with
  | nil => exact absurd (cutter.shorter h) (Nat.not_lt_zero _)
  | cons c r => rw [cut]; split <;> simp_all

/-- A character at which no piece begins is kept. -/
theorem cut_cons_of_read?_eq_none {cutter : Cutter α} {c : Char} {r : Text}
    (h : cutter.read? (c :: r) = none) :
    cutter.cut (c :: r) = (c :: (cutter.cut r).1, (cutter.cut r).2) := by
  rw [cut]; split <;> simp_all

end Cutter

end VueSfc.Text
