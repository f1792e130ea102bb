/-!
# Texts

A text is its list of characters, so that every scan of it is recursion on a list.
Letter case is folded for ASCII letters only, which leaves every other character,
and so every length and every byte offset, as it was.
-/

namespace VueSfc

/-- A text is the list of its characters. -/
abbrev Text := List Char

/-- A literal stands for its characters. -/
instance : Coe String Text := ⟨String.toList⟩

namespace Text

/-- Two characters agree when they are equal up to the case of ASCII letters. -/
def sameFold (c d : Char) : Bool := c.toLower == d.toLower

/-- A text agrees with a word up to the case of ASCII letters. -/
def eqFold (word text : Text) : Bool := word.map Char.toLower == text.map Char.toLower

/-- The word stands at the front of the text, up to the case of ASCII letters. -/
def startsFold : Text → Text → Bool
  | [], _ => true
  | _ :: _, [] => false
  | p :: word, c :: text => sameFold p c && startsFold word text

/-- The text ends with the given word exactly. -/
def endsWith (word text : Text) : Bool := word.isSuffixOf text

/-- What follows a list that stands at the front of another one. -/
def after? {α : Type} [DecidableEq α] : List α → List α → Option (List α)
  | [], l => some l
  | _ :: _, [] => none
  | a :: front, b :: l => if a = b then after? front l else none

/-- A list has a given front just when it is that front and what follows it. -/
theorem after?_eq_some_iff {α : Type} [DecidableEq α] {front l rest : List α} :
    after? front l = some rest ↔ l = front ++ rest := by
  induction front generalizing l with
  | nil => simp [after?]
  | cons a front ih =>
    cases l with
    | nil => simp [after?]
    | cons b l =>
      simp only [after?, List.cons_append, List.cons.injEq]
      split
      · rename_i h
        simp [ih, h]
      · rename_i h
        simp [Ne.symm h]

/-- The text contains the given word exactly. -/
def containsWord (word : Text) : Text → Bool
  | [] => word.isEmpty
  | c :: r => word.isPrefixOf (c :: r) || containsWord word r

/-- The lines of a text: the pieces between its line feeds, of which there is at least one. -/
def lines (text : Text) : List Text := text.splitOn '\n'

/-- Pieces put one after another with a separator between neighbours. -/
def joinWith (separator : Text) (pieces : List Text) : Text := separator.intercalate pieces

/-- Lines joined by line feeds. -/
def unlines (pieces : List Text) : Text := joinWith ['\n'] pieces

/-- Lower case for ASCII letters, every other character kept. -/
def lowerAscii (text : Text) : Text := text.map Char.toLower

/-- Decimal digits of a count. -/
def ofNat (n : Nat) : Text := Nat.toDigits 10 n

end Text

end VueSfc
