import VueSfc.Text.Basic

/-!
# Blank characters and trimming

A character is blank when it has the property `White_Space`. Trimming removes
blank characters from the ends of a text and nothing from its inside.
-/

namespace VueSfc.Text

/-- The code points with the property `White_Space`, as inclusive ranges. -/
def blankRanges : List (Nat × Nat) :=
  [(0x09, 0x0D), (0x20, 0x20), (0x85, 0x85), (0xA0, 0xA0), (0x1680, 0x1680),
   (0x2000, 0x200A), (0x2028, 0x2029), (0x202F, 0x202F), (0x205F, 0x205F), (0x3000, 0x3000)]

/-- A character with the property `White_Space`. -/
def isBlank (c : Char) : Bool :=
  blankRanges.any fun (low, high) => low ≤ c.toNat && c.toNat ≤ high

/-- A text without its leading blank characters. -/
def trimStart (text : Text) : Text := text.dropWhile isBlank

/-- A text without its trailing blank characters. -/
def trimEnd (text : Text) : Text := (text.reverse.dropWhile isBlank).reverse

/-- A text without the blank characters at either end. -/
def trim (text : Text) : Text := trimEnd (trimStart text)

/-- A text of blank characters only. -/
def allBlank (text : Text) : Bool := text.all isBlank

end VueSfc.Text
