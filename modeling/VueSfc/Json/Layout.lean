import VueSfc.Text.Basic

/-!
# Laying out JSON

A value is laid out as its lines, in which every level stands two spaces deeper than the one
around it. Strings are quoted so that none of them holds a line feed.
-/

namespace VueSfc.Json

/-- A hexadecimal digit, in lower case. -/
def hexDigit (n : Nat) : Char := Nat.digitChar (n % 16)

/-- The quoted form of a character: short escapes where there are any, four hexadecimal digits
for the other control characters, and every other character as it is. -/
def quoteChar (c : Char) : Text :=
  if c = '"' then ['\\', '"']
  else if c = '\\' then ['\\', '\\']
  else if c = '\x08' then ['\\', 'b']
  else if c = '\x0c' then ['\\', 'f']
  else if c = '\n' then ['\\', 'n']
  else if c = '\r' then ['\\', 'r']
  else if c = '\t' then ['\\', 't']
  else if c.toNat < 0x20 then ['\\', 'u', '0', '0', hexDigit (c.toNat / 16), hexDigit c.toNat]
  else [c]

/-- A text as a JSON string. -/
def quote (text : Text) : Text := ['"'] ++ text.flatMap quoteChar ++ ['"']

/-- A value laid out as lines. -/
abbrev Layout := List Text

namespace Layout

/-- A string. -/
def string (text : Text) : Layout := [quote text]

/-- A count. -/
def number (n : Nat) : Layout := [Text.ofNat n]

/-- Add a text to the end of the last line. -/
def addToLast (text : Text) : Layout → Layout
  | [] => []
  | [line] => [line ++ text]
  | line :: next :: rest => line :: addToLast text (next :: rest)

/-- Lines one level deeper. -/
def deeper (layout : Layout) : Layout := layout.map ("  ".toList ++ ·)

/-- Members one after another, with a comma behind each but the last. -/
def separated : List Layout → Layout
  | [] => []
  | [member] => member
  | member :: next :: rest => addToLast [','] member ++ separated (next :: rest)

/-- Members between two brackets; the brackets alone if there are none. -/
def bracketed (opening closing : Char) (members : List Layout) : Layout :=
  if members.isEmpty then [[opening, closing]]
  else [[opening]] ++ deeper (separated members) ++ [[closing]]

/-- An array of values. -/
def array (members : List Layout) : Layout := bracketed '[' ']' members

/-- A value behind its key. -/
def field (key : Text) : Layout → Layout
  | [] => []
  | line :: rest => (quote key ++ [':', ' '] ++ line) :: rest

/-- An object with the given fields, in their order. -/
def object (fields : List (Text × Layout)) : Layout :=
  bracketed '\x7b' '\x7d' (fields.map fun (key, value) => field key value)

/-- The text of a layout. -/
def text (layout : Layout) : Text := Text.unlines layout

end Layout

end VueSfc.Json
