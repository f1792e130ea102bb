import VueSfc.Json.Lexeme

/-!
# Skipping a value

A value that is not wanted is skipped lexeme by lexeme. The levels that are open and what may
come next are all that has to be known.
-/

namespace VueSfc.Json

/-- A level that is open around a place. -/
inductive Level where
  /-- An object. -/
  | object
  /-- An array. -/
  | array
  deriving DecidableEq, Repr

/-- What may come next. -/
inductive Expected where
  /-- A value. -/
  | value
  /-- The first value of an array, or its end. -/
  | firstValue
  /-- A key. -/
  | key
  /-- The first key of an object, or its end. -/
  | firstKey
  /-- The mark behind a key. -/
  | colon
  /-- The mark behind a member, or the end of the level. -/
  | separator
  deriving DecidableEq, Repr

/-- The state of a skip: the levels that are open, the innermost first, and what may come next. -/
abbrev SkipState := List Level × Expected

/-- The state after a value. -/
def afterValue (levels : List Level) : SkipState := (levels, .separator)

/-- The state after a lexeme that begins a value, where a value may stand. -/
def beginValue? (levels : List Level) : Lexeme → Option SkipState
  | .string _ => some (afterValue levels)
  | .number => some (afterValue levels)
  | .null => some (afterValue levels)
  | .boolean => some (afterValue levels)
  | .openArray => some (.array :: levels, .firstValue)
  | .openObject => some (.object :: levels, .firstKey)
  | _ => none

/-- The state after one more lexeme, if it may come next. -/
def skipStep? : SkipState → Lexeme → Option SkipState
  | (levels, .value), lexeme => beginValue? levels lexeme
  | (_ :: levels, .firstValue), .closeArray => some (afterValue levels)
  | (levels, .firstValue), lexeme => beginValue? levels lexeme
  | (levels, .key), .string _ => some (levels, .colon)
  | (_ :: levels, .firstKey), .closeObject => some (afterValue levels)
  | (levels, .firstKey), .string _ => some (levels, .colon)
  | (levels, .colon), .colon => some (levels, .value)
  | (.array :: levels, .separator), .comma => some (.array :: levels, .value)
  | (.object :: levels, .separator), .comma => some (.object :: levels, .key)
  | (.array :: levels, .separator), .closeArray => some (afterValue levels)
  | (.object :: levels, .separator), .closeObject => some (afterValue levels)
  | _, _ => none

/-- Skip lexemes until the value is complete, and return what follows it. -/
def skipFrom? (state : SkipState) : List Lexeme → Option (List Lexeme)
  | [] => none
  | lexeme :: rest =>
    match skipStep? state lexeme with
    | none => none
    | some ([], .separator) => some rest
    | some next => skipFrom? next rest

/-- Skip one value. -/
def skipValue? (ls : List Lexeme) : Option (List Lexeme) := skipFrom? ([], .value) ls

end VueSfc.Json
