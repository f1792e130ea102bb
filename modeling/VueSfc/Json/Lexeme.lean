import VueSfc.Text.Basic

/-!
# Lexemes of JSON

A JSON text is cut into brackets, marks, strings, numbers and the three words. Where no lexeme
can be read the sequence ends with one that says so, and nothing behind it is looked at. Strings
are kept as their units, in which an escape of four digits is a code that may turn out to be no
character.
-/

namespace VueSfc.Json

/-- A unit of a string. -/
inductive StringUnit where
  /-- A character, written as it is or by a short escape. -/
  | char (c : Char)
  /-- A code of four hexadecimal digits. -/
  | code (n : Nat)
  deriving DecidableEq, Repr

/-- A lexeme of JSON. -/
inductive Lexeme where
  /-- The brace that opens an object. -/
  | openObject
  /-- The brace that closes an object. -/
  | closeObject
  /-- The bracket that opens an array. -/
  | openArray
  /-- The bracket that closes an array. -/
  | closeArray
  /-- The mark between a key and its value. -/
  | colon
  /-- The mark between members. -/
  | comma
  /-- A string. -/
  | string (units : List StringUnit)
  /-- A number. -/
  | number
  /-- The word `null`. -/
  | null
  /-- The word `true` or `false`. -/
  | boolean
  /-- No lexeme. -/
  | bad
  deriving DecidableEq, Repr

/-- A character that may stand between lexemes. -/
def isGap (c : Char) : Bool := c == ' ' || c == '\n' || c == '\t' || c == '\r'

/-- The value of a hexadecimal digit. -/
def hexValue? (c : Char) : Option Nat :=
  if '0' ≤ c ∧ c ≤ '9' then some (c.toNat - '0'.toNat)
  else if 'a' ≤ c ∧ c ≤ 'f' then some (c.toNat - 'a'.toNat + 10)
  else if 'A' ≤ c ∧ c ≤ 'F' then some (c.toNat - 'A'.toNat + 10)
  else none

/-- The value of four hexadecimal digits. -/
def hexCode? (a b c d : Char) : Option Nat := do
  return (((← hexValue? a) * 16 + (← hexValue? b)) * 16 + (← hexValue? c)) * 16 + (← hexValue? d)

/-- The character that a short escape stands for. -/
def shortEscape? (c : Char) : Option Char :=
  [('"', '"'), ('\\', '\\'), ('/', '/'), ('b', '\x08'), ('f', '\x0c'), ('n', '\n'), ('r', '\r'),
   ('t', '\t')].lookup c

/-- Read one unit at the front of a text that begins with the given character. -/
def readUnit? (c : Char) (r : Text) : Option (StringUnit × Text) :=
  if c = '\\' then
    match r with
    | 'u' :: x :: y :: z :: w :: r => (hexCode? x y z w).map fun n => (.code n, r)
    | e :: r => (shortEscape? e).map fun e => (.char e, r)
    | [] => none
  else if c.toNat < 0x20 then none
  else some (.char c, r)

/-- Reading a unit moves forward. -/
theorem length_of_readUnit? {c : Char} {r rest : Text} {u : StringUnit}
    (h : readUnit? c r = some (u, rest)) : rest.length ≤ r.length := by
  unfold readUnit? at h
  split at h
  · split at h
    · obtain ⟨n, -, he⟩ := Option.map_eq_some_iff.1 h
      simp only [Prod.mk.injEq] at he
      simp only [← he.2, List.length_cons]
      omega
    · obtain ⟨n, -, he⟩ := Option.map_eq_some_iff.1 h
      simp only [Prod.mk.injEq] at he
      simp [← he.2]
    · simp at h
  · split at h
    · simp at h
    · simp only [Option.some.injEq, Prod.mk.injEq] at h
      simp [h.2]

/-- Read the units of a string behind its opening quote, and the closing quote. -/
def readString? : Text → Option (List StringUnit × Text)
  | [] => none
  | c :: r =>
    if c = '"' then some ([], r)
    else
      match _h : readUnit? c r with
      | some (u, rest) => (readString? rest).map fun (us, rest) => (u :: us, rest)
      | none => none
termination_by t => t.length
decreasing_by
  have := length_of_readUnit? _h
  simp only [List.length_cons]
  omega

/-- Leave out digits, of which there must be one. -/
def skipDigits? : Text → Option Text
  | [] => none
  | c :: r => if c.isDigit then some (r.dropWhile Char.isDigit) else none

/-- Leave out a fraction, if there is one. -/
def skipFraction? : Text → Option Text
  | '.' :: r => skipDigits? r
  | r => some r

/-- Leave out a sign, if there is one. -/
def skipSign : Text → Text
  | '+' :: r => r
  | '-' :: r => r
  | r => r

/-- Leave out an exponent, if there is one. -/
def skipExponent? : Text → Option Text
  | 'e' :: r => skipDigits? (skipSign r)
  | 'E' :: r => skipDigits? (skipSign r)
  | r => some r

/-- Leave out the whole part of a number, which has no leading zero. -/
def skipWhole? : Text → Option Text
  | '0' :: r => some r
  | r => skipDigits? r

/-- Leave out a number. -/
def skipNumber? : Text → Option Text
  | '-' :: r => ((skipWhole? r).bind skipFraction?).bind skipExponent?
  | r => ((skipWhole? r).bind skipFraction?).bind skipExponent?

/-- Read the lexeme that a character begins. -/
def readLexeme? (c : Char) (r : Text) : Option (Lexeme × Text) :=
  match c, r with
  | '\x7b', r => some (.openObject, r)
  | '\x7d', r => some (.closeObject, r)
  | '[', r => some (.openArray, r)
  | ']', r => some (.closeArray, r)
  | ':', r => some (.colon, r)
  | ',', r => some (.comma, r)
  | '"', r => (readString? r).map fun (units, rest) => (.string units, rest)
  | 'n', 'u' :: 'l' :: 'l' :: r => some (.null, r)
  | 't', 'r' :: 'u' :: 'e' :: r => some (.boolean, r)
  | 'f', 'a' :: 'l' :: 's' :: 'e' :: r => some (.boolean, r)
  | c, r => (skipNumber? (c :: r)).map fun rest => (.number, rest)

/-- The lexemes of a text of at most the given length. -/
def lexemesWithin : Nat → Text → List Lexeme
  | 0, _ => []
  | _ + 1, [] => []
  | n + 1, c :: r =>
    if isGap c then lexemesWithin n r
    else
      match readLexeme? c r with
      | some (lexeme, rest) => lexeme :: lexemesWithin n rest
      | none => [.bad]

/-- The lexemes of a text. -/
def lexemes (text : Text) : List Lexeme := lexemesWithin text.length text

/-- The code is the first half of a pair. -/
def isHighSurrogate (n : Nat) : Bool := 0xD800 ≤ n && n ≤ 0xDBFF

/-- The code is the second half of a pair. -/
def isLowSurrogate (n : Nat) : Bool := 0xDC00 ≤ n && n ≤ 0xDFFF

/-- The character of a pair of codes. -/
def ofSurrogates (high low : Nat) : Char :=
  Char.ofNat (0x10000 + (high - 0xD800) * 0x400 + (low - 0xDC00))

/-- The text of a string, if every half of a pair stands in a pair. -/
def decode? : List StringUnit → Option Text
  | [] => some []
  | .char c :: r => (decode? r).map (c :: ·)
  | [.code n] => if isHighSurrogate n || isLowSurrogate n then none else some [Char.ofNat n]
  | .code n :: .code m :: r =>
    if isHighSurrogate n then
      if isLowSurrogate m then (decode? r).map (ofSurrogates n m :: ·) else none
    else if isLowSurrogate n then none
    else (decode? (.code m :: r)).map (Char.ofNat n :: ·)
  | .code n :: .char c :: r =>
    if isHighSurrogate n || isLowSurrogate n then none
    else (decode? (.char c :: r)).map (Char.ofNat n :: ·)

end VueSfc.Json
