import VueSfc.Offset.Slice
import VueSfc.Script.LineShape

/-!
# Script lines by offsets

The tokens of a line are known by where they lie in it, in offsets of 32 bits, and a cursor moves
along them. What it takes from the line are ranges between two tokens or from a token on.
-/

namespace VueSfc.Offset

open Text Script

/-- A token by what it is and where it lies in its line. -/
structure TokenSpan where
  /-- What the token is. -/
  kind : TokenKind
  /-- Where it starts. -/
  start : Nat
  /-- Where it stops. -/
  stop : Nat
  deriving DecidableEq, Repr

/-- An offset in 32 bits. -/
def narrow (offset : Nat) : Nat := offset % UInt32.size

/-- A token at two offsets in 32 bits, of which the first must not be behind the second. -/
def TokenSpan.ofLocated : Token × Nat × Nat → Checked TokenSpan
  | (t, start, stop) =>
    if narrow stop < narrow start then .error (.reversed (narrow start) (narrow stop))
    else .ok ⟨t.kind, narrow start, narrow stop⟩

/-- The tokens of a line, its end among them, by where they lie. -/
def tokenSpans (line : Text) : Checked (List TokenSpan) :=
  (located 0 (lineTokens line)).mapM TokenSpan.ofLocated

/-- A place among the tokens of a line. -/
structure Cursor where
  /-- The line. -/
  line : Text
  /-- The tokens from the place on. -/
  ahead : List TokenSpan

namespace Cursor

/-- What the next token is. -/
def kind (c : Cursor) : TokenKind := c.ahead.head?.elim .lineEnd TokenSpan.kind

/-- Where the next token starts. -/
def offset (c : Cursor) : Nat := c.ahead.head?.elim (byteSize c.line) TokenSpan.start

/-- Take the next token. The end of the line is not passed. -/
def bump? (c : Cursor) : Option (TokenSpan × Cursor) :=
  match c.ahead with
  | [] => none
  | t :: ts => some (t, if t.kind = .lineEnd then c else { c with ahead := ts })

/-- Take the next token if it is of the given kind. -/
def eat? (kind : TokenKind) (c : Cursor) : Option (TokenSpan × Cursor) :=
  if c.kind = kind then c.bump? else none

/-- Leave out a space token. -/
def skipSpace (c : Cursor) : Cursor :=
  match c.eat? .space with
  | some (_, next) => next
  | none => c

/-- The tokens behind the first one of the given kind. -/
def tokensPast? (kind : TokenKind) : List TokenSpan → Option (List TokenSpan)
  | [] => none
  | t :: ts =>
    if t.kind = .lineEnd then none
    else if t.kind = kind then some ts
    else tokensPast? kind ts

/-- The place behind the first token of the given kind. -/
def skipPast? (kind : TokenKind) (c : Cursor) : Option Cursor :=
  (tokensPast? kind c.ahead).map fun ts => { c with ahead := ts }

/-- The line from the next token on. -/
def rest (c : Cursor) : Checked Text := sliceFrom c.line c.offset

/-- The line up to the next token of a later place. -/
def upTo (c later : Cursor) : Checked Text := slice c.line c.offset later.offset

/-- A token as written. -/
def text (c : Cursor) (t : TokenSpan) : Checked Text := slice c.line t.start t.stop

/-- A bracketed parameter list behind optional space, and the text that follows; where there is
none, no parameters and all of the text. -/
def paramsAndRest (c : Cursor) : Checked (Text × Text) :=
  match (c.skipSpace.eat? .openParen).bind fun found => found.2.skipPast? .closeParen with
  | some behind => do
    let params ← c.skipSpace.upTo behind
    let rest ← behind.rest
    return (params, rest)
  | none => do
    let rest ← c.rest
    return ([], rest)

/-- The name in `const name =` and the place behind the `=` and optional space. -/
def constAssignment (c : Cursor) : Checked (Option (Text × Cursor)) :=
  let found := do
    let (_, c) ← c.eat? .constWord
    let (_, c) ← c.eat? .space
    let (name, c) ← c.eat? .name
    let (_, c) ← c.skipSpace.eat? .assign
    return (name, c.skipSpace)
  match found with
  | none => return none
  | some (name, behind) => do
    let name ← c.text name
    return some (name, behind)

/-- The head of `function name …`. -/
def declarationHead (c : Cursor) : Checked (Option FunctionHead) :=
  let found := do
    let (_, c) ← c.eat? .functionWord
    let (_, c) ← c.eat? .space
    c.eat? .name
  match found with
  | none => return none
  | some (name, behind) => do
    let params ← behind.paramsAndRest
    let name ← c.text name
    return some ⟨name, .declaration, params.1, params.2⟩

/-- The parameters of an arrow: a bracketed list or a single name. -/
def arrowParams (c : Cursor) : Checked (Option (Text × Cursor)) :=
  match c.kind with
  | .openParen =>
    match c.skipPast? .closeParen with
    | none => return none
    | some behind => do
      let params ← c.upTo behind
      return some (params, behind)
  | .name =>
    match c.eat? .name with
    | none => return none
    | some (param, behind) => do
      let param ← c.text param
      return some (param, behind)
  | _ => return none

/-- The head of `const name = params => …`. -/
def arrowHead (c : Cursor) : Checked (Option FunctionHead) := do
  match ← c.constAssignment with
  | none => return none
  | some (name, c) =>
    match ← c.arrowParams with
    | none => return none
    | some (params, c) =>
      match c.skipSpace.eat? .arrow with
      | none => return none
      | some (_, c) =>
        let rest ← c.skipSpace.rest
        return some ⟨name, .arrow, params, rest⟩

/-- Leave out a name behind optional space, or nothing. -/
def skipInnerName (c : Cursor) : Cursor :=
  match c.skipSpace.eat? .name with
  | some (_, behind) => behind
  | none => c

/-- The head of `const name = function …`; a second name is left out. -/
def expressionHead (c : Cursor) : Checked (Option FunctionHead) := do
  match ← c.constAssignment with
  | none => return none
  | some (name, c) =>
    match c.eat? .functionWord with
    | none => return none
    | some (_, c) =>
      let params ← c.skipInnerName.paramsAndRest
      return some ⟨name, .expression, params.1, params.2⟩

/-- The head of a function that opens on the line. -/
def functionHead (c : Cursor) : Checked (Option FunctionHead) :=
  match c.kind with
  | .functionWord => c.declarationHead
  | .constWord => do
    match ← c.arrowHead with
    | some head => return some head
    | none => c.expressionHead
  | _ => return none

/-- The variable declared on the line. The value begins behind the first character of the sign. -/
def stateStatement (c : Cursor) : Checked (Option StateStatement) :=
  match declarationWord? c.kind with
  | none => return none
  | some word =>
    let found := do
      let (_, c) ← c.bump?
      let (_, c) ← c.eat? .space
      let (name, c) ← c.eat? .name
      return (name, c.skipSpace)
    match found with
    | none => return none
    | some (name, behind) =>
      if behind.kind = .assign ∨ behind.kind = .arrow then do
        let tail ← sliceFrom c.line (behind.offset + 1)
        let name ← c.text name
        return some ⟨word, name, initializer? tail, c.line⟩
      else return none

end Cursor

/-- What a trimmed line is. -/
def recognize (line : Text) : Checked LineShape := do
  let spans ← tokenSpans line
  let cursor : Cursor := ⟨line, spans⟩
  match ← cursor.functionHead with
  | some head => return .opens head
  | none =>
    match ← cursor.stateStatement with
    | some s => return .state s
    | none => return .other

end VueSfc.Offset
