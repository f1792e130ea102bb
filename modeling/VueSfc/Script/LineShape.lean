import VueSfc.Text.Blank
import VueSfc.Script.Token
import VueSfc.Script.Statement

/-!
# Shapes of script lines

A trimmed line opens a function, declares a variable with a value, or is something else.
A line that begins with `function` opens a declaration or is nothing at all; one that begins
with `const` is tried as an arrow, then as a function expression, then as a variable.
-/

namespace VueSfc.Script

open Text

/-- What the first line of a function says about it. -/
structure FunctionHead where
  /-- The name. -/
  name : Text
  /-- How the function is written. -/
  form : FunctionForm
  /-- The parameters as written. -/
  params : Text
  /-- The rest of the line. -/
  rest : Text
  deriving DecidableEq, Repr

/-- What a line is. -/
inductive LineShape where
  /-- The first line of a function. -/
  | opens (head : FunctionHead)
  /-- A variable with its value. -/
  | state (s : StateStatement)
  /-- Neither. -/
  | other
  deriving DecidableEq, Repr

/-- Take a token of the given kind off the front. -/
def eat? (kind : TokenKind) : List Token → Option (Token × List Token)
  | [] => none
  | t :: ts => if t.kind = kind then some (t, ts) else none

/-- Leave out a leading space token. -/
def skipSpace : List Token → List Token
  | [] => []
  | t :: ts => if t.kind = .space then ts else t :: ts

/-- The text through the first token of the given kind, and the tokens behind it. -/
def through? (kind : TokenKind) : List Token → Option (Text × List Token)
  | [] => none
  | t :: ts =>
    if t.kind = kind then some (t.text, ts)
    else (through? kind ts).map fun (front, back) => (t.text ++ front, back)

/-- A parameter list in brackets, up to the first closing one. -/
def bracketed? (ts : List Token) : Option (Text × List Token) := do
  let (bracket, ts) ← eat? .openParen ts
  let (inside, ts) ← through? .closeParen ts
  return (bracket.text ++ inside, ts)

/-- A bracketed parameter list behind optional space, and the text that follows; where there is
none, no parameters and all of the text. -/
def paramsAndRest (ts : List Token) : Text × Text :=
  match bracketed? (skipSpace ts) with
  | some (params, rest) => (params, textOf rest)
  | none => ([], textOf ts)

/-- The name in `const name =` and the tokens behind the `=` and optional space. -/
def constAssignment? (ts : List Token) : Option (Text × List Token) := do
  let (_, ts) ← eat? .constWord ts
  let (_, ts) ← eat? .space ts
  let (name, ts) ← eat? .name ts
  let (_, ts) ← eat? .assign (skipSpace ts)
  return (name.text, skipSpace ts)

/-- The head of `function name …`. -/
def declarationHead? (ts : List Token) : Option FunctionHead := do
  let (_, ts) ← eat? .functionWord ts
  let (_, ts) ← eat? .space ts
  let (name, ts) ← eat? .name ts
  let (params, rest) := paramsAndRest ts
  return ⟨name.text, .declaration, params, rest⟩

/-- The parameters of an arrow: a bracketed list or a single name. -/
def arrowParams? (ts : List Token) : Option (Text × List Token) :=
  bracketed? ts <|> (eat? .name ts).map fun (t, ts) => (t.text, ts)

/-- The head of `const name = params => …`. -/
def arrowHead? (ts : List Token) : Option FunctionHead := do
  let (name, ts) ← constAssignment? ts
  let (params, ts) ← arrowParams? ts
  let (_, ts) ← eat? .arrow (skipSpace ts)
  return ⟨name, .arrow, params, textOf (skipSpace ts)⟩

/-- Leave out a name behind optional space, or nothing. -/
def skipInnerName (ts : List Token) : List Token :=
  match eat? .name (skipSpace ts) with
  | some (_, rest) => rest
  | none => ts

/-- The head of `const name = function …`; a second name is left out. -/
def expressionHead? (ts : List Token) : Option FunctionHead := do
  let (name, ts) ← constAssignment? ts
  let (_, ts) ← eat? .functionWord ts
  let (params, rest) := paramsAndRest (skipInnerName ts)
  return ⟨name, .expression, params, rest⟩

/-- The head of a function that opens on the line. -/
def functionHead? (ts : List Token) : Option FunctionHead :=
  declarationHead? ts <|> arrowHead? ts <|> expressionHead? ts

/-- The declaration word that a kind of token stands for. -/
def declarationWord? : TokenKind → Option DeclarationWord
  | .constWord => some .constWord
  | .letWord => some .letWord
  | .varWord => some .varWord
  | _ => none

/-- A text without one final semicolon. -/
def dropSemicolon (text : Text) : Text :=
  if text.getLast? = some ';' then text.dropLast else text

/-- The value written behind an equals sign, if there is any. -/
def initializer? (tail : Text) : Option Text :=
  if (trim tail).isEmpty then none else some (dropSemicolon (trim tail))

/-- What follows the equals sign at the front, be it a sign of its own or that of an arrow. -/
def afterEquals? : List Token → Option Text
  | [] => none
  | t :: ts =>
    if t.kind = .assign ∨ t.kind = .arrow then some (t.text.tail ++ textOf ts) else none

/-- The variable declared by the tokens of a line. -/
def stateStatement? (ts : List Token) : Option StateStatement := do
  let first ← ts.head?
  let word ← declarationWord? first.kind
  let (_, rest) ← eat? .space ts.tail
  let (name, rest) ← eat? .name rest
  let tail ← afterEquals? (skipSpace rest)
  return ⟨word, name.text, initializer? tail, textOf ts⟩

/-- What a trimmed line is. -/
def LineShape.ofLine (line : Text) : LineShape :=
  match functionHead? (tokens line) with
  | some head => .opens head
  | none =>
    match stateStatement? (tokens line) with
    | some s => .state s
    | none => .other

end VueSfc.Script
