import VueSfc.Text.Search

/-!
# Tokens of a script line

A line is cut into lexemes from its end: a character joins the lexeme behind it when both are
word characters, when both are spaces, or when they form the arrow `=>`; otherwise it is a
lexeme of its own. The kind of a token depends on its text alone. Nothing of the line is lost,
since the lexemes put together are the line.
-/

namespace VueSfc.Script

open Text

/-- What a token is. -/
inductive TokenKind where
  /-- The word `function`. -/
  | functionWord
  /-- The word `const`. -/
  | constWord
  /-- The word `let`. -/
  | letWord
  /-- The word `var`. -/
  | varWord
  /-- The arrow `=>`. -/
  | arrow
  /-- An equals sign that is not part of an arrow. -/
  | assign
  /-- The bracket `(`. -/
  | openParen
  /-- The bracket `)`. -/
  | closeParen
  /-- The brace that opens a block. -/
  | openBrace
  /-- The brace that closes a block. -/
  | closeBrace
  /-- A semicolon. -/
  | semicolon
  /-- A comma. -/
  | comma
  /-- Any other run of ASCII letters, digits and underscores. -/
  | name
  /-- A run of spaces. -/
  | space
  /-- A character that belongs to no other token. -/
  | other
  /-- The end of the line. -/
  | lineEnd
  deriving DecidableEq, Repr

namespace TokenKind

/-- How a kind of token is called in a listing. -/
def describe : TokenKind → Text
  | .functionWord => "'function'"
  | .constWord => "'const'"
  | .letWord => "'let'"
  | .varWord => "'var'"
  | .arrow => "'=>'"
  | .assign => "'='"
  | .openParen => "'('"
  | .closeParen => "')'"
  | .openBrace => "'\x7b'"
  | .closeBrace => "'\x7d'"
  | .semicolon => "';'"
  | .comma => "','"
  | .name => "identifier"
  | .space => "whitespace"
  | .other => "other character"
  | .lineEnd => "end of line"

/-- The words that declare a variable. -/
def declares : TokenKind → Bool
  | .constWord | .letWord | .varWord => true
  | _ => false

end TokenKind

/-- A letter, digit or underscore, in ASCII. -/
def isWordChar (c : Char) : Bool := c.isAlphanum || c == '_'

/-- A character of a space token: space, tab, line feed, carriage return or form feed. -/
def isSpaceChar (c : Char) : Bool := [' ', '\t', '\n', '\r', '\x0c'].contains c

/-- Whether a character belongs to the lexeme that begins right behind it. -/
def joins (c : Char) : Text → Bool
  | [] => false
  | d :: r =>
    isWordChar c && isWordChar d || isSpaceChar c && isSpaceChar d || c == '=' && d :: r == ['>']

/-- Put a character in front of the lexemes of the text behind it. -/
def consLexeme (c : Char) : List Text → List Text
  | [] => [[c]]
  | l :: ls => if joins c l then (c :: l) :: ls else [c] :: l :: ls

/-- The lexemes of a line. -/
def lexemes (line : Text) : List Text := line.foldr consLexeme []

/-- The tokens that are always written in the same way. -/
def fixedTokens : List (Text × TokenKind) :=
  [("function", .functionWord), ("const", .constWord), ("let", .letWord), ("var", .varWord),
   ("=>", .arrow), ("=", .assign), ("(", .openParen), (")", .closeParen), ("\x7b", .openBrace),
   ("\x7d", .closeBrace), (";", .semicolon), (",", .comma)]

/-- The kind of a token that may be written in several ways, by its first character. -/
def kindOfFirst : Option Char → TokenKind
  | none => .lineEnd
  | some c => if isWordChar c then .name else if isSpaceChar c then .space else .other

/-- The kind of the token with the given text. -/
def kindOf (text : Text) : TokenKind := (fixedTokens.lookup text).getD (kindOfFirst text.head?)

/-- A piece of a line together with what it is. -/
structure Token where
  /-- What the token is. -/
  kind : TokenKind
  /-- The token as written. -/
  text : Text
  deriving DecidableEq, Repr

/-- The token with the given text. -/
def Token.ofText (text : Text) : Token := ⟨kindOf text, text⟩

/-- The tokens of a line, without its end. -/
def tokens (line : Text) : List Token := (lexemes line).map Token.ofText

/-- The tokens of a line, ended by the token of the line's end. -/
def lineTokens (line : Text) : List Token := tokens line ++ [Token.ofText []]

/-- The text of a sequence of tokens. -/
def textOf (ts : List Token) : Text := ts.flatMap Token.text

/-- Tokens with the byte offsets at which they start and stop, the first one at `start`. -/
def located (start : Nat) : List Token → List (Token × Nat × Nat)
  | [] => []
  | t :: ts => (t, start, start + byteSize t.text) :: located (start + byteSize t.text) ts

/-- One more character in front adds that character to the lexemes, wherever it goes. -/
theorem flatten_consLexeme (c : Char) (ls : List Text) :
    (consLexeme c ls).flatten = c :: ls.flatten := by
  cases ls with
  | nil => rfl
  | cons l ls =>
    simp only [consLexeme]
    split <;> simp

/-- The lexemes of a line put together are the line. -/
theorem flatten_lexemes (line : Text) : (lexemes line).flatten = line := by
  induction line with
  | nil => rfl
  | cons c r ih => simp only [lexemes, List.foldr_cons, flatten_consLexeme] at ih ⊢; rw [ih]

/-- The tokens of a line put together are the line. -/
theorem textOf_tokens (line : Text) : textOf (tokens line) = line := by
  have h : (tokens line).map Token.text = lexemes line := by
    simp [tokens, Function.comp_def, Token.ofText]
  rw [textOf, List.flatMap_def, h, flatten_lexemes]

end VueSfc.Script
