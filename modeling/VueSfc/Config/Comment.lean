import VueSfc.Text.Basic

/-!
# Comments in a configuration

A configuration is JSON in which comments may stand. Its text is read from left to right as
string literals, comments and single other characters, so that a quote inside a comment opens
no literal and a slash inside a literal opens no comment. Leaving out the comments leaves
everything else as it was. A reader that goes from character to character keeps a mode in place of
the pieces.
-/

namespace VueSfc.Config

/-- A piece of a configuration text. -/
inductive Piece where
  /-- A string literal with its quotes, or what there is of one at the end of the text. -/
  | literal (text : Text)
  /-- A comment with its marks; the line feed after a line comment is not part of it. -/
  | comment (text : Text)
  /-- Any other character. -/
  | plain (c : Char)
  deriving DecidableEq, Repr

namespace Piece

/-- The text of a piece. -/
def text : Piece → Text
  | literal t => t
  | comment t => t
  | plain c => [c]

/-- What is left of a piece when comments are left out. -/
def kept : Piece → Text
  | comment _ => []
  | piece => piece.text

end Piece

/-- Split a text behind the quote that closes a literal; a backslash hides the next character. -/
def splitLiteral : Text → Text × Text
  | [] => ([], [])
  | ['\\'] => (['\\'], [])
  | '\\' :: c :: r => let (inside, rest) := splitLiteral r; ('\\' :: c :: inside, rest)
  | c :: r => if c = '"' then ([c], r) else let (inside, rest) := splitLiteral r; (c :: inside, rest)

/-- Split a text behind the mark that closes a block comment. -/
def splitBlock : Text → Text × Text
  | [] => ([], [])
  | c :: r =>
    if c = '*' ∧ r.head? = some '/' then (['*', '/'], r.tail)
    else let (inside, rest) := splitBlock r; (c :: inside, rest)

/-- Split a text before its first line feed. -/
def splitLine (text : Text) : Text × Text :=
  (text.takeWhile (· != '\n'), text.dropWhile (· != '\n'))

/-- The piece that a character begins, and what follows it. -/
def readPiece (c : Char) (r : Text) : Piece × Text :=
  if c = '"' then
    let (inside, rest) := splitLiteral r
    (.literal (c :: inside), rest)
  else
    match c, r with
    | '/', '/' :: r =>
      let (inside, rest) := splitLine r
      (.comment ('/' :: '/' :: inside), rest)
    | '/', '*' :: r =>
      let (inside, rest) := splitBlock r
      (.comment ('/' :: '*' :: inside), rest)
    | c, r => (.plain c, r)

/-- Splitting behind a literal loses nothing. -/
theorem append_splitLiteral (t : Text) : (splitLiteral t).1 ++ (splitLiteral t).2 = t := by
  fun_induction splitLiteral t <;> simp_all

/-- Splitting behind a block comment loses nothing. -/
theorem append_splitBlock (t : Text) : (splitBlock t).1 ++ (splitBlock t).2 = t := by
  induction t with
  | nil => rfl
  | cons c r ih =>
    simp only [splitBlock]
    split
    · rename_i h
      obtain ⟨rfl, h⟩ := h
      cases r with
      | nil => simp at h
      | cons d r => simp_all
    · simpa using ih

/-- A piece and what follows it make up the text. -/
theorem append_readPiece (c : Char) (r : Text) :
    (readPiece c r).1.text ++ (readPiece c r).2 = c :: r := by
  unfold readPiece
  split
  · simp [Piece.text, append_splitLiteral]
  · split
    · simp [Piece.text, splitLine, List.takeWhile_append_dropWhile]
    · simp [Piece.text, append_splitBlock]
    · simp [Piece.text]

/-- No piece is empty. -/
theorem length_readPiece_pos (c : Char) (r : Text) : 0 < (readPiece c r).1.text.length := by
  unfold readPiece
  split
  · simp [Piece.text]
  · split <;> simp [Piece.text]

/-- The pieces of a text. -/
def pieces : Text → List Piece
  | [] => []
  | c :: r => (readPiece c r).1 :: pieces (readPiece c r).2
termination_by t => t.length
decreasing_by
  have h := congrArg List.length (append_readPiece c r)
  have hp := length_readPiece_pos c r
  rw [List.length_append] at h
  omega

/-- A configuration text without its comments. -/
def stripComments (text : Text) : Text := (pieces text).flatMap Piece.kept

/-! ## Character by character -/

/-- Where a reader stands that goes through a configuration character by character. -/
inductive Mode where
  /-- Between pieces. -/
  | outside
  /-- In a literal. -/
  | literal
  /-- In a literal, behind a backslash that is not hidden. -/
  | hidden
  /-- In a line comment. -/
  | line
  /-- In a block comment. -/
  | block
  deriving DecidableEq, Repr

/-- What a reader keeps of a text. It looks one character ahead behind a slash between pieces and
behind a star in a block comment. -/
def Mode.keep : Mode → Text → Text
  | _, [] => []
  | .outside, '/' :: '/' :: r => line.keep r
  | .outside, '/' :: '*' :: r => block.keep r
  | .outside, c :: r => c :: if c = '"' then literal.keep r else outside.keep r
  | .literal, c :: r =>
    c :: if c = '"' then outside.keep r else if c = '\\' then hidden.keep r else literal.keep r
  | .hidden, c :: r => c :: literal.keep r
  | .line, c :: r => if c = '\n' then c :: outside.keep r else line.keep r
  | .block, '*' :: '/' :: r => outside.keep r
  | .block, _ :: r => block.keep r

end VueSfc.Config
