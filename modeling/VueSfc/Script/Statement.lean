import VueSfc.Text.Basic

/-!
# Statements of a script

A script is read for two things: variables that are given a value, and named functions.
Both keep the text they were read from.
-/

namespace VueSfc.Script

/-- The word that a variable is declared with. -/
inductive DeclarationWord where
  /-- The word `const`. -/
  | constWord
  /-- The word `let`. -/
  | letWord
  /-- The word `var`. -/
  | varWord
  deriving DecidableEq, Repr

/-- A declaration word as written. -/
def DeclarationWord.text : DeclarationWord → Text
  | .constWord => "const"
  | .letWord => "let"
  | .varWord => "var"

/-- A variable and the value it is given. -/
structure StateStatement where
  /-- The declaring word. -/
  word : DeclarationWord
  /-- The declared name. -/
  name : Text
  /-- The value, trimmed and without one final semicolon; none if nothing follows the `=`. -/
  initializer : Option Text
  /-- The trimmed line. -/
  source : Text
  deriving DecidableEq, Repr

/-- The three ways in which a function is written. -/
inductive FunctionForm where
  /-- A declaration `function name(…) …`. -/
  | declaration
  /-- An arrow `const name = (…) => …`. -/
  | arrow
  /-- An expression `const name = function (…) …`. -/
  | expression
  deriving DecidableEq, Repr

/-- A named function, which may run over several lines. -/
structure FunctionStatement where
  /-- The name; for the assigned forms, the declared one. -/
  name : Text
  /-- How it is written. -/
  form : FunctionForm
  /-- The parameters as written, empty where none were found. -/
  params : Text
  /-- Everything after the parameters, and for arrows after the arrow, to the end. -/
  body : Text
  /-- The trimmed lines, joined by line feeds. -/
  source : Text
  deriving DecidableEq, Repr

/-- A statement of either sort. -/
inductive Statement where
  /-- A variable. -/
  | state (s : StateStatement)
  /-- A function. -/
  | function (f : FunctionStatement)
  deriving DecidableEq, Repr

/-- The statements of a script, the two sorts apart and each in its order. -/
structure Analysis where
  /-- The variables. -/
  state : List StateStatement
  /-- The functions. -/
  functions : List FunctionStatement
  deriving DecidableEq, Repr

namespace Analysis

/-- The analysis of a script without statements. -/
def empty : Analysis := ⟨[], []⟩

/-- The script has no statement. -/
def isEmpty (a : Analysis) : Bool := a.state.isEmpty && a.functions.isEmpty

/-- The statements of one script followed by those of a later one. -/
def append (a b : Analysis) : Analysis := ⟨a.state ++ b.state, a.functions ++ b.functions⟩

instance : Append Analysis := ⟨append⟩

/-- The variables of two scripts are those of the first, then those of the second. -/
@[simp] theorem state_append (a b : Analysis) : (a ++ b).state = a.state ++ b.state := rfl

/-- The functions of two scripts are those of the first, then those of the second. -/
@[simp] theorem functions_append (a b : Analysis) :
    (a ++ b).functions = a.functions ++ b.functions := rfl

/-- Sort a sequence of statements into an analysis. -/
def ofStatements (ss : List Statement) : Analysis where
  state := ss.filterMap fun | .state s => some s | .function _ => none
  functions := ss.filterMap fun | .function f => some f | .state _ => none

end Analysis

end VueSfc.Script
