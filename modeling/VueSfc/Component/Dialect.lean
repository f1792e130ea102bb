import VueSfc.Text.Blank

/-!
# Dialects

The script of a component is written in one of two dialects. The dialect changes the script
section only.
-/

namespace VueSfc

open Text

/-- The style in which the script of a component is written. -/
inductive Dialect where
  /-- A setup script with `ref` state. -/
  | composition
  /-- An object with data and methods. -/
  | options
  deriving DecidableEq, Repr

namespace Dialect

/-- The name of a dialect. -/
def name : Dialect → Text
  | .composition => "composition"
  | .options => "options"

/-- The dialect with the given name, with blanks around it and in either letter case. -/
def ofName? (text : Text) : Option Dialect :=
  if eqFold (name .composition) (trim text) then some .composition
  else if eqFold (name .options) (trim text) then some .options
  else none

/-- The wording for a name that no dialect has. -/
def unknownMessage (text : Text) : Text :=
  "unknown API style `" ++ text ++ "`: expected `composition` or `options`"

/-- Every dialect is read back from its name. -/
theorem ofName?_name (d : Dialect) : ofName? d.name = some d := by
  cases d <;> rfl

end Dialect

end VueSfc
