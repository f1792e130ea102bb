import VueSfc.Script.Statement

/-!
# The script section in the composition dialect

Variables become constants that wrap their value in `ref`, and functions are copied as they
were written. A script without statements gives a commented starter and imports nothing.
-/

namespace VueSfc.Component

open Script

/-- The reminder behind converted statements. -/
def reviewComment : Text := "// TODO: Review and adjust the converted code"

/-- The line that opens the section. -/
def compositionOpening : Text := "<script setup lang=\"ts\">"

/-- The line that closes a script section. -/
def scriptClosing : Text := "</script>"

/-- A variable as reactive state; one without a value is copied. -/
def reactiveLine (s : StateStatement) : Text :=
  match s.initializer with
  | some value => "const " ++ s.name ++ " = ref(" ++ value ++ ")"
  | none => s.source

/-- What stands in for the statements where there are none. -/
def compositionStarter : List Text :=
  ["// Add your Composition API logic here", "// import \x7b ref \x7d from 'vue'",
   "// const count = ref(0)"]

/-- The heading of the variables. -/
def stateHeading : Text := "// Reactive state (converted from variables)"

/-- The heading of the functions. -/
def functionHeading : Text := "// Functions"

/-- The line that brings in `ref`. -/
def refImport : Text := "import \x7b ref \x7d from 'vue'"

/-- The variables under their heading, if there are any. -/
def stateBlock (state : List StateStatement) : List Text :=
  if state.isEmpty then [] else [stateHeading] ++ state.map reactiveLine ++ [[]]

/-- The functions under their heading, if there are any. -/
def functionBlock (functions : List FunctionStatement) : List Text :=
  if functions.isEmpty then []
  else [functionHeading] ++ functions.map FunctionStatement.source ++ [[]]

/-- What stands between the opening and the closing line. -/
def compositionBody (script : Analysis) : List Text :=
  if script.isEmpty then compositionStarter
  else
    [refImport, []] ++ stateBlock script.state ++
      functionBlock script.functions ++ [reviewComment]

/-- The lines of the section. -/
def compositionSection (script : Analysis) : List Text :=
  [compositionOpening] ++ compositionBody script ++ [scriptClosing]

end VueSfc.Component
