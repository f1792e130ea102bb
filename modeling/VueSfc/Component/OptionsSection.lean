import VueSfc.Component.CompositionSection
import VueSfc.Text.Blank

/-!
# The script section in the options dialect

Variables become fields of the data object and functions become methods. A method keeps the
text of its function but for the head, and a comma separates it from the next. The section is given
as a list of lines, and once more as it is written, where a method puts its comma on the last line
that stands there already.
-/

namespace VueSfc.Component

open Text Script

/-- The name that every component gives itself. -/
def componentField : Text := "ConvertedComponent"

/-- A variable as a data field; one without a value is copied. -/
def dataField (s : StateStatement) : Text :=
  match s.initializer with
  | some value => "      " ++ s.name ++ ": " ++ value ++ ","
  | none => s.source

/-- A function with its head rewritten for a method. A declaration loses its first word, and an
arrow keeps name, parameters and body. An expression is copied. -/
def methodShorthand (f : FunctionStatement) : Text :=
  match f.form with
  | .declaration =>
    match after? "function".toList f.source with
    | some rest => trimStart rest
    | none => f.source
  | .arrow => f.name ++ f.params ++ [' '] ++ f.body
  | .expression => f.source

/-- Change the last member of a list. -/
def onLast {α : Type} (change : α → α) : List α → List α
  | [] => []
  | [a] => [change a]
  | a :: b :: r => a :: onLast change (b :: r)

/-- A line with a comma at its end, unless blanks alone follow one. -/
def addComma (line : Text) : Text :=
  if (trimEnd line).getLast? = some ',' then line else line ++ [',']

/-- A line without one final comma. -/
def dropComma (line : Text) : Text :=
  if line.getLast? = some ',' then line.dropLast else line

/-- The lines of a method, four spaces in, and with a comma unless its function ends with one. -/
def methodLines (f : FunctionStatement) : List Text :=
  let ls := (methodShorthand f).lines.map ("    ".toList ++ ·)
  if f.source.getLast? = some ',' then ls else onLast addComma ls

/-- The lines of all methods, the last one without a comma. -/
def methodsLines (functions : List FunctionStatement) : List Text :=
  onLast dropComma (functions.flatMap methodLines)

/-- What the data object holds. -/
def dataLines (state : List StateStatement) : List Text :=
  if state.isEmpty then ["      // Add your component data here"] else state.map dataField

/-- What the methods object holds. -/
def methodsBlock (functions : List FunctionStatement) : List Text :=
  if functions.isEmpty then ["    // Add your component methods here"] else methodsLines functions

/-- The lines before the data. -/
def optionsOpening : List Text :=
  ["<script lang=\"ts\">", "import \x7b defineComponent \x7d from 'vue'", [],
   "export default defineComponent(\x7b", "  name: '" ++ componentField ++ "',",
   "  data() \x7b", "    return \x7b"]

/-- The lines between the data and the methods. -/
def optionsBetween : List Text := ["    \x7d", "  \x7d,", "  methods: \x7b"]

/-- The lines after the methods. -/
def optionsClosing : List Text :=
  ["  \x7d,", "  mounted() \x7b", "    // Add lifecycle hooks here", "  \x7d", "\x7d)",
   scriptClosing]

/-- The lines of the section. -/
def optionsSection (script : Analysis) : List Text :=
  optionsOpening ++ dataLines script.state ++ optionsBetween ++ methodsBlock script.functions ++
    optionsClosing

/-! ## Writing in place -/

/-- A line of a method, four spaces in. -/
def indented (line : Text) : Text := "    " ++ line

/-- Write a method behind other lines; its comma goes to the last line that there is. -/
def writeMethod (written : List Text) (f : FunctionStatement) : List Text :=
  let written := written ++ (lines (methodShorthand f)).map indented
  if f.source.getLast? = some ',' then written else onLast addComma written

/-- Write methods behind other lines; the last line that there is loses its comma. -/
def writeMethods (written : List Text) (functions : List FunctionStatement) : List Text :=
  onLast dropComma (functions.foldl writeMethod written)

/-- Write the section behind other lines. -/
def writeOptions (written : List Text) (script : Analysis) : List Text :=
  let written := written ++ optionsOpening ++ dataLines script.state ++ optionsBetween
  let written :=
    if script.functions.isEmpty then
      written ++ (["    // Add your component methods here"] : List Text)
    else writeMethods written script.functions
  written ++ optionsClosing

end VueSfc.Component
