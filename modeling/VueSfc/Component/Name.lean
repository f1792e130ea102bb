import VueSfc.Text.Letter
import VueSfc.Path

/-!
# Component names

A component is named after its file. The name begins at the first letter of the file's stem;
from there the words of letters, digits and underscores are put together, each with its first
character in upper case.
-/

namespace VueSfc.Component

open Text

/-- The name of a component whose file gives none. -/
def defaultName : Text := "Component"

/-- A character of a word: a letter, a number or an underscore. -/
def isNameChar (c : Char) : Bool := isAlphanumeric c || c == '_'

/-- A word with its first character in upper case. -/
def capitalize : Text → Text
  | [] => []
  | c :: r => toUpper c ++ r

/-- The words of a text, which all other characters separate. Some may be empty. -/
def words (text : Text) : List Text := text.splitOnP fun c => !isNameChar c

/-- The name made of the words of a stem, empty if it has none. -/
def nameOfStem (stem : Text) : Text :=
  (words (stem.dropWhile fun c => !isAlphabetic c)).flatMap capitalize

/-- The name of the component made from the file at a path. -/
def nameOfPath (path : Text) : Text :=
  let name := nameOfStem ((Path.fileStem? path).getD [])
  if name.isEmpty then defaultName else name

end VueSfc.Component
