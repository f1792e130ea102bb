import VueSfc.Page
import VueSfc.Component.Dialect
import VueSfc.Component.TemplateSection
import VueSfc.Component.StyleSection
import VueSfc.Component.CompositionSection
import VueSfc.Component.OptionsSection

/-!
# Converting a page

A page becomes the text of a component: the template section, the script section in the chosen
dialect, and a style section if there are styles. A page that cannot be converted gives the
empty text or a comment of one line that stands in for the component, and the way a conversion
ended can be told from its text alone.
-/

namespace VueSfc

open Text Markup Script Component

/-- Why a page could not be converted. -/
inductive ConversionFault where
  /-- The page is blank. -/
  | emptyInput
  /-- No template is left. -/
  | emptyTemplate
  /-- The template does not look like markup. -/
  | notMarkup (fault : MarkupFault)
  /-- Converting broke down for the given reason. -/
  | breakdown (reason : Text)
  deriving DecidableEq, Repr

/-- How a conversion ended. -/
inductive Outcome where
  /-- There is a component. -/
  | converted
  /-- The page was blank and the text is empty. -/
  | emptyInput
  /-- The text is the comment for pages that are no markup. -/
  | invalidMarkup
  /-- The text is the comment for pages without a template. -/
  | emptyTemplate
  /-- The text is a comment with the reason of a breakdown. -/
  | failed
  deriving DecidableEq, Repr

/-- The comment for pages without a template. -/
def noTemplateComment : Text := "<!-- No valid template content found -->"

/-- The comment for pages that are no markup. -/
def notMarkupComment : Text :=
  "<!-- Invalid HTML: Please paste valid HTML markup, not plain text or JavaScript code -->"

/-- What the comment on a breakdown begins with. -/
def breakdownOpening : Text := "<!-- Error converting HTML to Vue component: "

/-- What the comment on a breakdown ends with. -/
def commentClosing : Text := " -->"

namespace ConversionFault

/-- The fault of a page whose template is turned down. -/
def ofTemplate : TemplateFault → ConversionFault
  | .empty => .emptyTemplate
  | .notMarkup fault => .notMarkup fault

/-- The wording of a fault. -/
def message : ConversionFault → Text
  | .emptyInput => "input is empty"
  | .emptyTemplate => "no valid template content found"
  | .notMarkup fault => "invalid HTML: " ++ fault.message
  | .breakdown reason => reason

/-- The text that stands in for a component: nothing for a blank page, else a comment, in which
the line feeds of a reason are spaces. -/
def placeholder : ConversionFault → Text
  | .emptyInput => []
  | .emptyTemplate => noTemplateComment
  | .notMarkup _ => notMarkupComment
  | .breakdown reason =>
    breakdownOpening ++ reason.map (fun c => if c = '\n' then ' ' else c) ++ commentClosing

/-- The outcome that a fault leads to. -/
def outcome : ConversionFault → Outcome
  | .emptyInput => .emptyInput
  | .emptyTemplate => .emptyTemplate
  | .notMarkup _ => .invalidMarkup
  | .breakdown _ => .failed

end ConversionFault

namespace Outcome

/-- The outcome that a text tells of. -/
def ofOutput (output : Text) : Outcome :=
  if output.isEmpty then .emptyInput
  else if output = noTemplateComment then .emptyTemplate
  else if output = notMarkupComment then .invalidMarkup
  else if breakdownOpening.isPrefixOf output && endsWith commentClosing output
      && !output.contains '\n' then .failed
  else .converted

/-- There is a component. -/
def isConverted : Outcome → Bool
  | .converted => true
  | _ => false

/-- The name of an outcome. -/
def name : Outcome → Text
  | .converted => "converted"
  | .emptyInput => "empty-input"
  | .invalidMarkup => "invalid-markup"
  | .emptyTemplate => "empty-template"
  | .failed => "failed"

end Outcome

/-- What went into a component. -/
structure Counts where
  /-- Variables. -/
  state : Nat
  /-- Functions. -/
  functions : Nat
  /-- Style blocks. -/
  styles : Nat
  deriving DecidableEq, Repr

/-- The counts of a page. -/
def Counts.ofPage (page : Page) : Counts :=
  ⟨page.script.state.length, page.script.functions.length, page.styles.length⟩

/-- The result of a conversion. -/
structure Conversion where
  /-- The component, or what stands in for it. -/
  output : Text
  /-- How the conversion ended. -/
  outcome : Outcome
  /-- What went into the component, if there is one. -/
  counts : Option Counts
  deriving DecidableEq, Repr

namespace Component

/-- The lines of the script section in a dialect. -/
def scriptSection : Dialect → Analysis → List Text
  | .composition => compositionSection
  | .options => optionsSection

/-- The lines of the style section behind an empty line, if there are styles. -/
def styleTail (styles : List Text) : List Text :=
  if styles.isEmpty then [] else [] :: styleSection styles

/-- The lines of a component. -/
def componentLines (dialect : Dialect) (page : Page) : List Text :=
  templateSection page.template ++ [[]] ++ scriptSection dialect page.script ++
    styleTail page.styles

end Component

/-- Read a page that is to be converted, or say why it cannot be. -/
def readPage (html : Text) : Except ConversionFault Page :=
  if allBlank html then .error .emptyInput
  else
    match Page.read html with
    | .error fault => .error (.ofTemplate fault)
    | .ok page => .ok page

/-- Convert a page, or say why it cannot be. -/
def convert? (dialect : Dialect) (html : Text) : Except ConversionFault Text :=
  match readPage html with
  | .error fault => .error fault
  | .ok page => .ok (unlines (componentLines dialect page))

/-- Convert a page and report how it went. -/
def convert (dialect : Dialect) (html : Text) : Conversion :=
  match readPage html with
  | .error fault => ⟨fault.placeholder, fault.outcome, none⟩
  | .ok page => ⟨unlines (componentLines dialect page), .converted, some (.ofPage page)⟩

end VueSfc
