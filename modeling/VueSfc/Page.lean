import VueSfc.Markup.Template
import VueSfc.Script.Classifier

/-!
# Pages

A page is taken apart into its style blocks, its script blocks and the markup around them.
From these come the three parts of a component: the template, the styles and the statements
of the scripts. Scripts are read only once the template has been accepted.
-/

namespace VueSfc

open Text Markup Script

/-- A page taken apart. -/
structure PageParts where
  /-- What is left when doctype, style and script blocks are taken out. -/
  markup : Text
  /-- The style blocks, trimmed, without blank ones. -/
  styles : List Text
  /-- The script blocks, trimmed, without blank ones. -/
  scripts : List Text
  deriving DecidableEq, Repr

/-- Block contents, trimmed, without the blank ones. -/
def trimmedBlocks (contents : List Text) : List Text :=
  (contents.map trim).filter fun block => !block.isEmpty

/-- Take a page apart: the doctype first, then the style blocks, then the script blocks. -/
def PageParts.ofPage (page : Text) : PageParts :=
  let text := Tag.strip .opening "!doctype" page
  let (text, styles) := Element.excise "style" text
  let (markup, scripts) := Element.excise "script" text
  ⟨markup, trimmedBlocks styles, trimmedBlocks scripts⟩

/-- What a component is made of. -/
structure Page where
  /-- The accepted template. -/
  template : Text
  /-- The style blocks. -/
  styles : List Text
  /-- The statements of all script blocks. -/
  script : Analysis
  deriving DecidableEq, Repr

/-- Read a page, or say why its template is turned down. -/
def Page.read (page : Text) : Except TemplateFault Page :=
  let parts := PageParts.ofPage page
  let template := Template.isolate parts.markup
  match Template.check template with
  | .error fault => .error fault
  | .ok () => .ok ⟨template, parts.styles, classifyAll parts.scripts⟩

end VueSfc
