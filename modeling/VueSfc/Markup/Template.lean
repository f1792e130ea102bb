import VueSfc.Markup.Element
import VueSfc.Markup.Tag
import VueSfc.Markup.BlankRun
import VueSfc.Markup.Fault

/-!
# Templates

The template of a page is what its body holds, without document wrappers and metadata.
A page without a body, or with an empty one, is taken whole. A template is acceptable when
it shows an element and does not begin as source code does.
-/

namespace VueSfc.Markup

open Text

namespace Template

/-- The inner text of the first body element that holds anything, or else the whole text. -/
def bodyOrAll (text : Text) : Text :=
  match Element.find? "body" text with
  | some (_, body, _) => if body.content.isEmpty then text else body.content
  | none => text

/-- A text without the tags and elements that describe a page and are not its content. -/
def withoutMetadata (text : Text) : Text :=
  let text := Tag.strip .openingOrClosing "body" text
  let text := Tag.strip .opening "meta" text
  let text := Tag.strip .opening "link" text
  (Element.excise "title" text).1

/-- The template in the markup of a page. -/
def isolate (markup : Text) : Text :=
  let text := Tag.strip .openingOrClosing "html" markup
  let text := (Element.excise "head" text).1
  collapse (trim (withoutMetadata (bodyOrAll text)))

/-- The words that open a declaration in source code. -/
def codeKeywords : List Text :=
  ["const", "let", "var", "function", "class", "import", "export"]

/-- Some `<` is directly followed by an ASCII letter, and a `>` stands anywhere behind the two. -/
def hasElementSyntax : Text → Bool
  | [] => false
  | [_] => false
  | c :: d :: r =>
    if c == '<' && d.isAlpha then r.contains '>' else hasElementSyntax (d :: r)

/-- The text begins with the keyword, ignoring the case of ASCII letters, and a blank follows. -/
def opensWith (text keyword : Text) : Bool :=
  startsFold keyword text && (text.drop keyword.length).head?.any isBlank

/-- The declaration keyword that the text opens with, if there is one. -/
def leadingKeyword? (text : Text) : Option Text := codeKeywords.find? (opensWith text)

/-- Accept a template or say why not: an empty one first, then one without elements, then one
that reads like code. -/
def check (template : Text) : Except TemplateFault Unit :=
  if allBlank template then .error .empty
  else if !hasElementSyntax template then .error (.notMarkup .noElements)
  else
    match leadingKeyword? template with
    | some keyword => .error (.notMarkup (.startsLikeCode keyword))
    | none => .ok ()

end Template

end VueSfc.Markup
