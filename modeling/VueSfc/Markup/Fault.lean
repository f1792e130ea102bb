import VueSfc.Text.Basic

/-!
# Why markup is turned down

A template is turned down because nothing is left of it or because it does not look like
markup; in the second case either it has no element at all or it begins as source code does.
-/

namespace VueSfc.Markup

/-- Why a template does not look like markup. -/
inductive MarkupFault where
  /-- Nothing in it looks like an element. -/
  | noElements
  /-- It begins with a word that opens a statement of source code. -/
  | startsLikeCode (keyword : Text)
  deriving DecidableEq, Repr

/-- The wording of a markup fault. -/
def MarkupFault.message : MarkupFault → Text
  | .noElements => "no element-like syntax found"
  | .startsLikeCode keyword => "content starts with the `" ++ keyword ++ "` keyword"

/-- Why a page has no acceptable template. -/
inductive TemplateFault where
  /-- Nothing but blank characters is left. -/
  | empty
  /-- What is left does not look like markup. -/
  | notMarkup (fault : MarkupFault)
  deriving DecidableEq, Repr

/-- The wording of a template fault. -/
def TemplateFault.message : TemplateFault → Text
  | .empty => "no template content found"
  | .notMarkup fault => "invalid markup: " ++ fault.message

end VueSfc.Markup
