import VueSfc.Text.Blank

/-!
# The style section

Every style block follows one empty line. The lines of a block are trimmed and its blank lines
left out, so an empty line always stands before a block.
-/

namespace VueSfc.Component

open Text

/-- The comment at the top of the style section. -/
def styleReviewComment : Text := "/* Converted styles - review and adjust */"

/-- The lines of a style block, trimmed, without blank ones. -/
def styleLines (block : Text) : List Text :=
  (block.lines.map trim).filter fun line => !line.isEmpty

/-- The line that opens the section. -/
def styleOpening : Text := "<style scoped>"

/-- The line that closes the section. -/
def styleClosing : Text := "</style>"

/-- The lines of the style section. -/
def styleSection (blocks : List Text) : List Text :=
  [styleOpening, styleReviewComment] ++ blocks.flatMap (fun block => [] :: styleLines block) ++
    [styleClosing]

end VueSfc.Component
