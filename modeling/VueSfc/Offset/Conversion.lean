import VueSfc.Offset.Page
import VueSfc.Offset.Script
import VueSfc.Component.Conversion

/-!
# Converting by offsets

A page is converted by steps on byte offsets under a guard: a breach on the way ends the conversion,
and a comment on the breakdown stands in for the component.
-/

namespace VueSfc.Offset

open Text Markup Script Component

/-- Convert a page by steps on byte offsets. Sections are written without taking ranges. -/
def render (dialect : Dialect) (html : Text) :
    Checked (Except ConversionFault (Text × Counts)) := do
  if allBlank html then return .error .emptyInput
  let parts ← pageParts html
  let template ← isolateTemplate parts.markup
  match ← checkTemplate template with
  | .error fault => return .error (.ofTemplate fault)
  | .ok () =>
    let script ← classifyScripts parts.scripts
    let page : Page := ⟨template, parts.styles, script⟩
    return .ok (unlines (componentLines dialect page), .ofPage page)

/-- A breach breaks the conversion down, for the reason that its description gives. -/
def guarded (describe : Breach → Text) :
    Checked (Except ConversionFault (Text × Counts)) → Except ConversionFault (Text × Counts)
  | .error breach => .error (.breakdown (describe breach))
  | .ok rendered => rendered

/-- Convert a page under the guard and report how it went. -/
def guardedConvert (describe : Breach → Text) (dialect : Dialect) (html : Text) : Conversion :=
  match guarded describe (render dialect html) with
  | .error fault => ⟨fault.placeholder, fault.outcome, none⟩
  | .ok (output, counts) => ⟨output, .converted, some counts⟩

end VueSfc.Offset
