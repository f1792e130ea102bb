import Mathlib.Data.List.Infix
import VueSfc.Offset.Markup
import VueSfc.Page

/-!
# Pages by offsets

A page is taken apart, and its template isolated and checked, by the loops on byte offsets.
-/

namespace VueSfc.Offset

open Text Markup Element Template

/-- Take a page apart. -/
def pageParts (page : Text) : Checked PageParts := do
  let text ← stripTags .opening "!doctype" page
  let styles ← exciseElements "style" text
  let scripts ← exciseElements "script" styles.1
  return ⟨scripts.1, trimmedBlocks styles.2, trimmedBlocks scripts.2⟩

/-- The inner text of the first body element if it holds anything, or else the whole text. -/
def innerBody (text : Text) : Checked Text := do
  match ← findElement "body" text 0 with
  | some body =>
    if body.contentStart < body.contentStop then slice text body.contentStart body.contentStop
    else return text
  | none => return text

/-- A text without what describes a page. -/
def dropMetadata (text : Text) : Checked Text := do
  let text ← stripTags .openingOrClosing "body" text
  let text ← stripTags .opening "meta" text
  let text ← stripTags .opening "link" text
  let rest ← exciseElements "title" text
  return rest.1

/-- The template in the markup of a page. -/
def isolateTemplate (markup : Text) : Checked Text := do
  let text ← stripTags .openingOrClosing "html" markup
  let rest ← exciseElements "head" text
  let working ← innerBody rest.1
  let template ← dropMetadata working
  collapseBlankLines (trim template)

/-! ## Checking a template -/

/-- The byte of an ASCII letter. -/
def isLetterByte (b : UInt8) : Bool :=
  65 ≤ b.toNat && b.toNat ≤ 90 || 97 ≤ b.toNat && b.toNat ≤ 122

/-- The bytes begin with a `<` and a letter. -/
def opensElement : List UInt8 → Bool
  | first :: second :: _ => first == 60 && isLetterByte second
  | _ => false

/-- Some `<` is directly followed by a letter, and a `>` stands anywhere behind the two. -/
def showsElement (text : Text) : Checked Bool := do
  match (utf8 text).tails.findIdx? opensElement with
  | none => return false
  | some start =>
    let behind ← byteSlice (utf8 text) (start + 2) (utf8 text).length
    return behind.contains 62

/-- The text begins with the keyword, ignoring the case of ASCII letters, and a blank follows. -/
def beginsWith (text keyword : Text) : Checked Bool := do
  let starts ← startsIgnoreCase keyword text
  if starts then
    let behind ← sliceFrom text (byteSize keyword)
    return behind.head?.any isBlank
  else return false

/-- Accept a template or say why not. -/
def checkTemplate (template : Text) : Checked (Except TemplateFault Unit) := do
  if allBlank template then return .error .empty
  let shows ← showsElement template
  if !shows then return .error (.notMarkup .noElements)
  match ← codeKeywords.findM? (beginsWith template) with
  | some keyword => return .error (.notMarkup (.startsLikeCode keyword))
  | none => return .ok ()

end VueSfc.Offset
