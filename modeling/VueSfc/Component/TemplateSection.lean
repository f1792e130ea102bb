import VueSfc.Text.Blank

/-!
# The template section

Every line of the template is trimmed and stands four spaces deep inside one wrapping element;
blank lines stay empty.
-/

namespace VueSfc.Component

open Text

/-- The class of the element that wraps the template. -/
def wrapperClass : Text := "app-wrapper"

/-- A line trimmed and set four spaces in, or the empty line if it is blank. -/
def templateLine (line : Text) : Text :=
  if (trim line).isEmpty then [] else "    " ++ trim line

/-- The lines that open the template section. -/
def templateOpening : List Text := ["<template>", "  <div class=\"" ++ wrapperClass ++ "\">"]

/-- The lines that close the template section. -/
def templateClosing : List Text := ["  </div>", "</template>"]

/-- The lines of the template section. -/
def templateSection (template : Text) : List Text :=
  templateOpening ++ template.lines.map templateLine ++ templateClosing

end VueSfc.Component
