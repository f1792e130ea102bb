import VueSfc.Text.Blank

/-!
# Runs of blank characters

A text is the sequence of its runs, which are as long as they can be while all of their
characters are blank or none is. A run that holds three or more line feeds is squeezed to
two, with what stood before the first of them and after the last, so that lines of content
are at most one empty line apart. All other runs are kept.
-/

namespace VueSfc.Markup

open Text

/-- The longest stretches of a text that are blank throughout or have no blank character. -/
def runs (text : Text) : List Text := text.splitBy fun c d => isBlank c == isBlank d

/-- What stands before the first line feed. -/
def beforeFirstFeed (run : Text) : Text := run.takeWhile (· != '\n')

/-- What stands after the last line feed. -/
def afterLastFeed (run : Text) : Text := (run.reverse.takeWhile (· != '\n')).reverse

/-- Three or more line feeds, and all between them, become two. -/
def squeeze (run : Text) : Text :=
  if 3 ≤ run.count '\n' then beforeFirstFeed run ++ ['\n', '\n'] ++ afterLastFeed run else run

/-- A text with every run squeezed. -/
def collapse (text : Text) : Text := (runs text).flatMap squeeze

end VueSfc.Markup
