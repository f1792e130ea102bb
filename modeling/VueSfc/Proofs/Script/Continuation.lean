import VueSfc.Proofs.Script.Diagnostic
import VueSfc.Proofs.Script.Scan

/-!
# Scripts that are continued

A script goes on where another one ends. The lines of the whole are those of the one and then
those of the other, so the reader takes up the second script in the state in which the first one
leaves it, and no statement that was complete there is changed by what follows. Only a function
that the end of the first script would have completed is not settled by it. Where there is none,
the whole has the statements of the first script and then those of the second.
-/

namespace VueSfc.Script

open Text

/-- Statements in two goes are sorted in two goes. -/
theorem ofStatements_append (front back : List Statement) :
    Analysis.ofStatements (front ++ back) =
      Analysis.ofStatements front ++ Analysis.ofStatements back :=
  congrArg₂ Analysis.mk List.filterMap_append List.filterMap_append

/-- The analysis of a script is made of the statements that are complete before its end and of
what the end completes. -/
theorem classify_eq_ofStatements (script : Text) :
    classify script = .ofStatements (readStatements script) ++
      .ofStatements (finalState script).flush :=
  ofStatements_append _ _

/-- The functions of a script that are complete before its end: all of them, unless the reader is
still collecting the last one. -/
def settledFunctions (script : Text) : List FunctionStatement :=
  match finalState script with
  | .idle => (classify script).functions
  | .collecting _ => (classify script).functions.dropLast

/-- The settled functions are those read before the end. -/
theorem settledFunctions_eq (script : Text) :
    settledFunctions script = (Analysis.ofStatements (readStatements script)).functions := by
  have h := functions_classify script
  rw [settledFunctions]
  cases hs : finalState script with
  | idle =>
    rw [hs] at h
    exact h.trans (List.append_nil _)
  | collecting p =>
    rw [hs] at h
    dsimp only
    rw [h]
    exact List.dropLast_concat

section

variable {front back : Text} (hf : ¬ consoleWord <:+: front) (hb : ¬ consoleWord <:+: back)
include hf hb

/-- The lines of a script that is continued are those of its two parts. -/
theorem analysedLines_append :
    analysedLines (front ++ '\n' :: back) = analysedLines front ++ analysedLines back := by
  have hw : ¬ consoleWord <:+: front ++ '\n' :: back := by
    rw [isInfix_append_feed_iff (by decide), not_or]
    exact ⟨hf, hb⟩
  simp only [analysedLines, stripDiagnostics_eq_self hf, stripDiagnostics_eq_self hb,
    stripDiagnostics_eq_self hw, scriptLines_eq]
  exact trimmedLines_append_feed _ front back

/-- What is read of a script stays read when it is continued, and the rest is read on from the
state at its end. -/
theorem readStatements_append :
    readStatements (front ++ '\n' :: back) =
      readStatements front ++ ((finalState front).scan (analysedLines back)).1 := by
  rw [readStatements, analysedLines_append hf hb, ScanState.scan_append]
  rfl

/-- A script that is continued ends as its second part does from the state at the end of the
first. -/
theorem finalState_append :
    finalState (front ++ '\n' :: back) = ((finalState front).scan (analysedLines back)).2 := by
  rw [finalState, analysedLines_append hf hb, ScanState.scan_append]
  rfl

/-- Where a script leaves the reader idle, what continues it is read as a script of its own. -/
theorem classify_append_of_idle (hi : finalState front = .idle) :
    classify (front ++ '\n' :: back) = classify front ++ classify back := by
  have hfront : classify front = .ofStatements (readStatements front) := by
    rw [classify_eq_ofStatements, hi]
    exact congrArg₂ Analysis.mk (List.append_nil _) (List.append_nil _)
  rw [classify_eq_ofStatements, readStatements_append hf hb, finalState_append hf hb, hi,
    ofStatements_append, hfront, classify_eq_ofStatements back]
  exact congrArg₂ Analysis.mk (List.append_assoc _ _ _) (List.append_assoc _ _ _)

end

/-- A script without diagnostic calls may be continued on the next line by another one. The
variables of the first stay where they are, in front of all others, and so do its functions, except
for one that the reader is still collecting at its end. Where the reader is idle there, the analysis
of the whole is that of the first script followed by that of the second. -/
theorem classify_continued (front back : Text) (hf : ¬ consoleWord <:+: front)
    (hb : ¬ consoleWord <:+: back) :
    (classify front).state <+: (classify (front ++ '\n' :: back)).state ∧
      settledFunctions front <+: (classify (front ++ '\n' :: back)).functions ∧
      (finalState front = .idle →
        classify (front ++ '\n' :: back) = classify front ++ classify back) := by
  refine ⟨?_, ?_, classify_append_of_idle hf hb⟩
  · rw [state_classify, state_classify, readStatements_append hf hb, ofStatements_append]
    exact List.prefix_append _ _
  · rw [settledFunctions_eq, functions_classify, readStatements_append hf hb, ofStatements_append,
      Analysis.functions_append, List.append_assoc]
    exact List.prefix_append _ _

/-- A variable and a function that ends. -/
def endedScript : Text := "let a = 1\nfunction f() \x7b\na++\n\x7d"

/-- A function that does not end. -/
def unendedScript : Text := "const g = () => a\nfunction h() \x7b"

/-- Each script continued by the other: behind the first the analyses are put together, and behind
the second the function that is open at its end is not settled. -/
theorem endedScript_continued :
    classify (endedScript ++ '\n' :: unendedScript) =
        classify endedScript ++ classify unendedScript ∧
      settledFunctions unendedScript <+:
        (classify (unendedScript ++ '\n' :: endedScript)).functions ∧
      ¬ (classify unendedScript).functions <+:
        (classify (unendedScript ++ '\n' :: endedScript)).functions := by
  have he : ¬ consoleWord <:+: endedScript := by decide +kernel
  have hu : ¬ consoleWord <:+: unendedScript := by decide +kernel
  refine ⟨(classify_continued endedScript unendedScript he hu).2.2 (by decide +kernel),
    (classify_continued unendedScript endedScript hu he).2.1, by decide +kernel⟩

end VueSfc.Script
