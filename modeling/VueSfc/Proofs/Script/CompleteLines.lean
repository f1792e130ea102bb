import VueSfc.Proofs.Script.Diagnostic
import VueSfc.Proofs.Script.Scan

/-!
# Scripts of complete lines

Every line of such a script is a statement of its own: a variable, or a function whose braces are
even. Its analysis has one statement for each line just when the functions before the last line
are one-line arrows, because any other function goes on with the line behind it, although its
braces are even, or gives way to it.
-/

namespace VueSfc.Script

open Text

/-! ## Lines that count -/

/-- The line declares a variable. -/
def DeclaresVariable (line : Text) : Prop := ∃ s, LineShape.ofLine line = .state s

instance (line : Text) : Decidable (DeclaresVariable line) :=
  match h : LineShape.ofLine line with
  | .state s => isTrue ⟨s, h⟩
  | .opens _ => isFalse fun ⟨_, hs⟩ => LineShape.noConfusion (h.symm.trans hs)
  | .other => isFalse fun ⟨_, hs⟩ => LineShape.noConfusion (h.symm.trans hs)

/-- The line is a statement of its own: a variable, or a function whose braces are even. -/
def IsComplete (line : Text) : Prop :=
  DeclaresVariable line ∨ Opens line ∧ line.count '\x7b' = line.count '\x7d'

instance (line : Text) : Decidable (IsComplete line) := inferInstanceAs (Decidable (_ ∨ _ ∧ _))

/-- An analysis has exactly one statement for each line, in the order of the lines for functions
and for variables, and the line is its source. -/
structure IsOnePerLine (a : Analysis) (ls : List Text) : Prop where
  /-- The functions are the lines that open one. -/
  functions_eq : a.functions.map FunctionStatement.source = ls.filter fun line => Opens line
  /-- The variables are the lines that declare one. -/
  state_eq : a.state.map StateStatement.source = ls.filter fun line => DeclaresVariable line

instance (a : Analysis) (ls : List Text) : Decidable (IsOnePerLine a ls) :=
  decidable_of_iff (_ ∧ _) ⟨fun h => ⟨h.1, h.2⟩, fun h => ⟨h.1, h.2⟩⟩

/-! ## One statement for each line -/

/-- A line that opens a function declares no variable. -/
theorem not_declaresVariable {line : Text} (h : Opens line) : ¬ DeclaresVariable line := by
  rintro ⟨s, hs⟩
  exact not_opens_of_state hs h

namespace IsOnePerLine

variable {ss : List Statement} {ls : List Text} (h : IsOnePerLine (.ofStatements ss) ls)
  {line : Text}
include h

/-- One more function. -/
theorem cons_function (hl : Opens line) {f : FunctionStatement} (hf : f.source = line) :
    IsOnePerLine (.ofStatements (.function f :: ss)) (line :: ls) where
  functions_eq := by
    rw [List.filter_cons_of_pos (by simpa using hl), ← h.functions_eq, ← hf]
    rfl
  state_eq := by
    rw [List.filter_cons_of_neg (by simpa using not_declaresVariable hl), ← h.state_eq]
    rfl

/-- One more variable. -/
theorem cons_state {s : StateStatement} (hs : LineShape.ofLine line = .state s) :
    IsOnePerLine (.ofStatements (.state s :: ss)) (line :: ls) where
  functions_eq := by
    rw [List.filter_cons_of_neg (by simpa using not_opens_of_state hs), ← h.functions_eq]
    rfl
  state_eq := by
    have hl : DeclaresVariable line := ⟨s, hs⟩
    rw [List.filter_cons_of_pos (by simpa using hl), ← h.state_eq, ← source_of_state hs]
    rfl

/-- One more line that says nothing. -/
theorem cons_other (hl : LineShape.ofLine line = .other) :
    IsOnePerLine (.ofStatements ss) (line :: ls) where
  functions_eq := by
    rw [List.filter_cons_of_neg (by simpa using not_opens_of_other hl), h.functions_eq]
  state_eq := by
    have hs : ¬ DeclaresVariable line := fun ⟨s, hs⟩ => LineShape.noConfusion (hl.symm.trans hs)
    rw [List.filter_cons_of_neg (by simpa using hs), h.state_eq]

/-- There are as many statements as lines that are statements. -/
theorem length_eq (hls : ∀ line ∈ ls, DeclaresVariable line ∨ Opens line) :
    ss.length = ls.length := by
  have hstate : (ls.filter fun line => DeclaresVariable line) =
      ls.filter fun line => !decide (Opens line) := by
    refine List.filter_congr fun line hl => ?_
    by_cases ho : Opens line
    · simp [ho, not_declaresVariable ho]
    · simp [ho, (hls line hl).resolve_right ho]
  have hf := congrArg List.length h.functions_eq
  have hs := congrArg List.length h.state_eq
  rw [List.length_map] at hf hs
  rw [length_ofStatements, hf, hs, hstate]
  exact (List.length_eq_length_filter_add _).symm

end IsOnePerLine

/-- The functions that open before the last line are one-line arrows. -/
def ArrowsBeforeLast (ls : List Text) : Prop :=
  ∀ line ∈ ls.dropLast, Opens line → IsOneLineArrow line

instance (ls : List Text) : Decidable (ArrowsBeforeLast ls) :=
  inferInstanceAs (Decidable (∀ line ∈ ls.dropLast, Opens line → IsOneLineArrow line))

/-- One more line in front. -/
theorem arrowsBeforeLast_cons {line : Text} {ls : List Text} :
    ArrowsBeforeLast (line :: ls) ↔
      (ls ≠ [] → Opens line → IsOneLineArrow line) ∧ ArrowsBeforeLast ls := by
  by_cases hn : ls = []
  · simp [hn, ArrowsBeforeLast]
  · rw [ArrowsBeforeLast, List.dropLast_cons_of_ne_nil hn, List.forall_mem_cons]
    simp only [ne_eq, hn, not_false_eq_true, forall_const]
    exact Iff.rfl

/-- An open function with a line behind it is no one-line arrow before the last line. -/
theorem PendingFunction.IsOpen.not_arrowsBeforeLast {p : PendingFunction} (h : p.IsOpen)
    (line : Text) (ls : List Text) : ¬ ArrowsBeforeLast (p.lines ++ line :: ls) := by
  intro ha
  rw [lines, List.cons_append, arrowsBeforeLast_cons] at ha
  exact h.not_arrow (ha.1 (by simp) ⟨_, h.begun.1⟩)

namespace Reads

variable {ls : List Text} {ss : List Statement} {last : ScanState}

/-- Where the functions before the last line are one-line arrows, there is one statement for each
line. -/
theorem isOnePerLine (h : Reads ls ss last) (ha : ArrowsBeforeLast ls) :
    IsOnePerLine (.ofStatements (ss ++ last.flush)) ls := by
  induction h with
  | done => exact ⟨rfl, rfl⟩
  | @pending p h =>
    have hlater : p.later = [] := by
      by_contra hn
      rw [PendingFunction.lines, arrowsBeforeLast_cons] at ha
      exact h.not_arrow (ha.1 hn ⟨_, h.begun.1⟩)
    have hnone : IsOnePerLine (.ofStatements []) [] := ⟨rfl, rfl⟩
    have hlines : p.lines = [p.firstLine] := by rw [PendingFunction.lines, hlater]
    rw [hlines]
    refine hnone.cons_function ⟨_, h.begun.1⟩ ?_
    change unlines p.lines = p.firstLine
    rw [hlines, unlines_singleton]
  | dropped hh _ ih => exact (ih (arrowsBeforeLast_cons.1 ha).2).cons_other hh
  | state hh _ ih => exact (ih (arrowsBeforeLast_cons.1 ha).2).cons_state hh
  | arrow hh _ _ ih =>
    exact (ih (arrowsBeforeLast_cons.1 ha).2).cons_function ⟨_, hh⟩ (unlines_singleton _)
  | closed h _ _ _ _ => exact absurd ha (h.not_arrowsBeforeLast _ _)
  | replaced h _ _ _ => exact absurd ha (h.not_arrowsBeforeLast _ _)

/-- There are no more statements than lines. -/
theorem length_le (h : Reads ls ss last) : (ss ++ last.flush).length ≤ ls.length := by
  induction h with
  | done => exact le_rfl
  | pending h => simp [ScanState.flush, PendingFunction.lines]
  | dropped _ _ ih => exact Nat.le_succ_of_le ih
  | state _ _ ih => exact Nat.succ_le_succ ih
  | arrow _ _ _ ih => exact Nat.succ_le_succ ih
  | closed _ _ _ _ ih =>
    simp only [List.length_append, List.length_cons] at ih ⊢
    omega
  | replaced _ _ _ ih =>
    simp only [List.length_append, List.length_cons] at ih ⊢
    omega

/-- Where there are as many statements as lines, the functions before the last line are one-line
arrows: every other one goes on with a line or gives way to it, and is one statement too few. -/
theorem arrowsBeforeLast_of_length_eq (h : Reads ls ss last)
    (he : (ss ++ last.flush).length = ls.length) : ArrowsBeforeLast ls := by
  induction h with
  | done => simp [ArrowsBeforeLast]
  | @pending p _ =>
    have hlater : p.later = [] := by
      simpa [ScanState.flush, PendingFunction.lines] using he
    simp [PendingFunction.lines, hlater, ArrowsBeforeLast]
  | dropped _ hr _ =>
    have hle := hr.length_le
    rw [he, List.length_cons] at hle
    omega
  | state hh _ ih =>
    exact arrowsBeforeLast_cons.2
      ⟨fun _ ho => absurd ⟨_, hh⟩ (not_declaresVariable ho), ih (Nat.succ.inj he)⟩
  | arrow _ ha _ ih => exact arrowsBeforeLast_cons.2 ⟨fun _ _ => ha, ih (Nat.succ.inj he)⟩
  | @closed p _ _ _ _ _ _ _ hr _ =>
    have hle := hr.length_le
    have hp := List.length_pos_iff.2 p.lines_ne_nil
    simp only [List.length_append, List.length_cons] at he hle
    omega
  | @replaced p _ _ _ _ _ _ hr _ =>
    have hle := hr.length_le
    have hp := List.length_pos_iff.2 p.lines_ne_nil
    simp only [List.length_append, List.length_cons] at he hle
    omega

end Reads

/-! ## Scripts of complete lines -/

/-- The analysis of a script without diagnostic calls is that of its lines. -/
theorem classify_eq {script : Text} (h : ¬ consoleWord <:+: script) :
    classify script = .ofStatements (statementsOf (readLines script)) := by
  rw [classify, stripDiagnostics_eq_self h, scriptLines_eq]

/-- What becomes of a function that its first line does not complete, and of the lines behind it,
none of which opens a function. -/
structure GoesOn (a : Analysis) (front : List Text) (first : Text) (later back : List Text) :
    Prop where
  /-- It takes in the lines through the first that leaves the braces even, and what follows is
  analysed on its own. -/
  closes : ClosesAtEnd (first :: later) → ∃ f : FunctionStatement,
    f.source = unlines (first :: later) ∧
      a = .ofStatements ((ScanState.idle.scan front).1 ++ .function f :: statementsOf back)
  /-- If the next function opens before that, the analysis is the one without these lines. -/
  gives_way : StaysOpen (first :: later) → (∃ next ∈ back.head?, Opens next) →
    a = .ofStatements (statementsOf (front ++ back))
  /-- If the script ends before that, all of the lines are the function. -/
  at_end : StaysOpen (first :: later) → back = [] → ∃ f : FunctionStatement,
    f.source = unlines (first :: later) ∧
      a = .ofStatements ((ScanState.idle.scan front).1 ++ [.function f])

/-- What an open function and the lines behind it become. -/
theorem goesOn_statementsOf {front : List Text} {first : Text} {later back : List Text}
    (ho : Opens first) (ha : ¬ IsOneLineArrow first) (hl : ∀ line ∈ later, ¬ Opens line) :
    GoesOn (.ofStatements (statementsOf (front ++ first :: later ++ back))) front first later
      back := by
  obtain ⟨head, hh⟩ := ho
  rw [List.append_assoc]
  refine ⟨fun hc => ?_, fun hs hn => ?_, fun hs hb => ?_⟩
  · rcases List.eq_nil_or_concat later with rfl | ⟨later, line, rfl⟩
    · exact absurd hc.two_le (by simp)
    rw [List.concat_eq_append] at hc hl ⊢
    rw [← List.cons_append] at hc
    obtain ⟨hs, hd⟩ := hc.of_concat
    have hp := PendingFunction.isOpen_ofLines hh ha
      (fun l hm => hl l (List.mem_append_left _ hm)) hs
    have hscan := hp.scan_closed (hl line (List.mem_append_right _ (List.mem_singleton_self _)))
      (hp.depth_addLine.trans hd) (ScanState.idle.scan front).2 back
    simp only [PendingFunction.lines, PendingFunction.ofLines] at hscan
    refine ⟨((PendingFunction.ofLines head first later).addLine line).finish, rfl, ?_⟩
    rw [← List.cons_append, List.append_assoc, List.singleton_append, statementsOf_append, hscan]
    rfl
  · obtain ⟨next, hm, hnext⟩ := hn
    obtain ⟨back, rfl⟩ := List.head?_eq_some_iff.1 hm
    have hscan := (PendingFunction.isOpen_ofLines hh ha hl hs).scan_replaced hnext
      (ScanState.idle.scan front).2 back
    simp only [PendingFunction.lines, PendingFunction.ofLines] at hscan
    rw [statementsOf_append, statementsOf_append, hscan,
      ScanState.scan_of_opens hnext (ScanState.idle.scan front).2]
  · have hscan := (PendingFunction.isOpen_ofLines hh ha hl hs).scan_lines
      (ScanState.idle.scan front).2
    simp only [PendingFunction.lines, PendingFunction.ofLines] at hscan
    refine ⟨(PendingFunction.ofLines head first later).finish, rfl, ?_⟩
    rw [hb, List.append_nil, statementsOf_append, hscan]
    rfl

/-- A script of complete lines, without diagnostic calls, has exactly one statement for each line
just when the functions that open before its last line are one-line arrows. Any other function goes
on with the lines behind it, gives way to the next function, or ends with the script. -/
theorem one_statement_per_complete_line (script : Text)
    (hlines : ∀ line ∈ readLines script, IsComplete line) (hcalls : ¬ consoleWord <:+: script) :
    (IsOnePerLine (classify script) (readLines script) ↔ ArrowsBeforeLast (readLines script)) ∧
    ∀ front first later back, readLines script = front ++ first :: later ++ back →
      Opens first → ¬ IsOneLineArrow first → (∀ line ∈ later, ¬ Opens line) →
      GoesOn (classify script) front first later back := by
  have hr := reads_scan (readLines script) .idle trivial
  have hstatement (line : Text) (hm : line ∈ readLines script) :
      DeclaresVariable line ∨ Opens line := (hlines line hm).imp_right And.left
  rw [classify_eq hcalls]
  refine ⟨⟨fun h => ?_, fun h => hr.isOnePerLine h⟩, fun front first later back he ho ha hl => ?_⟩
  · exact hr.arrowsBeforeLast_of_length_eq (h.length_eq hstatement)
  · rw [he]
    exact goesOn_statementsOf ho ha hl

/-- Variables and one-line arrows before a function, one statement each. -/
def arrowScript : Text := "const f = () => 1\n// done\nlet a = f();\nfunction g() \x7b return a \x7d"

/-- A script with one statement for each line. -/
theorem arrowScript_isOnePerLine :
    (∀ line ∈ readLines arrowScript, IsComplete line) ∧ ¬ consoleWord <:+: arrowScript ∧
      IsOnePerLine (classify arrowScript) (readLines arrowScript) := by
  have hlines : ∀ line ∈ readLines arrowScript, IsComplete line := by decide +kernel
  have hcalls : ¬ consoleWord <:+: arrowScript := by decide +kernel
  exact ⟨hlines, hcalls,
    (one_statement_per_complete_line arrowScript hlines hcalls).1.2 (by decide +kernel)⟩

/-- A complete function and a variable behind it. -/
def absorbingScript : Text := "function inc() \x7b count++; \x7d\nconst x = 1;"

/-- A complete function takes in the variable on the next line. -/
theorem absorbingScript_not_isOnePerLine :
    (∀ line ∈ readLines absorbingScript, IsComplete line) ∧
      ¬ consoleWord <:+: absorbingScript ∧
      ¬ IsOnePerLine (classify absorbingScript) (readLines absorbingScript) := by
  decide +kernel

end VueSfc.Script
