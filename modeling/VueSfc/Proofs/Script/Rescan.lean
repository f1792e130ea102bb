import VueSfc.Proofs.Script.Continuation
import VueSfc.Proofs.Script.Statement

/-!
# Statements classified again

The text of the statements of a script is a script of its own. Its functions end where they ended
before, because the end of a function is settled by its own lines, and only the last one can be
completed by the end of the script. So the functions alone are classified as the same functions,
and the variables alone as the same variables, whatever stood between them.
-/

namespace VueSfc.Script

open Text

/-! ## What is left when the other lines are taken away -/

/-- The statements of lines are those read, and what the end completes. -/
theorem Reads.statementsOf_eq {ls : List Text} {ss : List Statement} {last : ScanState}
    (h : Reads ls ss last) : statementsOf ls = ss ++ last.flush := by
  rw [statementsOf, h.scan_eq]

/-- The functions among some statements, in a script of their own. -/
theorem Reads.functions {ls : List Text} {ss : List Statement} {last : ScanState}
    (h : Reads ls ss last) (hf : ∀ line ∈ ls, '\n' ∉ line) :
    Reads ((Analysis.ofStatements ss).functions.flatMap (fun f => lines f.source) ++
        last.pendingLines) ((Analysis.ofStatements ss).functions.map .function) last := by
  induction h with
  | done => exact .done
  | pending h => exact .pending h
  | dropped _ _ ih => exact ih fun line hl => hf line (List.mem_cons_of_mem _ hl)
  | state _ _ ih => exact ih fun line hl => hf line (List.mem_cons_of_mem _ hl)
  | @arrow line head ls ss last hh ha _ ih =>
    have hlines : lines (PendingFunction.start head line).finish.source = [line] := by
      apply lines_unlines_of_notMem (List.cons_ne_nil _ _)
      intro l hl
      rw [List.mem_singleton.1 hl]
      exact hf line List.mem_cons_self
    have hrest := ih fun l hl => hf l (List.mem_cons_of_mem _ hl)
    have hall := Reads.arrow hh ha hrest
    rw [← List.singleton_append, ← hlines, ← List.append_assoc] at hall
    exact hall
  | @closed p line ls ss last h hl hd _ ih =>
    have hlines : lines (p.addLine line).finish.source = p.lines ++ [line] := by
      apply lines_unlines_of_notMem (List.append_ne_nil_of_left_ne_nil p.lines_ne_nil _)
      intro l hm
      refine hf l ?_
      rw [List.append_cons]
      exact List.mem_append_left _ hm
    have hrest := ih fun l hm =>
      hf l (List.mem_append_right _ (List.mem_cons_of_mem _ hm))
    have hall := Reads.closed h hl hd hrest
    rw [List.append_cons, ← hlines, ← List.append_assoc] at hall
    exact hall
  | replaced _ _ _ ih => exact ih fun line hl => hf line (List.mem_append_right _ hl)

/-- Variables whose sources declare them are read from those sources. -/
theorem reads_sources {state : List StateStatement}
    (h : ∀ s ∈ state, LineShape.ofLine s.source = .state s) :
    Reads (state.map StateStatement.source) (state.map .state) .idle := by
  induction state with
  | nil => exact .done
  | cons s state ih =>
    rw [List.forall_mem_cons] at h
    exact .state h.1 (ih h.2)

/-- Functions are all there is among functions. -/
theorem ofStatements_functions (functions : List FunctionStatement) :
    Analysis.ofStatements (functions.map .function) = ⟨[], functions⟩ := by
  simp [Analysis.ofStatements, List.filterMap_map]

/-- Variables are all there is among variables. -/
theorem ofStatements_state (state : List StateStatement) :
    Analysis.ofStatements (state.map .state) = ⟨state, []⟩ := by
  simp [Analysis.ofStatements, List.filterMap_map]

/-! ## The lines of statements -/

/-- A line that is read is read again as it is. -/
theorem trim_of_mem_analysedLines {script line : Text} (h : line ∈ analysedLines script) :
    trim line = line ∧ (!line.isEmpty && !"//".toList.isPrefixOf line) = true := by
  obtain ⟨⟨raw, -, rfl⟩, ht⟩ := mem_analysedLines_iff.1 h
  exact ⟨trim_trim raw, ht⟩

/-- A line that is read stood in the script, if no diagnostic call is taken out. -/
theorem not_isInfix_of_mem_analysedLines {script line : Text} (hc : ¬ consoleWord <:+: script)
    (h : line ∈ analysedLines script) : ¬ consoleWord <:+: line := by
  intro hw
  have hline := isInfix_of_mem_analysedLines h
  rw [stripDiagnostics_eq_self hc] at hline
  exact hc (hw.trans hline)

/-- Sources that are made of lines of a script without diagnostic calls are read line by line. -/
theorem classify_unlines {script : Text} (hc : ¬ consoleWord <:+: script) {sources : List Text}
    (h : ∀ source ∈ sources, ∀ line ∈ lines source, line ∈ analysedLines script) :
    classify (unlines sources) = .ofStatements (statementsOf (sources.flatMap lines)) := by
  have hw : ¬ consoleWord <:+: unlines sources := by
    rw [isInfix_unlines_iff (by decide) (by decide)]
    rintro ⟨source, hs, hw⟩
    rw [isInfix_iff_lines (by decide) (by decide)] at hw
    obtain ⟨line, hl, hw⟩ := hw
    exact not_isInfix_of_mem_analysedLines hc (h source hs line hl) hw
  have hlines : readLines (unlines sources) = sources.flatMap lines := by
    rw [readLines, trimmedLines_unlines rfl]
    apply List.flatMap_congr
    intro source hs
    apply trimmedLines_eq_lines
    intro line hl
    exact trim_of_mem_analysedLines (h source hs line hl)
  rw [classify, stripDiagnostics_eq_self hw, scriptLines_eq, hlines]

/-! ## Scripts of functions and scripts of variables -/

/-- The functions of a script without diagnostic calls, in a script of their own. -/
theorem classify_functions {script : Text} (hc : ¬ consoleWord <:+: script) :
    classify (unlines ((classify script).functions.map FunctionStatement.source)) =
      ⟨[], (classify script).functions⟩ := by
  have hsources : ∀ source ∈ (classify script).functions.map FunctionStatement.source,
      ∀ line ∈ lines source, line ∈ analysedLines script := by
    intro source hs line hl
    obtain ⟨f, hf, rfl⟩ := List.mem_map.1 hs
    obtain ⟨p, rfl, -, hm⟩ := mem_functions_classify hf
    rw [lines_source hm] at hl
    exact hm line hl
  have hr := reads_script script
  have hfeed : ∀ line ∈ analysedLines script, '\n' ∉ line :=
    fun line hl => (of_mem_analysedLines hl).2.1
  have hagain := (hr.functions hfeed).statementsOf_eq
  rw [classify_unlines hc hsources, List.flatMap_map, functions_classify, List.flatMap_append]
  cases hl : finalState script with
  | idle =>
    have hflush : (Analysis.ofStatements ScanState.idle.flush).functions = [] := rfl
    rw [hl, ScanState.pendingLines, List.append_nil] at hagain
    rw [hflush, List.flatMap_nil, List.append_nil, List.append_nil, hagain, ScanState.flush,
      List.append_nil, ofStatements_functions]
  | collecting p =>
    -- The last function is what the end of the script completes, here and there.
    have hflush : (Analysis.ofStatements (ScanState.collecting p).flush).functions = [p.finish] :=
      rfl
    have hp : lines p.finish.source = p.lines :=
      lines_source fun line hm => (hl ▸ hr).isOpen.2.subset hm
    rw [hl, ScanState.pendingLines, ← hp, ← List.flatMap_singleton (fun f : FunctionStatement =>
      lines f.source)] at hagain
    rw [hflush, hagain, ScanState.flush, ← List.map_singleton, ← List.map_append,
      ofStatements_functions]

/-- The variables of a script without diagnostic calls, in a script of their own. -/
theorem classify_state {script : Text} (hc : ¬ consoleWord <:+: script) :
    classify (unlines ((classify script).state.map StateStatement.source)) =
      ⟨(classify script).state, []⟩ := by
  have hshape : ∀ s ∈ (classify script).state,
      LineShape.ofLine s.source = .state s ∧ s.source ∈ analysedLines script := by
    intro s hs
    obtain ⟨line, hm, hl⟩ := mem_state_classify hs
    rw [source_of_state hl]
    exact ⟨hl, hm⟩
  have hlines : ((classify script).state.map StateStatement.source).flatMap lines =
      (classify script).state.map StateStatement.source := by
    apply flatMap_lines_of_notMem
    intro source hs
    obtain ⟨s, hm, rfl⟩ := List.mem_map.1 hs
    exact (of_mem_analysedLines (hshape s hm).2).2.1
  have hsources : ∀ source ∈ (classify script).state.map StateStatement.source,
      ∀ line ∈ lines source, line ∈ analysedLines script := by
    intro source hs line hl
    obtain ⟨s, hm, rfl⟩ := List.mem_map.1 hs
    rw [lines_eq_singleton (of_mem_analysedLines (hshape s hm).2).2.1, List.mem_singleton] at hl
    rw [hl]
    exact (hshape s hm).2
  have hagain := (reads_sources fun s hm => (hshape s hm).1).statementsOf_eq
  rw [classify_unlines hc hsources, hlines, hagain, ScanState.flush, List.append_nil,
    ofStatements_state]

/-- The text of classified statements is classified as the same statements. For every script
without diagnostic calls, the sources of its functions, one after another on lines of their own,
are a script with exactly those functions and no variable, and the sources of its variables are a
script with exactly those variables and no function. -/
theorem sources_classified_again (script : Text) (hc : ¬ consoleWord <:+: script) :
    classify (unlines ((classify script).functions.map FunctionStatement.source)) =
        ⟨[], (classify script).functions⟩ ∧
      classify (unlines ((classify script).state.map StateStatement.source)) =
        ⟨(classify script).state, []⟩ :=
  ⟨classify_functions hc, classify_state hc⟩

/-- A function that is given up, one that takes in the next line, a variable, a line that says
nothing, and a function that the end completes. -/
def mixedScript : Text :=
  "function f() \x7b\nfunction g() \x7b\x7d\nlet a = 1\nlet b = 2\nrun()\nconst h = () => \x7b\nb"

/-- Its functions and its variables, each in a script of their own. -/
theorem mixedScript_classified_again :
    ¬ consoleWord <:+: mixedScript ∧ (classify mixedScript).functions.length = 2 ∧
      (classify mixedScript).state.length = 1 ∧
      classify (unlines ((classify mixedScript).functions.map FunctionStatement.source)) =
        ⟨[], (classify mixedScript).functions⟩ ∧
      classify (unlines ((classify mixedScript).state.map StateStatement.source)) =
        ⟨(classify mixedScript).state, []⟩ := by
  have hc : ¬ consoleWord <:+: mixedScript := by decide +kernel
  refine ⟨hc, ?_, ?_, sources_classified_again mixedScript hc⟩
  · decide +kernel
  · decide +kernel

end VueSfc.Script
