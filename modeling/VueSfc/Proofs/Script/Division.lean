import VueSfc.Script.Classifier
import VueSfc.Proofs.Text.Lines

/-!
# How the lines of a script are divided

Reading a script divides its lines into consecutive parts: functions, variables, lines that are
neither, and functions given up because another one begins. A part of a function begins with the
only line in it that opens a function, and a function is given up only for the one that follows
directly. The statements are read off the parts in their order, so no line is used twice, joined
to another part or moved.
-/

namespace VueSfc.Script

open Text

/-- The line opens a function. -/
def Opens (line : Text) : Prop := ∃ head, LineShape.ofLine line = .opens head

/-- What becomes of some consecutive lines. -/
inductive Part where
  /-- A function: the line that opens it and the lines added to it. -/
  | function (first : Text) (later : List Text)
  /-- A function given up before its end. -/
  | replaced (first : Text) (later : List Text)
  /-- A variable. -/
  | state (line : Text)
  /-- A line that is read while no function is open and says nothing. -/
  | dropped (line : Text)
  deriving DecidableEq, Repr

namespace Part

/-- The lines of a part. -/
def lines : Part → List Text
  | .function first later => first :: later
  | .replaced first later => first :: later
  | .state line => [line]
  | .dropped line => [line]

/-- The part begins with a line that opens a function. -/
def IsFunction : Part → Prop
  | .function _ _ => True
  | .replaced _ _ => True
  | .state _ => False
  | .dropped _ => False

/-- The lines of a part have the shapes that belong to it. -/
def IsShaped : Part → Prop
  | .function first later => Opens first ∧ ∀ line ∈ later, ¬ Opens line
  | .replaced first later => Opens first ∧ ∀ line ∈ later, ¬ Opens line
  | .state line => ∃ s, LineShape.ofLine line = .state s
  | .dropped line => LineShape.ofLine line = .other

/-- The source of the function that a part stands for. -/
def functionSource? : Part → Option Text
  | .function first later => some (unlines (first :: later))
  | _ => none

/-- The source of the variable that a part stands for. -/
def stateSource? : Part → Option Text
  | .state line => some line
  | _ => none

end Part

/-- Every function given up is followed directly by another function. -/
def AreLinked : List Part → Prop
  | [] => True
  | .replaced _ _ :: rest => (∃ next ∈ rest.head?, next.IsFunction) ∧ AreLinked rest
  | _ :: rest => AreLinked rest

/-- Some parts divide some lines. -/
structure IsDivision (ls : List Text) (parts : List Part) : Prop where
  /-- The lines are those of the parts, one part after the other. -/
  lines_eq : parts.flatMap Part.lines = ls
  /-- Every part has its shape. -/
  shaped : ∀ part ∈ parts, part.IsShaped
  /-- Functions are given up only for the next one. -/
  linked : AreLinked parts

/-- The lines of a script that are read: trimmed, neither empty nor comments. -/
def readLines (script : Text) : List Text :=
  trimmedLines (fun line => !line.isEmpty && !"//".toList.isPrefixOf line) script

/-- Trimming the whole script first makes no difference to the lines that are read. -/
theorem scriptLines_eq (script : Text) : scriptLines script = readLines script :=
  trimmedLines_trim rfl script

/-! ## One line -/

namespace ScanState

/-- The lines collected so far. -/
def pendingLines : ScanState → List Text
  | .idle => []
  | .collecting p => p.lines

/-- A function that is being collected began with its first line and with no later one. -/
def IsBegun : ScanState → Prop
  | .idle => True
  | .collecting p => LineShape.ofLine p.firstLine = .opens p.head ∧ ∀ line ∈ p.later, ¬ Opens line

/-- Reading lines one after another. -/
theorem scan_cons (state : ScanState) (line : Text) (ls : List Text) :
    state.scan (line :: ls) =
      ((state.step line).1.toList ++ ((state.step line).2.scan ls).1,
        ((state.step line).2.scan ls).2) := rfl

/-- What a line that opens a function does in any state. -/
theorem step_of_opens {line : Text} {head : FunctionHead}
    (h : LineShape.ofLine line = .opens head) (state : ScanState) :
    state.step line =
      if isWholeArrow line then (some (.function (PendingFunction.start head line).finish), .idle)
      else (none, .collecting (.start head line)) := by
  simp only [step, h]

/-- What any other line does to a function that is being collected. -/
theorem step_collecting {line : Text} (h : ¬ Opens line) (p : PendingFunction) :
    (ScanState.collecting p).step line =
      if (p.addLine line).depth = 0 then (some (.function (p.addLine line).finish), .idle)
      else (none, .collecting (p.addLine line)) := by
  cases hl : LineShape.ofLine line with
  | opens head => exact absurd ⟨head, hl⟩ h
  | state s => simp only [step, hl]
  | other => simp only [step, hl]

/-- What any other line does while no function is open. -/
theorem step_idle {line : Text} (h : ¬ Opens line) :
    ScanState.idle.step line =
      (match LineShape.ofLine line with
        | .state s => some (.state s)
        | _ => none, .idle) := by
  cases hl : LineShape.ofLine line with
  | opens head => exact absurd ⟨head, hl⟩ h
  | state s => simp only [step, hl]
  | other => simp only [step, hl]

/-- Adding a line keeps the beginning of a function. -/
theorem isBegun_addLine {p : PendingFunction} {line : Text}
    (hp : (ScanState.collecting p).IsBegun) (h : ¬ Opens line) :
    (ScanState.collecting (p.addLine line)).IsBegun := by
  refine ⟨hp.1, ?_⟩
  intro l hl
  rcases List.mem_append.1 hl with hl | hl
  · exact hp.2 l hl
  · rw [List.mem_singleton.1 hl]
    exact h

end ScanState

/-! ## All lines -/

/-- The statements hold the sources of the parts, functions and variables each in their order. -/
def HasSources (statements : List Statement) (parts : List Part) : Prop :=
  (Analysis.ofStatements statements).functions.map FunctionStatement.source =
      parts.filterMap Part.functionSource? ∧
    (Analysis.ofStatements statements).state.map StateStatement.source =
      parts.filterMap Part.stateSource?

/-- A variable keeps the line it was read from. -/
theorem source_of_state {line : Text} {s : StateStatement}
    (h : LineShape.ofLine line = .state s) : s.source = line := by
  rw [LineShape.ofLine] at h
  split at h
  · simp at h
  · split at h
    · rename_i s' hs
      obtain rfl := LineShape.state.inj h
      simp only [stateStatement?, Option.bind_eq_bind, Option.bind_eq_some_iff] at hs
      obtain ⟨first, -, word, -, ⟨space, rest⟩, -, ⟨name, rest'⟩, -, tail, -, he⟩ := hs
      rw [← Option.some.inj he]
      exact textOf_tokens line
    · simp at h

/-- Where the first line opens a function, the first part is one. -/
theorem IsDivision.isFunction_of_opens {line : Text} {ls : List Text} {parts : List Part}
    (h : IsDivision (line :: ls) parts) (hl : Opens line) :
    ∃ next ∈ parts.head?, next.IsFunction := by
  cases parts with
  | nil => simpa using h.lines_eq
  | cons part parts =>
    have hs := h.shaped part List.mem_cons_self
    have he := h.lines_eq
    refine ⟨part, rfl, ?_⟩
    cases part with
    | function first later => trivial
    | replaced first later => trivial
    | state l =>
      obtain ⟨s, hs⟩ := hs
      obtain ⟨head, hh⟩ := hl
      simp only [List.flatMap_cons, Part.lines, List.singleton_append, List.cons.injEq] at he
      simp [he.1, hh] at hs
    | dropped l =>
      obtain ⟨head, hh⟩ := hl
      simp only [List.flatMap_cons, Part.lines, List.singleton_append, List.cons.injEq] at he
      simp [Part.IsShaped, he.1, hh] at hs

/-- One more part in front, which is not given up. -/
theorem IsDivision.cons {ls : List Text} {parts : List Part} (h : IsDivision ls parts)
    (part : Part) (hs : part.IsShaped) (hp : ∀ first later, part ≠ .replaced first later) :
    IsDivision (part.lines ++ ls) (part :: parts) where
  lines_eq := by rw [List.flatMap_cons, h.lines_eq]
  shaped := by
    intro p hm
    rcases List.mem_cons.1 hm with rfl | hm
    · exact hs
    · exact h.shaped p hm
  linked := by
    cases part with
    | replaced first later => exact absurd rfl (hp first later)
    | function first later => exact h.linked
    | state line => exact h.linked
    | dropped line => exact h.linked

/-- One more part in front, given up for the function that follows. -/
theorem IsDivision.cons_replaced {line first : Text} {ls later : List Text} {parts : List Part}
    (h : IsDivision (line :: ls) parts) (hl : Opens line)
    (hs : (Part.replaced first later).IsShaped) :
    IsDivision (first :: later ++ line :: ls) (.replaced first later :: parts) where
  lines_eq := by rw [List.flatMap_cons, h.lines_eq]; rfl
  shaped := by
    intro p hm
    rcases List.mem_cons.1 hm with rfl | hm
    · exact hs
    · exact h.shaped p hm
  linked := ⟨h.isFunction_of_opens hl, h.linked⟩

/-- A part that is given up has no statement. -/
theorem HasSources.cons_replaced {statements : List Statement} {parts : List Part}
    (h : HasSources statements parts) (first : Text) (later : List Text) :
    HasSources statements (.replaced first later :: parts) := h

/-- A line that is dropped has no statement. -/
theorem HasSources.cons_dropped {statements : List Statement} {parts : List Part}
    (h : HasSources statements parts) (line : Text) :
    HasSources statements (.dropped line :: parts) := h

/-- A function whose source is made of the lines of a part. -/
theorem HasSources.cons_function {statements : List Statement} {parts : List Part}
    (h : HasSources statements parts) (p : PendingFunction) :
    HasSources (.function p.finish :: statements) (.function p.firstLine p.later :: parts) :=
  ⟨congrArg (unlines p.lines :: ·) h.1, h.2⟩

/-- A variable whose source is the line of a part. -/
theorem HasSources.cons_state {statements : List Statement} {parts : List Part}
    (h : HasSources statements parts) {line : Text} {s : StateStatement}
    (hs : LineShape.ofLine line = .state s) :
    HasSources (.state s :: statements) (.state line :: parts) := by
  refine ⟨h.1, ?_⟩
  have hc := congrArg (line :: ·) h.2
  change s.source :: _ = _
  rw [source_of_state hs]
  exact hc

/-- Reading lines from any state divides them, together with the lines collected before, into
parts whose sources are those of the statements. -/
theorem exists_division (ls : List Text) (state : ScanState) (hs : state.IsBegun) :
    ∃ parts, IsDivision (state.pendingLines ++ ls) parts ∧
      HasSources ((state.scan ls).1 ++ (state.scan ls).2.flush) parts := by
  induction ls generalizing state with
  | nil =>
    cases state with
    | idle => exact ⟨[], ⟨rfl, by simp, trivial⟩, rfl, rfl⟩
    | collecting p =>
      refine ⟨[.function p.firstLine p.later], ⟨?_, ?_, trivial⟩, rfl, rfl⟩
      · simp [Part.lines, ScanState.pendingLines, PendingFunction.lines]
      · intro part hm
        rw [List.mem_singleton.1 hm]
        exact ⟨⟨_, hs.1⟩, hs.2⟩
  | cons line ls ih =>
    rw [ScanState.scan_cons]
    by_cases hl : Opens line
    · obtain ⟨head, hh⟩ := hl
      -- From the line on, the parts do not depend on the state.
      have hline : ∃ parts, IsDivision (line :: ls) parts ∧
          HasSources ((state.step line).1.toList ++ ((state.step line).2.scan ls).1 ++
            ((state.step line).2.scan ls).2.flush) parts := by
        rw [ScanState.step_of_opens hh]
        split
        · obtain ⟨parts, hd, hp⟩ := ih .idle trivial
          exact ⟨.function line [] :: parts,
            hd.cons (.function line []) ⟨⟨head, hh⟩, by simp⟩ (by simp),
            hp.cons_function (.start head line)⟩
        · obtain ⟨parts, hd, hp⟩ := ih (.collecting (.start head line)) ⟨hh, by simp [
            PendingFunction.start]⟩
          exact ⟨parts, hd, hp⟩
      obtain ⟨parts, hd, hp⟩ := hline
      cases state with
      | idle => exact ⟨parts, hd, hp⟩
      | collecting p =>
        exact ⟨.replaced p.firstLine p.later :: parts,
          hd.cons_replaced ⟨head, hh⟩ ⟨⟨p.head, hs.1⟩, hs.2⟩, hp.cons_replaced _ _⟩
    · cases state with
      | idle =>
        obtain ⟨parts, hd, hp⟩ := ih .idle trivial
        rw [ScanState.step_idle hl]
        cases hh : LineShape.ofLine line with
        | opens head => exact absurd ⟨head, hh⟩ hl
        | state s =>
          exact ⟨.state line :: parts, hd.cons (.state line) ⟨s, hh⟩ (by simp),
            hp.cons_state hh⟩
        | other =>
          exact ⟨.dropped line :: parts, hd.cons (.dropped line) hh (by simp),
            hp.cons_dropped line⟩
      | collecting p =>
        have hb := ScanState.isBegun_addLine hs hl
        rw [ScanState.step_collecting hl]
        split
        · obtain ⟨parts, hd, hp⟩ := ih .idle trivial
          have hd' := hd.cons (.function p.firstLine (p.later ++ [line]))
            ⟨⟨p.head, hb.1⟩, hb.2⟩ (by simp)
          refine ⟨_, ?_, hp.cons_function (p.addLine line)⟩
          simpa [Part.lines, ScanState.pendingLines, PendingFunction.lines,
            PendingFunction.addLine] using hd'
        · obtain ⟨parts, hd, hp⟩ := ih (.collecting (p.addLine line)) hb
          refine ⟨parts, ?_, hp⟩
          simpa [ScanState.pendingLines, PendingFunction.lines, PendingFunction.addLine] using hd

/-- The lines of a script that are read, which are the trimmed ones that are neither empty nor
comments, are divided into parts: the functions are those parts of the division that begin with
a line that opens a function and are not given up for the next one, the variables are lines
outside of them, and every other line says nothing or belongs to a function given up. -/
theorem classify_divides (script : Text) :
    ∃ parts, IsDivision (readLines (stripDiagnostics script)) parts ∧
      (classify script).functions.map FunctionStatement.source =
        parts.filterMap Part.functionSource? ∧
      (classify script).state.map StateStatement.source = parts.filterMap Part.stateSource? := by
  obtain ⟨parts, hd, hf, hs⟩ :=
    exists_division (readLines (stripDiagnostics script)) .idle trivial
  refine ⟨parts, hd, ?_, ?_⟩
  · rw [classify, statementsOf, scriptLines_eq]
    exact hf
  · rw [classify, statementsOf, scriptLines_eq]
    exact hs

end VueSfc.Script
