import VueSfc.Proofs.Script.Division

/-!
# Where functions end

The reader of a script is described by a relation: some lines are read as some statements and
leave the reader in a state. It has one rule for every fate of a line that opens a function,
and each of them is stated on the braces of the collected text alone: a function with an arrow on
a first line that does not end with a brace is that line; any other one takes in the lines up to
the first after which its braces are even, gives way to a function that opens before that, or
ends with the script.
-/

namespace VueSfc.Script

open Text

/-! ## Braces -/

/-- How many more braces a text opens than it closes. -/
def braceExcess (text : Text) : Int := text.count '\x7b' - text.count '\x7d'

/-- The brace excess of the first lines, as many as given. -/
def depthAfter (ls : List Text) (k : Nat) : Int := braceExcess (unlines (ls.take k))

/-- No line after the first leaves the braces even. -/
def StaysOpen (ls : List Text) : Prop := ∀ k, 2 ≤ k → k ≤ ls.length → depthAfter ls k ≠ 0

/-- Of several lines the last one leaves the braces even, and none between it and the first. -/
structure ClosesAtEnd (ls : List Text) : Prop where
  /-- The first line is not the last one. -/
  two_le : 2 ≤ ls.length
  /-- The braces are even at the end. -/
  depth_eq : depthAfter ls ls.length = 0
  /-- They are not before. -/
  depth_ne : ∀ k, 2 ≤ k → k < ls.length → depthAfter ls k ≠ 0

/-- A line with an arrow that does not end with an opening brace. -/
def IsOneLineArrow (line : Text) : Prop := "=>".toList <:+: line ∧ ¬ ['\x7b'] <:+ line

/-- The running count of braces is their excess. -/
theorem braceBalance_eq (text : Text) : braceBalance text = braceExcess text := by
  induction text with
  | nil => rfl
  | cons c text ih =>
    rw [braceBalance, ih, braceExcess, braceExcess, List.count_cons, List.count_cons]
    by_cases ho : c = '\x7b'
    · subst ho
      simp
      omega
    · by_cases hc : c = '\x7d'
      · subst hc
        simp
        omega
      · simp [ho, hc]

/-- The brace excess of two texts together. -/
theorem braceExcess_append (front back : Text) :
    braceExcess (front ++ back) = braceExcess front + braceExcess back := by
  simp only [braceExcess, List.count_append]
  omega

/-- One more line adds its own excess. -/
theorem braceExcess_unlines_concat (ls : List Text) (line : Text) :
    braceExcess (unlines (ls ++ [line])) = braceExcess (unlines ls) + braceExcess line := by
  by_cases hn : ls = []
  · rw [hn, List.nil_append, unlines_singleton]
    exact (Int.zero_add _).symm
  · have hfeed : braceExcess ('\n' :: line) = braceExcess line := by
      simp [braceExcess]
    rw [unlines_append hn (List.cons_ne_nil line []), braceExcess_append, unlines_singleton, hfeed]

/-- After all lines, the excess is that of the whole text. -/
theorem depthAfter_length (ls : List Text) :
    depthAfter ls ls.length = braceExcess (unlines ls) := by
  rw [depthAfter, List.take_length]

/-- One more line does not change the excess before it. -/
theorem depthAfter_concat {ls : List Text} {k : Nat} (hk : k ≤ ls.length) (line : Text) :
    depthAfter (ls ++ [line]) k = depthAfter ls k := by
  rw [depthAfter, depthAfter, List.take_append_of_le_length hk]

/-- Lines stay open with one more that does not leave the braces even. -/
theorem StaysOpen.concat {ls : List Text} (h : StaysOpen ls) {line : Text}
    (hd : braceExcess (unlines (ls ++ [line])) ≠ 0) : StaysOpen (ls ++ [line]) := by
  intro k hk hl
  rw [List.length_append, List.length_singleton] at hl
  by_cases he : k ≤ ls.length
  · rw [depthAfter_concat he]
    exact h k hk he
  · obtain rfl : k = (ls ++ [line]).length := by
      rw [List.length_append, List.length_singleton]
      omega
    rwa [depthAfter_length]

/-- Lines that stay open with the last one stay open without it. -/
theorem StaysOpen.of_concat {ls : List Text} {line : Text} (h : StaysOpen (ls ++ [line])) :
    StaysOpen ls := by
  intro k hk hl
  rw [← depthAfter_concat hl line]
  refine h k hk ?_
  rw [List.length_append]
  omega

/-- The last of several lines that stay open does not leave the braces even. -/
theorem StaysOpen.excess_ne {ls : List Text} {line : Text} (h : StaysOpen (ls ++ [line]))
    (hn : ls ≠ []) : braceExcess (unlines (ls ++ [line])) ≠ 0 := by
  have hp := List.length_pos_iff.2 hn
  rw [← depthAfter_length]
  refine h _ ?_ le_rfl
  rw [List.length_append, List.length_singleton]
  omega

/-- Lines that stay open close with one more that leaves the braces even. -/
theorem StaysOpen.closesAtEnd {ls : List Text} (h : StaysOpen ls) (hn : ls ≠ []) {line : Text}
    (hd : braceExcess (unlines (ls ++ [line])) = 0) : ClosesAtEnd (ls ++ [line]) where
  two_le := by
    have hp := List.length_pos_iff.2 hn
    rw [List.length_append, List.length_singleton]
    omega
  depth_eq := by rwa [depthAfter_length]
  depth_ne k hk hl := by
    rw [List.length_append, List.length_singleton] at hl
    rw [depthAfter_concat (by omega)]
    exact h k hk (by omega)

/-- Lines that close with the last one stay open without it. -/
theorem ClosesAtEnd.of_concat {ls : List Text} {line : Text} (h : ClosesAtEnd (ls ++ [line])) :
    StaysOpen ls ∧ braceExcess (unlines (ls ++ [line])) = 0 := by
  refine ⟨fun k hk hl => ?_, depthAfter_length (ls ++ [line]) ▸ h.depth_eq⟩
  rw [← depthAfter_concat hl line]
  refine h.depth_ne k hk ?_
  rw [List.length_append, List.length_singleton]
  omega

/-- A text contains a word just when the word is an infix of it. -/
theorem containsWord_iff {word text : Text} : containsWord word text = true ↔ word <:+: text := by
  induction text with
  | nil => simp [containsWord]
  | cons c text ih =>
    rw [containsWord, Bool.or_eq_true, List.isPrefixOf_iff_prefix, ih, List.infix_cons_iff]

/-- A line that opens a function is all of it just when it is a one-line arrow. -/
theorem isWholeArrow_iff {line : Text} : isWholeArrow line = true ↔ IsOneLineArrow line := by
  rw [isWholeArrow, Bool.and_eq_true, containsWord_iff, bne_iff_ne, ne_eq,
    ← List.singleton_suffix_iff_getLast?_eq_some]
  exact Iff.rfl

instance (line : Text) : Decidable (IsOneLineArrow line) := decidable_of_iff _ isWholeArrow_iff

/-! ## Functions being collected -/

/-- A line that declares a variable opens no function. -/
theorem not_opens_of_state {line : Text} {s : StateStatement}
    (h : LineShape.ofLine line = .state s) : ¬ Opens line :=
  fun ⟨_, ho⟩ => LineShape.noConfusion (h.symm.trans ho)

/-- A line that says nothing opens no function. -/
theorem not_opens_of_other {line : Text} (h : LineShape.ofLine line = .other) : ¬ Opens line :=
  fun ⟨_, ho⟩ => LineShape.noConfusion (h.symm.trans ho)

instance (line : Text) : Decidable (Opens line) :=
  match h : LineShape.ofLine line with
  | .opens head => isTrue ⟨head, h⟩
  | .state _ => isFalse (not_opens_of_state h)
  | .other => isFalse (not_opens_of_other h)

namespace PendingFunction

/-- A function that has been begun and has not ended. -/
structure IsOpen (p : PendingFunction) : Prop where
  /-- It begins with its first line and with no later one. -/
  begun : (ScanState.collecting p).IsBegun
  /-- The first line is not all of it. -/
  not_arrow : ¬ IsOneLineArrow p.firstLine
  /-- The count is the brace excess of its lines. -/
  depth_eq : p.depth = braceExcess (unlines p.lines)
  /-- No line has ended it. -/
  staysOpen : StaysOpen p.lines

/-- A function that has ended before the script does. -/
structure IsEnded (p : PendingFunction) : Prop where
  /-- It begins with its first line and with no later one. -/
  begun : (ScanState.collecting p).IsBegun
  /-- The first line is all of it, or the last one closes it. -/
  ends : IsOneLineArrow p.firstLine ∧ p.later = [] ∨
    ¬ IsOneLineArrow p.firstLine ∧ ClosesAtEnd p.lines

/-- A function of which the given lines have been collected. -/
def ofLines (head : FunctionHead) (first : Text) (later : List Text) : PendingFunction :=
  ⟨head, first, later, braceExcess (unlines (first :: later))⟩

/-- One more line is added at the end. -/
theorem lines_addLine (p : PendingFunction) (line : Text) :
    (p.addLine line).lines = p.lines ++ [line] := rfl

/-- The lines of a function are never empty. -/
theorem lines_ne_nil (p : PendingFunction) : p.lines ≠ [] := List.cons_ne_nil _ _

/-- A function of one line has just been begun. -/
theorem ofLines_nil (head : FunctionHead) (first : Text) :
    ofLines head first [] = start head first := by
  rw [start, braceBalance_eq]
  simp [ofLines, unlines, joinWith]

/-- The count follows the braces of the lines. -/
theorem addLine_ofLines (head : FunctionHead) (first : Text) (later : List Text) (line : Text) :
    (ofLines head first later).addLine line = ofLines head first (later ++ [line]) := by
  rw [addLine, ofLines, ofLines, ← List.cons_append, braceExcess_unlines_concat, braceBalance_eq]

/-- A line that opens a function and is not all of it leaves it open. -/
theorem isOpen_start {line : Text} {head : FunctionHead} (h : LineShape.ofLine line = .opens head)
    (ha : ¬ IsOneLineArrow line) : (start head line).IsOpen where
  begun := ⟨h, by simp [start]⟩
  not_arrow := ha
  depth_eq := by
    rw [← ofLines_nil]
    rfl
  staysOpen k hk hl := by
    simp only [lines, start, List.length_singleton] at hl
    omega

/-- Lines that stay open behind one that opens a function are an open function. -/
theorem isOpen_ofLines {head : FunctionHead} {first : Text} {later : List Text}
    (h : LineShape.ofLine first = .opens head) (ha : ¬ IsOneLineArrow first)
    (hl : ∀ line ∈ later, ¬ Opens line) (hs : StaysOpen (first :: later)) :
    (ofLines head first later).IsOpen :=
  ⟨⟨h, hl⟩, ha, rfl, hs⟩

/-- A one-line arrow has ended with its first line. -/
theorem isEnded_start {line : Text} {head : FunctionHead}
    (h : LineShape.ofLine line = .opens head) (ha : IsOneLineArrow line) :
    (start head line).IsEnded where
  begun := ⟨h, by simp [start]⟩
  ends := .inl ⟨ha, rfl⟩

namespace IsOpen

variable {p : PendingFunction} (h : p.IsOpen) {line : Text}
include h

/-- What is known of an open function is in its lines. -/
theorem exists_ofLines : ∃ head first later, p = ofLines head first later := by
  obtain ⟨head, first, later, depth⟩ := p
  exact ⟨head, first, later, congrArg (PendingFunction.mk head first later) h.depth_eq⟩

omit h in
/-- An open function was open before its last line. -/
theorem of_concat {head : FunctionHead} {first : Text} {later : List Text}
    (h : (ofLines head first (later ++ [line])).IsOpen) : (ofLines head first later).IsOpen where
  begun := ⟨h.begun.1, fun l hl => h.begun.2 l (List.mem_append_left _ hl)⟩
  not_arrow := h.not_arrow
  depth_eq := rfl
  staysOpen := StaysOpen.of_concat h.staysOpen

/-- The count follows the braces. -/
theorem depth_addLine : (p.addLine line).depth = braceExcess (unlines (p.lines ++ [line])) := by
  rw [braceExcess_unlines_concat, ← h.depth_eq, ← braceBalance_eq]
  rfl

/-- A function stays open with a line that does not leave the braces even. -/
theorem addLine (hl : ¬ Opens line) (hd : (p.addLine line).depth ≠ 0) :
    (p.addLine line).IsOpen where
  begun := ScanState.isBegun_addLine h.begun hl
  not_arrow := h.not_arrow
  depth_eq := h.depth_addLine
  staysOpen := h.staysOpen.concat (h.depth_addLine ▸ hd)

/-- A line that leaves the braces even ends a function. -/
theorem isEnded_addLine (hl : ¬ Opens line) (hd : (p.addLine line).depth = 0) :
    (p.addLine line).IsEnded where
  begun := ScanState.isBegun_addLine h.begun hl
  ends := .inr ⟨h.not_arrow, h.staysOpen.closesAtEnd p.lines_ne_nil (h.depth_addLine ▸ hd)⟩

end IsOpen

end PendingFunction

/-- A function that is being collected is open. -/
def ScanState.IsSound : ScanState → Prop
  | .idle => True
  | .collecting p => p.IsOpen

/-! ## What lines are read as -/

/-- Some lines are read as some statements and leave the reader in a state. -/
inductive Reads : List Text → List Statement → ScanState → Prop
  /-- Nothing is left to read. -/
  | done : Reads [] [] .idle
  /-- The lines end within a function. -/
  | pending {p : PendingFunction} (h : p.IsOpen) : Reads p.lines [] (.collecting p)
  /-- A line outside of functions says nothing. -/
  | dropped {line : Text} {ls : List Text} {ss : List Statement} {last : ScanState}
      (h : LineShape.ofLine line = .other) (hr : Reads ls ss last) : Reads (line :: ls) ss last
  /-- A line outside of functions declares a variable. -/
  | state {line : Text} {s : StateStatement} {ls : List Text} {ss : List Statement}
      {last : ScanState} (h : LineShape.ofLine line = .state s) (hr : Reads ls ss last) :
      Reads (line :: ls) (.state s :: ss) last
  /-- A line is all of a function. -/
  | arrow {line : Text} {head : FunctionHead} {ls : List Text} {ss : List Statement}
      {last : ScanState} (h : LineShape.ofLine line = .opens head) (ha : IsOneLineArrow line)
      (hr : Reads ls ss last) :
      Reads (line :: ls) (.function (PendingFunction.start head line).finish :: ss) last
  /-- A line leaves the braces of a function even. -/
  | closed {p : PendingFunction} {line : Text} {ls : List Text} {ss : List Statement}
      {last : ScanState} (h : p.IsOpen) (hl : ¬ Opens line) (hd : (p.addLine line).depth = 0)
      (hr : Reads ls ss last) :
      Reads (p.lines ++ line :: ls) (.function (p.addLine line).finish :: ss) last
  /-- A function gives way to the next one. -/
  | replaced {p : PendingFunction} {line : Text} {ls : List Text} {ss : List Statement}
      {last : ScanState} (h : p.IsOpen) (hl : Opens line) (hr : Reads (line :: ls) ss last) :
      Reads (p.lines ++ line :: ls) ss last

/-- Reading lines from a sound state is reading them behind the lines collected before. -/
theorem reads_scan (ls : List Text) (state : ScanState) (hs : state.IsSound) :
    Reads (state.pendingLines ++ ls) (state.scan ls).1 (state.scan ls).2 := by
  induction ls generalizing state with
  | nil =>
    cases state with
    | idle => exact .done
    | collecting p =>
      rw [List.append_nil]
      exact .pending hs
  | cons line ls ih =>
    rw [ScanState.scan_cons]
    by_cases hl : Opens line
    · obtain ⟨head, hh⟩ := hl
      -- From the line on, what is read does not depend on the state.
      have hline : Reads (line :: ls)
          ((state.step line).1.toList ++ ((state.step line).2.scan ls).1)
          ((state.step line).2.scan ls).2 := by
        rw [ScanState.step_of_opens hh]
        split
        · rename_i ha
          exact .arrow hh (isWholeArrow_iff.1 ha) (ih .idle trivial)
        · rename_i ha
          exact ih (.collecting (.start head line))
            (PendingFunction.isOpen_start hh fun h => ha (isWholeArrow_iff.2 h))
      cases state with
      | idle => exact hline
      | collecting p => exact .replaced hs ⟨head, hh⟩ hline
    · cases state with
      | idle =>
        rw [ScanState.step_idle hl]
        cases hh : LineShape.ofLine line with
        | opens head => exact absurd ⟨head, hh⟩ hl
        | state s => exact .state hh (ih .idle trivial)
        | other => exact .dropped hh (ih .idle trivial)
      | collecting p =>
        rw [ScanState.step_collecting hl]
        split
        · rename_i hd
          exact .closed hs hl hd (ih .idle trivial)
        · rename_i hd
          have hr := ih (.collecting (p.addLine line)) (hs.addLine hl hd)
          rw [ScanState.pendingLines, PendingFunction.lines_addLine, List.append_assoc] at hr
          exact hr

/-- A statement stood on some lines: a variable on one of them, and a function that has ended on
several. -/
def Statement.StandsOn (ls : List Text) : Statement → Prop
  | .state s => ∃ line ∈ ls, LineShape.ofLine line = .state s
  | .function f => ∃ p : PendingFunction, p.IsEnded ∧ p.lines ⊆ ls ∧ f = p.finish

/-- A statement stood on more lines. -/
theorem Statement.StandsOn.mono {st : Statement} {ls ls' : List Text} (h : st.StandsOn ls)
    (hs : ls ⊆ ls') : st.StandsOn ls' := by
  cases st with
  | state s =>
    obtain ⟨line, hl, hh⟩ := h
    exact ⟨line, hs hl, hh⟩
  | function f =>
    obtain ⟨p, hp, hl, hf⟩ := h
    exact ⟨p, hp, List.Subset.trans hl hs, hf⟩

namespace Reads

variable {ls : List Text} {ss : List Statement} {last : ScanState}

/-- Every statement that is read stood on the lines. -/
theorem standsOn (h : Reads ls ss last) : ∀ st ∈ ss, st.StandsOn ls := by
  induction h with
  | done => simp
  | pending => simp
  | dropped _ _ ih => exact fun st hst => (ih st hst).mono (List.subset_cons_self _ _)
  | state hh _ ih =>
    rw [List.forall_mem_cons]
    exact ⟨⟨_, List.mem_cons_self, hh⟩, fun st hst => (ih st hst).mono (List.subset_cons_self _ _)⟩
  | arrow hh ha _ ih =>
    rw [List.forall_mem_cons]
    refine ⟨⟨_, PendingFunction.isEnded_start hh ha, ?_, rfl⟩,
      fun st hst => (ih st hst).mono (List.subset_cons_self _ _)⟩
    exact List.cons_subset_cons _ (List.nil_subset _)
  | @closed p line ls _ _ ho hl hd _ ih =>
    rw [List.forall_mem_cons, List.append_cons]
    exact ⟨⟨_, ho.isEnded_addLine hl hd, List.subset_append_left _ _, rfl⟩,
      fun st hst => (ih st hst).mono (List.subset_append_right _ _)⟩
  | replaced _ _ _ ih => exact fun st hst => (ih st hst).mono (List.subset_append_right _ _)

/-- A function that is being collected at the end is open, and its lines are the last ones. -/
theorem isOpen {p : PendingFunction} (h : Reads ls ss (.collecting p)) :
    p.IsOpen ∧ p.lines <:+ ls := by
  generalize hs : ScanState.collecting p = last at h
  induction h with
  | done => simp at hs
  | pending h =>
    obtain rfl := ScanState.collecting.inj hs
    exact ⟨h, List.suffix_refl _⟩
  | dropped _ _ ih => exact (ih hs).imp_right fun h => h.trans (List.suffix_cons _ _)
  | state _ _ ih => exact (ih hs).imp_right fun h => h.trans (List.suffix_cons _ _)
  | arrow _ _ _ ih => exact (ih hs).imp_right fun h => h.trans (List.suffix_cons _ _)
  | closed _ _ _ _ ih =>
    exact (ih hs).imp_right fun h =>
      (h.trans (List.suffix_cons _ _)).trans (List.suffix_append _ _)
  | replaced _ _ _ ih => exact (ih hs).imp_right fun h => h.trans (List.suffix_append _ _)

end Reads

/-! ## The relation is the reader -/

/-- Reading lines in two goes. -/
theorem ScanState.scan_append (state : ScanState) (front back : List Text) :
    state.scan (front ++ back) =
      ((state.scan front).1 ++ ((state.scan front).2.scan back).1,
        ((state.scan front).2.scan back).2) := by
  induction front generalizing state with
  | nil => rfl
  | cons line front ih =>
    rw [List.cons_append, scan_cons, ih, scan_cons, List.append_assoc]

/-- The statements of lines are those read from the first ones, then what the others add. -/
theorem statementsOf_append (front back : List Text) :
    statementsOf (front ++ back) = (ScanState.idle.scan front).1 ++
      (((ScanState.idle.scan front).2.scan back).1 ++
        ((ScanState.idle.scan front).2.scan back).2.flush) := by
  rw [statementsOf, ScanState.scan_append, ← List.append_assoc]

/-- What is read from a line on that opens a function does not depend on what was read before. -/
theorem ScanState.scan_of_opens {line : Text} (h : Opens line) (state : ScanState)
    (ls : List Text) : state.scan (line :: ls) = idle.scan (line :: ls) := by
  obtain ⟨head, hh⟩ := h
  rw [scan_cons, scan_cons, step_of_opens hh, step_of_opens hh]

/-- The lines of an open function are all collected, whatever was read before. -/
theorem PendingFunction.IsOpen.scan_lines {p : PendingFunction} (h : p.IsOpen)
    (state : ScanState) : state.scan p.lines = ([], .collecting p) := by
  obtain ⟨head, first, later, rfl⟩ := h.exists_ofLines
  induction later using List.reverseRecOn with
  | nil =>
    have hh : LineShape.ofLine first = .opens head := h.begun.1
    have ha : isWholeArrow first ≠ true := fun hw => h.not_arrow (isWholeArrow_iff.1 hw)
    have hs : state.scan [first] = ([], .collecting (start head first)) := by
      rw [ScanState.scan_cons, ScanState.step_of_opens hh, ite_cond_eq_false _ _ (eq_false ha)]
      rfl
    rw [ofLines_nil]
    exact hs
  | append_singleton later line ih =>
    have ho := h.of_concat
    have hd : ((ofLines head first later).addLine line).depth ≠ 0 := by
      rw [ho.depth_addLine]
      exact h.staysOpen.excess_ne (List.cons_ne_nil first later)
    have hl : ¬ Opens line :=
      h.begun.2 line (List.mem_append_right _ (List.mem_singleton_self line))
    rw [← addLine_ofLines, lines_addLine, ScanState.scan_append, ih ho, ScanState.scan_cons,
      ScanState.step_collecting hl, ite_cond_eq_false _ _ (eq_false hd)]
    rfl

/-- A line that leaves the braces even ends a function, whatever was read before it began. -/
theorem PendingFunction.IsOpen.scan_closed {p : PendingFunction} (h : p.IsOpen) {line : Text}
    (hl : ¬ Opens line) (hd : (p.addLine line).depth = 0) (state : ScanState) (ls : List Text) :
    state.scan (p.lines ++ line :: ls) =
      (.function (p.addLine line).finish :: (ScanState.idle.scan ls).1,
        (ScanState.idle.scan ls).2) := by
  rw [ScanState.scan_append, h.scan_lines, ScanState.scan_cons, ScanState.step_collecting hl,
    ite_cond_eq_true _ _ (eq_true hd)]
  rfl

/-- A function that gives way to the next one leaves nothing behind. -/
theorem PendingFunction.IsOpen.scan_replaced {p : PendingFunction} (h : p.IsOpen) {line : Text}
    (hl : Opens line) (state : ScanState) (ls : List Text) :
    state.scan (p.lines ++ line :: ls) = ScanState.idle.scan (line :: ls) := by
  rw [ScanState.scan_append, h.scan_lines, ScanState.scan_of_opens hl]
  rfl

/-- Lines have one reading, and it is the reader's. -/
theorem Reads.scan_eq {ls : List Text} {ss : List Statement} {last : ScanState}
    (h : Reads ls ss last) : ScanState.idle.scan ls = (ss, last) := by
  induction h with
  | done => rfl
  | pending h => exact h.scan_lines .idle
  | @dropped line _ _ _ hh _ ih =>
    have hl := not_opens_of_other hh
    rw [ScanState.scan_cons, ScanState.step_idle hl, hh, ih]
    rfl
  | @state line _ _ _ _ hh _ ih =>
    have hl := not_opens_of_state hh
    rw [ScanState.scan_cons, ScanState.step_idle hl, hh, ih]
    rfl
  | arrow hh ha _ ih =>
    rw [ScanState.scan_cons, ScanState.step_of_opens hh,
      ite_cond_eq_true _ _ (eq_true (isWholeArrow_iff.2 ha)), ih]
    rfl
  | closed h hl hd _ ih => rw [h.scan_closed hl hd, ih]
  | replaced h hl _ ih => rw [h.scan_replaced hl, ih]

/-! ## Scripts -/

/-- The lines that the analysis of a script is made from. -/
def analysedLines (script : Text) : List Text := scriptLines (stripDiagnostics script)

/-- The statements that are complete before the end of a script. -/
def readStatements (script : Text) : List Statement :=
  (ScanState.idle.scan (analysedLines script)).1

/-- The state in which the reader is at the end of a script. -/
def finalState (script : Text) : ScanState := (ScanState.idle.scan (analysedLines script)).2

/-- The lines of a script are read as its statements. -/
theorem reads_script (script : Text) :
    Reads (analysedLines script) (readStatements script) (finalState script) :=
  reads_scan (analysedLines script) .idle trivial

/-- The functions of a script are those read, and the one that the end completes. -/
theorem functions_classify (script : Text) :
    (classify script).functions = (Analysis.ofStatements (readStatements script)).functions ++
      (Analysis.ofStatements (finalState script).flush).functions :=
  List.filterMap_append

/-- The variables of a script are those read. -/
theorem state_classify (script : Text) :
    (classify script).state = (Analysis.ofStatements (readStatements script)).state := by
  have hs : (classify script).state = (Analysis.ofStatements (readStatements script)).state ++
      (Analysis.ofStatements (finalState script).flush).state := List.filterMap_append
  rw [hs]
  cases finalState script with
  | idle => exact List.append_nil _
  | collecting p => exact List.append_nil _

/-- The functions among some statements. -/
theorem mem_functions_ofStatements {ss : List Statement} {f : FunctionStatement} :
    f ∈ (Analysis.ofStatements ss).functions ↔ .function f ∈ ss := by
  simp only [Analysis.ofStatements, List.mem_filterMap]
  constructor
  · rintro ⟨s, hs, he⟩
    cases s with
    | state s => simp at he
    | function g => rwa [← Option.some.inj he]
  · exact fun h => ⟨_, h, rfl⟩

/-- The variables among some statements. -/
theorem mem_state_ofStatements {ss : List Statement} {s : StateStatement} :
    s ∈ (Analysis.ofStatements ss).state ↔ .state s ∈ ss := by
  simp only [Analysis.ofStatements, List.mem_filterMap]
  constructor
  · rintro ⟨t, ht, he⟩
    cases t with
    | state t => rwa [← Option.some.inj he]
    | function g => simp at he
  · exact fun h => ⟨_, h, rfl⟩

/-- Every statement is a function or a variable. -/
theorem length_ofStatements (ss : List Statement) :
    ss.length =
      (Analysis.ofStatements ss).functions.length + (Analysis.ofStatements ss).state.length := by
  induction ss with
  | nil => rfl
  | cons s ss ih =>
    cases s with
    | state s =>
      rw [List.length_cons, ih]
      rfl
    | function f =>
      rw [List.length_cons, ih, Nat.add_right_comm]
      rfl

/-- A line that is read is a trimmed line of the script without its diagnostic calls, neither empty
nor a comment. -/
theorem mem_analysedLines_iff {script line : Text} :
    line ∈ analysedLines script ↔ (∃ raw ∈ lines (stripDiagnostics script), trim raw = line) ∧
      (!line.isEmpty && !"//".toList.isPrefixOf line) = true := by
  rw [analysedLines, scriptLines_eq, readLines, trimmedLines, List.mem_filter, List.mem_map]

/-- A line that is read is trimmed and not empty, and it has no line feed. -/
theorem of_mem_analysedLines {script line : Text} (h : line ∈ analysedLines script) :
    line ≠ [] ∧ '\n' ∉ line ∧ ∃ raw, line = trim raw := by
  obtain ⟨⟨raw, hr, rfl⟩, ht⟩ := mem_analysedLines_iff.1 h
  refine ⟨?_, fun hm => feed_notMem_of_mem_lines hr ((isInfix_trim raw).subset hm), raw, rfl⟩
  rintro he
  simp [he] at ht

/-- A line that is read is a stretch of the script without its diagnostic calls. -/
theorem isInfix_of_mem_analysedLines {script line : Text} (h : line ∈ analysedLines script) :
    line <:+: stripDiagnostics script := by
  obtain ⟨⟨raw, hr, rfl⟩, -⟩ := mem_analysedLines_iff.1 h
  exact (isInfix_trim raw).trans (isInfix_of_mem_lines hr)

/-- The lines of a function's source are those it was collected from. -/
theorem lines_source {script : Text} {p : PendingFunction}
    (h : ∀ line ∈ p.lines, line ∈ analysedLines script) : lines p.finish.source = p.lines :=
  lines_unlines_of_notMem p.lines_ne_nil fun line hl => (of_mem_analysedLines (h line hl)).2.1

/-- Every function of a script has ended, or the end of the script completes it, after all the
others. -/
theorem functions_classify_cases {script : Text} {before after : List FunctionStatement}
    {f : FunctionStatement} (h : (classify script).functions = before ++ f :: after) :
    ∃ p : PendingFunction, f = p.finish ∧ (∀ line ∈ p.lines, line ∈ analysedLines script) ∧
      (p.IsEnded ∨ p.IsOpen ∧ after = [] ∧ finalState script = .collecting p) := by
  have hr := reads_script script
  have hended (hf : f ∈ (Analysis.ofStatements (readStatements script)).functions) :
      ∃ p : PendingFunction, f = p.finish ∧ (∀ line ∈ p.lines, line ∈ analysedLines script) ∧
        (p.IsEnded ∨ p.IsOpen ∧ after = [] ∧ finalState script = .collecting p) := by
    obtain ⟨p, hp, hm, he⟩ := hr.standsOn _ (mem_functions_ofStatements.1 hf)
    exact ⟨p, he, hm, .inl hp⟩
  rw [functions_classify] at h
  cases hl : finalState script with
  | idle =>
    rw [hl] at h
    refine hl ▸ hended ?_
    rw [← List.append_nil (Analysis.functions _)]
    exact h ▸ List.mem_append_right _ List.mem_cons_self
  | collecting p =>
    rw [hl] at h hr
    have hflush : (Analysis.ofStatements (ScanState.collecting p).flush).functions = [p.finish] :=
      rfl
    rw [hflush] at h
    rcases List.eq_nil_or_concat after with rfl | ⟨after', g, rfl⟩
    · obtain ⟨-, he⟩ := List.append_inj' h rfl
      obtain ⟨ho, hs⟩ := hr.isOpen
      exact ⟨p, (List.cons.inj he).1.symm, fun line hm => hs.subset hm, .inr ⟨ho, rfl, rfl⟩⟩
    · rw [List.concat_eq_append, ← List.cons_append, ← List.append_assoc] at h
      obtain ⟨he, -⟩ := List.append_inj' h rfl
      refine hl ▸ hended ?_
      exact he ▸ List.mem_append_right _ List.mem_cons_self

/-- The end of a function is settled by the braces of its lines. A function that opens with a
one-line arrow is that line. Any other one either has a last line that is not the first and leaves
the braces even, which none in between does, or it is the last function of the script, is
completed by its end, and no line after the first leaves the braces even. Whatever lines are read,
the count kept for a function that is being collected is the brace excess of its text. -/
theorem function_ends_by_braces (script : Text) :
    (∀ before f after, (classify script).functions = before ++ f :: after →
      ∃ first later, lines f.source = first :: later ∧
        (IsOneLineArrow first → later = []) ∧
        (¬ IsOneLineArrow first → ClosesAtEnd (first :: later) ∨
          after = [] ∧ (finalState script).flush = [.function f] ∧ StaysOpen (first :: later))) ∧
    ∀ ls p, (ScanState.idle.scan ls).2 = .collecting p →
      p.depth = braceExcess (unlines p.lines) := by
  refine ⟨fun before f after h => ?_, fun ls p hp => ?_⟩
  · obtain ⟨p, rfl, hm, hp | ⟨ho, ha, hl⟩⟩ := functions_classify_cases h
    · refine ⟨p.firstLine, p.later, lines_source hm, fun harrow => ?_, fun harrow => ?_⟩
      · exact (hp.ends.resolve_right fun hc => hc.1 harrow).2
      · exact .inl (hp.ends.resolve_left fun hw => harrow hw.1).2
    · refine ⟨p.firstLine, p.later, lines_source hm, fun harrow => absurd harrow ho.not_arrow,
        fun _ => .inr ⟨ha, ?_, ho.staysOpen⟩⟩
      rw [hl]
      rfl
  · have hr := reads_scan ls .idle trivial
    rw [hp] at hr
    exact hr.isOpen.1.depth_eq

/-- A function that a line closes, and one that the end of the script completes. -/
def twoEndsScript : Text := "function f() \x7b\na()\n\x7d\nfunction g() \x7b\x7d"

/-- The first function closes, and the end of the script completes the second. -/
theorem twoEndsScript_ends :
    ∃ f g, (classify twoEndsScript).functions = [f, g] ∧ ClosesAtEnd (lines f.source) ∧
      (finalState twoEndsScript).flush = [.function g] := by
  have hsources : (classify twoEndsScript).functions.map FunctionStatement.source =
      ["function f() \x7b\na()\n\x7d".toList, "function g() \x7b\x7d".toList] := by
    decide +kernel
  obtain ⟨f, rest, h, hf, hrest⟩ := List.map_eq_cons_iff.1 hsources
  obtain ⟨g, rest, rfl, hg, hnil⟩ := List.map_eq_cons_iff.1 hrest
  obtain rfl := List.map_eq_nil_iff.1 hnil
  have hlines : lines f.source = ["function f() \x7b".toList, "a()".toList, "\x7d".toList] := by
    rw [hf]
    decide +kernel
  have hlines' : lines g.source = ["function g() \x7b\x7d".toList] := by
    rw [hg]
    decide +kernel
  obtain ⟨hends, -⟩ := function_ends_by_braces twoEndsScript
  refine ⟨f, g, h, ?_, ?_⟩
  · obtain ⟨first, later, hl, -, hclosed⟩ := hends [] f [g] h
    rw [hl]
    refine (hclosed ?_).resolve_right fun hlast => List.cons_ne_nil _ _ hlast.1
    rw [hlines, List.cons.injEq] at hl
    rw [← hl.1]
    decide +kernel
  · obtain ⟨first, later, hl, -, hflushed⟩ := hends [f] g [] h
    rw [hlines', List.cons.injEq] at hl
    obtain ⟨rfl, rfl⟩ := hl
    refine ((hflushed (by decide +kernel)).resolve_left fun hclosed => ?_).2.1
    exact absurd hclosed.two_le (by decide)

end VueSfc.Script
