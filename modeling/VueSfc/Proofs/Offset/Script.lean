import VueSfc.Offset.Script
import VueSfc.Proofs.Offset.Cursor
import VueSfc.Proofs.Offset.Markup
import VueSfc.Proofs.Script.Scan
import VueSfc.Proofs.Script.Diagnostic
import VueSfc.Proofs.Text.Lines

/-!
# Scripts analysed by the rules

The loop that cuts diagnostic calls out of a script keeps to the rules on every script, and so does
reading its lines and making functions of them if no line that is read has 2³² bytes or more.
-/

namespace VueSfc.Offset

open Text Script

/-! ## Diagnostic calls -/

/-- What stands at the front of both lists does not matter. -/
theorem after?_append {front list : Text} (back : Text) :
    after? (front ++ list) (front ++ back) = after? list back := by
  induction front with
  | nil => rfl
  | cons c front ih => rw [List.cons_append, List.cons_append, after?, if_pos rfl, ih]

/-- The search for the end of a call keeps to the rules, and finds the end of the call that is read
by characters. -/
theorem callEnd?_eq {script front behind : Text} {start : Nat}
    (hs : script = front ++ (consoleWord ++ behind))
    (ho : start = byteSize (front ++ consoleWord)) (name : Text) :
    callEnd? script start name = .ok ((readCall? name (consoleWord ++ behind)).map fun found =>
      byteSize (front ++ found.1)) := by
  have hbehind : sliceFrom script start = .ok behind :=
    sliceFrom_eq (hs.trans (List.append_assoc _ _ _).symm) ho
  rw [callEnd?, hbehind, ok_bind, readCall?, List.append_assoc, after?_append]
  cases ha : after? (name ++ ['(']) behind with
  | none => rfl
  | some arguments =>
    have hsplit := after?_eq_some_iff.1 ha
    have hscript : script = front ++ (consoleWord ++ (name ++ ['('])) ++ arguments := by
      rw [hs, hsplit]
      simp only [List.append_assoc]
    have hsize : byteSize script =
        byteSize (front ++ (consoleWord ++ (name ++ ['(']))) + byteSize arguments := by
      rw [hscript, byteSize_append _ arguments]
    rw [Option.bind_some]
    dsimp only
    rw [minus_eq_ok (by omega), ok_bind]
    rcases exists_first (· == ')') arguments with hnone | ⟨inside, c, rest, rfl, hinside, hc⟩
    · have hclose : ')' ∉ arguments := fun hm => absurd (hnone _ hm) (by decide)
      rw [seekChar_eq_none hnone, cutAfter?_eq_none_iff.2 hclose]
      rfl
    · obtain rfl := beq_iff_eq.1 hc
      have hclose : ')' ∉ inside := fun hm => absurd (hinside _ hm) (by decide)
      have hstop : byteSize script - byteSize (inside ++ ')' :: rest) + byteSize inside + 1 =
          byteSize (front ++ (consoleWord ++ (name ++ ['('])) ++ (inside ++ [')'])) := by
        have hinner : byteSize (inside ++ [')']) = byteSize inside + 1 := byteSize_append _ _
        rw [byteSize_append _ (inside ++ [')']), hinner, hsize, Nat.add_sub_cancel, Nat.add_assoc]
      have htail : script =
          (front ++ (consoleWord ++ (name ++ ['('])) ++ (inside ++ [')'])) ++ rest := by
        rw [hscript]
        simp only [List.append_assoc, List.cons_append, List.nil_append]
      rw [seekChar_eq_some hinside hc, cutAfter?_append hclose]
      dsimp only
      rw [hstop, sliceFrom_eq htail rfl, ok_bind, Option.map_some, Option.map_some]
      rcases takeSemicolon_cases rest with ⟨r, rfl, htake⟩ | ⟨hsemi, htake⟩
      · rw [if_pos List.head?_cons, htake]
        simp only [← List.append_assoc, byteSize_append]
        rfl
      · rw [if_neg hsemi, htake]
        simp only [List.append_nil, ← List.append_assoc]
        rfl

/-- The search for a call with one of the names keeps to the rules. -/
theorem findSomeM?_callEnd? {script front behind : Text} {start : Nat}
    (hs : script = front ++ (consoleWord ++ behind))
    (ho : start = byteSize (front ++ consoleWord)) :
    diagnosticNames.findSomeM? (callEnd? script start) =
      .ok ((readDiagnostic? (consoleWord ++ behind)).map fun found =>
        byteSize (front ++ found.1)) := by
  rw [readDiagnostic?]
  generalize diagnosticNames = names
  induction names with
  | nil => rfl
  | cons name names ih =>
    rw [List.findSomeM?, callEnd?_eq hs ho, ok_bind, List.findSome?]
    cases readCall? name (consoleWord ++ behind) with
    | none => exact ih
    | some found => rfl

/-- Taking out calls from a boundary on keeps to the rules and ends within as many rounds as there
are characters left. What lies between the two places is kept. -/
theorem stripCallsLoop_eq {script front kept rest : Text} {rounds : Nat}
    (ht : script = front ++ (kept ++ rest)) (hr : rest.length < rounds) :
    stripCallsLoop script rounds (byteSize front) (byteSize (front ++ kept)) =
      .ok (kept ++ stripDiagnostics rest) := by
  induction rounds generalizing front kept rest with
  | zero => exact absurd hr (Nat.not_lt_zero _)
  | succ rounds ih =>
    rw [stripCallsLoop, sliceFrom_eq (ht.trans (List.append_assoc _ _ _).symm) rfl, ok_bind, seek]
    cases hcut : cutBefore? consoleWord.isPrefixOf rest with
    | none =>
      rw [stripDiagnostics_of_cutBefore?_eq_none hcut]
      exact sliceFrom_eq ht rfl
    | some parts =>
      obtain ⟨before, tail⟩ := parts
      obtain ⟨behind, rfl⟩ := List.isPrefixOf_iff_prefix.1 (test_of_cutBefore? hcut)
      obtain rfl := append_of_cutBefore? hcut
      have hbefore : stripDiagnostics (before ++ (consoleWord ++ behind)) =
          before ++ stripDiagnostics (consoleWord ++ behind) :=
        stripDiagnostics_of_cutBefore? hcut
      have hcall : script = (front ++ kept ++ before) ++ (consoleWord ++ behind) := by
        rw [ht]
        simp only [List.append_assoc]
      have hname : byteSize (front ++ kept) + byteSize before + byteSize consoleWord =
          byteSize (front ++ kept ++ before ++ consoleWord) := by
        rw [byteSize_append _ consoleWord, byteSize_append _ before]
      rw [Option.map_some, hbefore]
      dsimp only
      rw [findSomeM?_callEnd? hcall hname, ok_bind]
      have hlength : consoleWord.length = 8 := rfl
      rw [List.length_append, List.length_append] at hr
      cases hread : readDiagnostic? (consoleWord ++ behind) with
      | none =>
        have hkept : script = front ++ ((kept ++ before ++ consoleWord) ++ behind) := by
          rw [ht]
          simp only [List.append_assoc]
        have hsearch : byteSize (front ++ kept) + byteSize before + byteSize consoleWord =
            byteSize (front ++ (kept ++ before ++ consoleWord)) := by
          rw [hname]
          simp only [List.append_assoc]
        rw [Option.map_none]
        dsimp only
        rw [hsearch, ih hkept (by omega), stripDiagnostics_consoleWord hread]
        simp only [List.append_assoc]
      | some found =>
        obtain ⟨call, back⟩ := found
        have hshorter := diagnosticCutter.shorter hread
        have hback : script = (front ++ kept ++ before ++ call) ++ ([] ++ back) := by
          rw [hcall, append_of_readDiagnostic? hread]
          simp only [List.append_assoc, List.nil_append]
        have hkept : slice script (byteSize front) (byteSize (front ++ kept) + byteSize before) =
            .ok (kept ++ before) := by
          refine slice_eq_ok_iff.2 ⟨front, consoleWord ++ behind, ?_, rfl, ?_⟩
          · rw [ht]
            simp only [List.append_assoc]
          · rw [byteSize_append, byteSize_append, Nat.add_assoc]
        rw [List.length_append] at hshorter
        have hleft := ih hback (by omega)
        rw [List.append_nil] at hleft
        rw [Option.map_some]
        dsimp only
        rw [hkept, ok_bind, hleft, ok_bind, stripDiagnostics_of_readDiagnostic? hread,
          List.nil_append, List.append_assoc]
        rfl

/-- Taking out diagnostic calls keeps to the rules. -/
theorem stripCalls_eq (script : Text) : stripCalls script = .ok (stripDiagnostics script) := by
  have hrounds : script.length < byteSize script + 1 :=
    Nat.lt_succ_of_le (length_le_byteSize script)
  have h : script = [] ++ ([] ++ script) := rfl
  exact stripCallsLoop_eq h hrounds

/-! ## Reading lines -/

/-- Finishing a function keeps to the rules. -/
theorem finish_eq (p : PendingFunction) : finish p = .ok p.finish := by
  have hsource : unlines p.lines = p.firstLine ++ p.later.flatMap ('\n' :: ·) :=
    unlines_cons p.firstLine p.later
  rw [finish, sliceFrom_eq hsource rfl]
  rfl

/-- Reading a line of fewer than 2³² bytes keeps to the rules in every state. -/
theorem step_eq {line : Text} (hs : byteSize line < UInt32.size) (state : ScanState) :
    step state line = .ok (state.step line) := by
  unfold step ScanState.step
  rw [recognize_eq hs, ok_bind]
  cases LineShape.ofLine line with
  | opens head =>
    dsimp only
    split
    · rw [finish_eq]
      rfl
    · rfl
  | state s =>
    cases state with
    | idle => rfl
    | collecting p =>
      dsimp only
      split
      · rw [finish_eq]
        rfl
      · rfl
  | other =>
    cases state with
    | idle => rfl
    | collecting p =>
      dsimp only
      split
      · rw [finish_eq]
        rfl
      · rfl

/-- Reading lines keeps to the rules from every state on. -/
theorem scan_eq {ls : List Text} (hs : ∀ line ∈ ls, byteSize line < UInt32.size)
    (state : ScanState) : scan state ls = .ok (state.scan ls) := by
  induction ls generalizing state with
  | nil => rfl
  | cons line ls ih =>
    rw [List.forall_mem_cons] at hs
    rw [scan, step_eq hs.1, ok_bind, ih hs.2]
    rfl

/-- Ending a script keeps to the rules. -/
theorem flush_eq (state : ScanState) : flush state = .ok state.flush := by
  cases state with
  | idle => rfl
  | collecting p =>
    rw [flush, finish_eq]
    rfl

/-- The lines that are read fit in 32 bits. -/
def HasShortLines (script : Text) : Prop :=
  ∀ line ∈ analysedLines script, byteSize line < UInt32.size

instance (script : Text) : Decidable (HasShortLines script) :=
  decidable_of_iff ((analysedLines script).all (fun line => byteSize line < UInt32.size) = true) (by
    simp only [HasShortLines, List.all_eq_true, decide_eq_true_eq])

/-- Classifying a script keeps to the rules if the lines that are read are short. -/
theorem classifyScript_eq {script : Text} (hs : HasShortLines script) :
    classifyScript script = .ok (classify script) := by
  have hscan : scan .idle (scriptLines (stripDiagnostics script)) =
      .ok (ScanState.idle.scan (scriptLines (stripDiagnostics script))) :=
    scan_eq hs .idle
  rw [classifyScript, stripCalls_eq, ok_bind, hscan, ok_bind, flush_eq]
  rfl

/-- Classifying several scripts keeps to the rules if the lines that are read are short. -/
theorem classifyScripts_eq {scripts : List Text} (hs : ∀ script ∈ scripts, HasShortLines script) :
    classifyScripts scripts = .ok (classifyAll scripts) := by
  rw [classifyScripts, classifyAll]
  generalize Analysis.empty = start
  induction scripts generalizing start with
  | nil => rfl
  | cons script scripts ih =>
    rw [List.forall_mem_cons] at hs
    rw [List.foldlM_cons, classifyScript_eq hs.1, ok_bind, pure_eq_ok, ok_bind, ih hs.2]
    rfl

end VueSfc.Offset
