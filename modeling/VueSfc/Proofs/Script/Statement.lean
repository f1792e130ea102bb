import VueSfc.Proofs.Script.Scan
import VueSfc.Proofs.Script.Written

/-!
# What statements are made of

The parts of a statement put together again are its source. A function is the written head, with
name and parameters in their places, followed by the body, which has all later lines. A variable is
the declaring word, the name and the equals sign, followed by the text that its value is taken from.
-/

namespace VueSfc.Script

open Text

/-- The later lines of a function begin with a line feed, if there are any. -/
theorem not_isWordChar_of_head?_flatMap (later : List Text) :
    ∀ c ∈ (later.flatMap ('\n' :: ·)).head?, isWordChar c = false := by
  cases later with
  | nil => simp
  | cons line later =>
    intro c hc
    rw [List.flatMap_cons, List.cons_append, List.head?_cons, Option.mem_some_iff] at hc
    rw [← hc]
    rfl

/-- A function that began with its first line is a written head and the body behind it. -/
theorem PendingFunction.exists_head {p : PendingFunction}
    (h : LineShape.ofLine p.firstLine = .opens p.head) :
    ∃ head, IsHead p.finish.form p.finish.name p.finish.params head p.finish.body ∧
      p.finish.source = head ++ p.finish.body ∧ head <+: p.firstLine := by
  obtain ⟨head, hh, ht⟩ := isHead_of_opens h
  refine ⟨head, hh.append (not_isWordChar_of_head?_flatMap p.later), ?_, ⟨p.head.rest, ht.symm⟩⟩
  calc p.finish.source = p.firstLine ++ p.later.flatMap ('\n' :: ·) := unlines_cons _ _
    _ = head ++ p.finish.body := by rw [ht, List.append_assoc]; rfl

/-- Every function of a script began with its first line. -/
theorem mem_functions_classify {script : Text} {f : FunctionStatement}
    (h : f ∈ (classify script).functions) :
    ∃ p : PendingFunction, f = p.finish ∧ (ScanState.collecting p).IsBegun ∧
      ∀ line ∈ p.lines, line ∈ analysedLines script := by
  obtain ⟨before, after, hf⟩ := List.append_of_mem h
  obtain ⟨p, rfl, hm, hp | ⟨ho, -⟩⟩ := functions_classify_cases hf
  · exact ⟨p, rfl, hp.begun, hm⟩
  · exact ⟨p, rfl, ho.begun, hm⟩

/-- Every function of a script is a written head and the body behind it. -/
theorem exists_head_of_mem_functions {script : Text} {f : FunctionStatement}
    (h : f ∈ (classify script).functions) :
    ∃ head, IsHead f.form f.name f.params head f.body ∧ f.source = head ++ f.body := by
  obtain ⟨p, rfl, hb, -⟩ := mem_functions_classify h
  obtain ⟨head, hh, hsource, -⟩ := p.exists_head hb.1
  exact ⟨head, hh, hsource⟩

/-- Every variable of a script is declared on one of its lines. -/
theorem mem_state_classify {script : Text} {s : StateStatement}
    (h : s ∈ (classify script).state) :
    ∃ line ∈ analysedLines script, LineShape.ofLine line = .state s := by
  rw [state_classify, mem_state_ofStatements] at h
  exact (reads_script script).standsOn _ h

/-- The analysis of several scripts has the statements of each one, in their order. -/
theorem classifyAll_eq (scripts : List Text) :
    classifyAll scripts =
      ⟨scripts.flatMap fun script => (classify script).state,
        scripts.flatMap fun script => (classify script).functions⟩ := by
  have hfold (a : Analysis) : scripts.foldl (fun a script => a ++ classify script) a =
      ⟨a.state ++ scripts.flatMap fun script => (classify script).state,
        a.functions ++ scripts.flatMap fun script => (classify script).functions⟩ := by
    induction scripts generalizing a with
    | nil => simp
    | cons script scripts ih =>
      rw [List.foldl_cons, ih, Analysis.state_append, Analysis.functions_append,
        List.append_assoc, List.append_assoc]
      rfl
  exact hfold Analysis.empty

/-- Every statement of a script can be put together from its parts. The source of a function is
its head as written in its form, around the name and the parameters, and the body behind it, which
has every line after the first. The source of a variable is the declaring word, the name and the
equals sign with spaces between them, and a tail; there is no value just where the tail is blank,
and a value is the trimmed tail without one final semicolon. Every name is a whole word and no
keyword. -/
theorem statements_reassembled (script : Text) :
    (∀ f ∈ (classify script).functions, ∃ head, IsHead f.form f.name f.params head f.body ∧
      f.source = head ++ f.body ∧ (lines f.source).tail = (lines f.body).tail) ∧
    ∀ s ∈ (classify script).state, ∃ space gap tail, IsWritten s space gap tail := by
  refine ⟨fun f hf => ?_, fun s hs => ?_⟩
  · obtain ⟨p, rfl, hb, hm⟩ := mem_functions_classify hf
    obtain ⟨head, hh, hsource, hp⟩ := p.exists_head hb.1
    have hfeed : '\n' ∉ head := fun hc =>
      (of_mem_analysedLines (hm p.firstLine List.mem_cons_self)).2.1 (hp.subset hc)
    obtain ⟨line, rest, hl, ha⟩ := lines_append_of_notMem hfeed p.finish.body
    exact ⟨head, hh, hsource, by rw [hsource, ha, hl]; rfl⟩
  · obtain ⟨line, -, hl⟩ := mem_state_classify hs
    exact isWritten_of_state hl

/-- A function expression with a second name, and a variable. -/
def innerNameScript : Text := "const f = function g (a) \x7b\nreturn a\n\x7d\nlet b\t= 1;"

/-- Both are put together from their parts. -/
theorem innerNameScript_reassembled :
    (∃ f ∈ (classify innerNameScript).functions, f.form = .expression ∧ f.params ≠ [] ∧
      ∃ head, IsHead f.form f.name f.params head f.body ∧ f.source = head ++ f.body ∧
        (lines f.source).tail = (lines f.body).tail) ∧
    ∃ s ∈ (classify innerNameScript).state, ∃ space gap tail, IsWritten s space gap tail := by
  have hf : ∃ f ∈ (classify innerNameScript).functions, f.form = .expression ∧ f.params ≠ [] := by
    decide +kernel
  have hs : (classify innerNameScript).state ≠ [] := by decide +kernel
  obtain ⟨hfunctions, hstate⟩ := statements_reassembled innerNameScript
  obtain ⟨f, hm, hform, hparams⟩ := hf
  exact ⟨⟨f, hm, hform, hparams, hfunctions f hm⟩, _, List.head_mem hs, hstate _ (List.head_mem hs)⟩

end VueSfc.Script
