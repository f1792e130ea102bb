import VueSfc.Proofs.Text.Occurrence
import VueSfc.Proofs.Text.Placed
import VueSfc.Script.Diagnostic

/-!
# Scripts without diagnostic calls

Every diagnostic call begins with the same word, so a script in which that word does not occur is
kept as it is. Taking the calls out of any script adds nothing to it and moves nothing.
-/

namespace VueSfc.Script

open Text

/-- A semicolon is taken where there is one. -/
theorem takeSemicolon_cases (text : Text) :
    (∃ rest, text = ';' :: rest ∧ takeSemicolon text = ([';'], rest)) ∨
      text.head? ≠ some ';' ∧ takeSemicolon text = ([], text) := by
  unfold takeSemicolon
  split
  · exact .inl ⟨_, rfl, rfl⟩
  · rename_i hn
    refine .inr ⟨fun h => ?_, rfl⟩
    obtain ⟨rest, rfl⟩ := List.head?_eq_some_iff.1 h
    exact hn rest rfl

/-- A diagnostic call begins with its first word. -/
theorem isPrefix_of_readDiagnostic? {text call rest : Text}
    (h : readDiagnostic? text = some (call, rest)) : consoleWord <+: text := by
  obtain ⟨name, -, h⟩ := List.exists_of_findSome?_eq_some h
  obtain ⟨arguments, ha, -⟩ := Option.bind_eq_some_iff.1 h
  rw [after?_eq_some_iff.1 ha, List.append_assoc, List.append_assoc]
  exact List.prefix_append _ _

/-- A script without the first word of diagnostic calls is kept. -/
theorem stripDiagnostics_eq_self {script : Text} (h : ¬ consoleWord <:+: script) :
    stripDiagnostics script = script := by
  have hnone (s : Text) (hs : s <:+ script) (_ : s ≠ []) : diagnosticCutter.read? s = none := by
    refine Option.eq_none_iff_forall_ne_some.2 fun ⟨call, rest⟩ hr => h ?_
    exact (isPrefix_of_readDiagnostic? hr).isInfix.trans hs.isInfix
  rw [stripDiagnostics, Cutter.remove, Cutter.cut_eq_self hnone]

/-- A front in which no diagnostic call begins is kept. -/
theorem stripDiagnostics_append {front back : Text}
    (h : ∀ s, s <:+ front → s ≠ [] → readDiagnostic? (s ++ back) = none) :
    stripDiagnostics (front ++ back) = front ++ stripDiagnostics back := by
  rw [stripDiagnostics, Cutter.remove, Cutter.cut_append diagnosticCutter back h]
  rfl

/-- No call begins inside of the first word of calls, so the word is kept where it begins none. -/
theorem stripDiagnostics_consoleWord {behind : Text}
    (h : readDiagnostic? (consoleWord ++ behind) = none) :
    stripDiagnostics (consoleWord ++ behind) = consoleWord ++ stripDiagnostics behind := by
  refine stripDiagnostics_append fun s hs hn => ?_
  obtain ⟨c, r, rfl⟩ := List.exists_cons_of_ne_nil hn
  rcases List.suffix_cons_iff.1 hs with he | hs
  · rw [he]
    exact h
  · cases hr : readDiagnostic? (c :: r ++ behind) with
    | none => rfl
    | some found =>
      -- A call begins with `c`, which the rest of the word does not have.
      obtain ⟨rest, he⟩ := isPrefix_of_readDiagnostic? hr
      have hc : 'c' = c := (List.cons.inj he).1
      have hm : 'c' ∈ "onsole.".toList := hc ▸ hs.subset List.mem_cons_self
      exact absurd hm (by decide)

/-- A diagnostic call and what follows it make up the text that was read. -/
theorem append_of_readDiagnostic? {text call rest : Text}
    (h : readDiagnostic? text = some (call, rest)) : text = call ++ rest := by
  obtain ⟨name, -, h⟩ := List.exists_of_findSome?_eq_some h
  exact append_of_readCall? h

/-- A diagnostic call at the front is taken out. -/
theorem stripDiagnostics_of_readDiagnostic? {text call rest : Text}
    (h : readDiagnostic? text = some (call, rest)) :
    stripDiagnostics text = stripDiagnostics rest := by
  rw [stripDiagnostics, Cutter.remove, Cutter.cut_of_read? h]
  rfl

/-- What stands before the first word of diagnostic calls is kept. -/
theorem stripDiagnostics_of_cutBefore? {text before rest : Text}
    (h : cutBefore? consoleWord.isPrefixOf text = some (before, rest)) :
    stripDiagnostics text = before ++ stripDiagnostics rest := by
  rw [append_of_cutBefore? h]
  refine stripDiagnostics_append fun s hs hn => ?_
  cases hr : readDiagnostic? (s ++ rest) with
  | none => rfl
  | some found =>
    have ht := not_test_of_cutBefore? h hs hn
    rw [List.isPrefixOf_iff_prefix.2 (isPrefix_of_readDiagnostic? hr)] at ht
    contradiction

/-- A script is kept if a search does not find the first word of diagnostic calls. -/
theorem stripDiagnostics_of_cutBefore?_eq_none {text : Text}
    (h : cutBefore? consoleWord.isPrefixOf text = none) : stripDiagnostics text = text := by
  apply stripDiagnostics_eq_self
  rintro ⟨before, behind, he⟩
  have hn := cutBefore?_eq_none_iff.1 h (consoleWord ++ behind)
    ⟨before, by rw [← List.append_assoc, he]⟩
  rw [List.isPrefixOf_iff_prefix.2 (List.prefix_append _ _)] at hn
  contradiction

/-- Taking diagnostic calls out splits the script. -/
theorem splits_diagnosticCutter : diagnosticCutter.Splits := by
  intro text call rest h
  rw [append_of_readDiagnostic? h]
  exact List.suffix_append _ _

end VueSfc.Script
