import VueSfc.Proofs.Offset.Script
import VueSfc.Proofs.Script.Diagnostic
import VueSfc.Proofs.Text.Cutting

/-!
# Diagnostic calls taken out one by one

Taking the diagnostic calls out of a script cuts it up in the one way in which no call begins in
front of the first one that is taken out, a semicolon directly behind a call goes with it, and the
same holds of what follows. As a call ends at its first closing parenthesis, it takes one closing
parenthesis with it and all opening ones up to there: the parentheses stay balanced just when there
is none among the arguments.
-/

namespace VueSfc.Script

open Text

/-! ## Calls -/

/-- The names that are called in a diagnostic call. -/
def callNames : List Text := ["log", "error", "warn", "info"]

/-- What a call of the given name begins with. -/
def callOpening (name : Text) : Text := "console." ++ name ++ ['(']

/-- A diagnostic call as it may be written in a script. -/
structure DiagnosticCall where
  /-- The name that is called. -/
  name : Text
  /-- What stands between the parentheses. -/
  arguments : Text
  /-- A semicolon goes with the call. -/
  isEnded : Bool
  /-- The name is a diagnostic one. -/
  name_mem : name ∈ callNames
  /-- The call ends at its first closing parenthesis. -/
  arguments_plain : ')' ∉ arguments

/-- A call as written. -/
def DiagnosticCall.text (call : DiagnosticCall) : Text :=
  callOpening call.name ++ call.arguments ++ [')'] ++ if call.isEnded then [';'] else []

/-- A diagnostic call stands at the front of the text. -/
def BeginsCall (text : Text) : Prop := ∃ call : DiagnosticCall, call.text <+: text

/-- Calls are taken out from left to right, each with the semicolon behind it. -/
def callRule : CutRule Text where
  write := id
  IsPart stretch written rest :=
    (∃ call : DiagnosticCall, call.text = written ∧
      (call.isEnded = true ∨ rest.head? ≠ some ';')) ∧
    ∀ s, s <:+ stretch → s ≠ [] → ¬ BeginsCall (s ++ (written ++ rest))
  IsLast stretch := ∀ call : DiagnosticCall, ¬ call.text <:+: stretch

/-! ## Reading calls -/

/-- A call is read behind what calls of its name begin with. -/
theorem readCall?_eq (name text : Text) :
    readCall? name text = (after? (callOpening name) text).bind fun arguments =>
      (cutAfter? ')' arguments).map fun found =>
        (callOpening name ++ found.1 ++ (takeSemicolon found.2).1, (takeSemicolon found.2).2) := rfl

/-- A diagnostic call is a call of one of the names. -/
theorem readDiagnostic?_eq (text : Text) :
    readDiagnostic? text = callNames.findSome? fun name => readCall? name text := rfl

/-- A call is read up to its first closing parenthesis, with a semicolon behind that. -/
theorem readCall?_append {name arguments : Text} (h : ')' ∉ arguments) (behind : Text) :
    readCall? name (callOpening name ++ arguments ++ ')' :: behind) =
      some (callOpening name ++ arguments ++ [')'] ++ (takeSemicolon behind).1,
        (takeSemicolon behind).2) := by
  have hopening : after? (callOpening name) (callOpening name ++ (arguments ++ ')' :: behind)) =
      some (arguments ++ ')' :: behind) :=
    after?_eq_some_iff.2 rfl
  rw [List.append_assoc, readCall?_eq, hopening, Option.bind_some, cutAfter?_append h,
    Option.map_some]
  simp only [List.append_assoc]

/-- Calls of a name are what is read at the front of a text. -/
theorem readCall?_eq_some_iff {name source written rest : Text} :
    readCall? name source = some (written, rest) ↔
      ∃ arguments behind, source = callOpening name ++ arguments ++ ')' :: behind ∧
        ')' ∉ arguments ∧ rest = (takeSemicolon behind).2 ∧
        written = callOpening name ++ arguments ++ [')'] ++ (takeSemicolon behind).1 := by
  constructor
  · intro h
    obtain ⟨inside, ha, hr⟩ := Option.bind_eq_some_iff.1 ((readCall?_eq name source).symm.trans h)
    obtain ⟨⟨front, behind⟩, hc, -⟩ := Option.map_eq_some_iff.1 hr
    obtain ⟨arguments, rfl, hplain⟩ := eq_of_cutAfter? hc
    have hsource : source = callOpening name ++ arguments ++ ')' :: behind := by
      rw [after?_eq_some_iff.1 ha, append_of_cutAfter? hc]
      simp only [List.append_assoc, List.cons_append, List.nil_append]
    rw [hsource, readCall?_append hplain, Option.some.injEq, Prod.mk.injEq] at h
    exact ⟨arguments, behind, hsource, hplain, h.2.symm, h.1.symm⟩
  · rintro ⟨arguments, behind, rfl, hplain, rfl, rfl⟩
    exact readCall?_append hplain behind

/-- Calls of two names do not begin in the same way. -/
theorem eq_of_callOpening_isPrefix {a b text : Text} (ha : a ∈ callNames) (hb : b ∈ callNames)
    (hat : callOpening a <+: text) (hbt : callOpening b <+: text) : a = b := by
  have hnames : (callNames.all fun a => callNames.all fun b =>
      !(callOpening a).isPrefixOf (callOpening b) || a == b) = true := by decide
  have heq {a b : Text} (ha : a ∈ callNames) (hb : b ∈ callNames)
      (h : callOpening a <+: callOpening b) : a = b := by
    have hab := List.all_eq_true.1 (List.all_eq_true.1 hnames a ha) b hb
    rw [List.isPrefixOf_iff_prefix.2 h] at hab
    exact beq_iff_eq.1 hab
  rcases List.prefix_or_prefix_of_prefix hat hbt with h | h
  · exact heq ha hb h
  · exact (heq hb ha h).symm

/-- Whichever call stands at the front is the one that is read. -/
theorem readDiagnostic?_of_readCall? {name source : Text} {found : Text × Text}
    (hn : name ∈ callNames) (h : readCall? name source = some found) :
    readDiagnostic? source = some found := by
  have hopening {name : Text} {found : Text × Text} (h : readCall? name source = some found) :
      callOpening name <+: source := by
    obtain ⟨arguments, behind, rfl, -⟩ := readCall?_eq_some_iff.1 h
    rw [List.append_assoc]
    exact List.prefix_append _ _
  cases hr : readDiagnostic? source with
  | none =>
    rw [readDiagnostic?_eq] at hr
    rw [List.findSome?_eq_none_iff.1 hr name hn] at h
    contradiction
  | some other =>
    rw [readDiagnostic?_eq] at hr
    obtain ⟨name', hn', h'⟩ := List.exists_of_findSome?_eq_some hr
    obtain rfl := eq_of_callOpening_isPrefix hn' hn (hopening h') (hopening h)
    exact h'.symm.trans h

/-- Diagnostic calls are what is read at the front of a text. The semicolon is left only where
there is none. -/
theorem readDiagnostic?_eq_some_iff {source written rest : Text} :
    readDiagnostic? source = some (written, rest) ↔ source = written ++ rest ∧
      ∃ call : DiagnosticCall, call.text = written ∧
        (call.isEnded = true ∨ rest.head? ≠ some ';') := by
  constructor
  · intro h
    refine ⟨append_of_readDiagnostic? h, ?_⟩
    rw [readDiagnostic?_eq] at h
    obtain ⟨name, hn, h⟩ := List.exists_of_findSome?_eq_some h
    obtain ⟨arguments, behind, rfl, hplain, rfl, rfl⟩ := readCall?_eq_some_iff.1 h
    rcases takeSemicolon_cases behind with ⟨r, rfl, ht⟩ | ⟨hne, ht⟩
    · refine ⟨⟨name, arguments, true, hn, hplain⟩, ?_, .inl rfl⟩
      rw [ht]
      rfl
    · refine ⟨⟨name, arguments, false, hn, hplain⟩, ?_, .inr ?_⟩
      · rw [ht]
        rfl
      · rwa [ht]
  · rintro ⟨rfl, ⟨name, arguments, isEnded, hn, hplain⟩, rfl, hend⟩
    apply readDiagnostic?_of_readCall? hn
    rw [readCall?_eq_some_iff]
    cases isEnded with
    | false =>
      have ht : takeSemicolon rest = ([], rest) := by
        rcases takeSemicolon_cases rest with ⟨r, rfl, -⟩ | ⟨-, ht⟩
        · exact absurd rfl (hend.resolve_left Bool.false_ne_true)
        · exact ht
      exact ⟨arguments, rest, by simp [DiagnosticCall.text], hplain, by rw [ht],
        by simp [DiagnosticCall.text, ht]⟩
    | true =>
      exact ⟨arguments, ';' :: rest, by simp [DiagnosticCall.text], hplain, rfl,
        by simp [DiagnosticCall.text, takeSemicolon]⟩

/-- A call is read where one begins, and nowhere else. -/
theorem readDiagnostic?_eq_none_iff {source : Text} :
    readDiagnostic? source = none ↔ ¬ BeginsCall source := by
  constructor
  · rintro hnone ⟨call, back, rfl⟩
    -- The call goes on with what stands behind its closing parenthesis, be it a semicolon or not.
    have hsource : call.text ++ back = callOpening call.name ++ call.arguments ++
        ')' :: ((if call.isEnded then [';'] else []) ++ back) := by
      simp only [DiagnosticCall.text, List.append_assoc, List.cons_append, List.nil_append]
    rw [hsource, readDiagnostic?_of_readCall? call.name_mem
      (readCall?_append call.arguments_plain _)] at hnone
    contradiction
  · intro hnot
    cases hr : readDiagnostic? source with
    | none => rfl
    | some found =>
      obtain ⟨rfl, call, he, -⟩ := readDiagnostic?_eq_some_iff.1 hr
      exact absurd ⟨call, he ▸ List.prefix_append _ _⟩ hnot

/-! ## Calls taken out -/

/-- The cutter of diagnostic calls takes them out from left to right. -/
theorem follows_callRule : diagnosticCutter.Follows callRule where
  find?_eq_none {script} := by
    rw [Cutter.find?_eq_none_iff]
    constructor
    · intro hnone call hcall
      obtain ⟨s, hprefix, hsuffix⟩ := List.infix_iff_prefix_suffix.1 hcall
      exact readDiagnostic?_eq_none_iff.1 (hnone s hsuffix) ⟨call, hprefix⟩
    · intro hlast s hs
      refine readDiagnostic?_eq_none_iff.2 fun ⟨call, hprefix⟩ => hlast call ?_
      exact hprefix.isInfix.trans hs.isInfix
  find?_eq_some {script stretch written rest} := by
    rw [Cutter.find?_eq_some_iff]
    constructor
    · rintro ⟨tail, rfl, hread, hnone⟩
      obtain ⟨rfl, hcall⟩ := readDiagnostic?_eq_some_iff.1 hread
      exact ⟨rfl, hcall, fun s hs hne => readDiagnostic?_eq_none_iff.1 (hnone s hs hne)⟩
    · rintro ⟨rfl, hcall, hbefore⟩
      exact ⟨written ++ rest, rfl, readDiagnostic?_eq_some_iff.2 ⟨rfl, hcall⟩,
        fun s hs hne => readDiagnostic?_eq_none_iff.2 (hbefore s hs hne)⟩

/-- A script without its diagnostic calls is what is kept when they are taken out from left to
right, and there is one way to do that. The loop that searches and copies by offsets comes to its
end with the same text. -/
theorem calls_are_taken_leftmost (script : Text) :
    ∃ c : Cutting Text, callRule.Cuts script c ∧ c.text id = script ∧
      stripDiagnostics script = c.kept ∧ Offset.stripCalls script = .ok c.kept ∧
      ∀ other, callRule.Cuts script other → other = c := by
  obtain ⟨c, hcuts, hcut, hunique⟩ := follows_callRule.exists_unique script
  have hkept : stripDiagnostics script = c.kept := congrArg Prod.fst hcut
  refine ⟨c, hcuts, hcuts.text_eq, hkept, ?_, hunique⟩
  rw [Offset.stripCalls_eq, hkept]

/-! ## Parentheses -/

/-- How many more parentheses a text opens than it closes. -/
def parenExcess (text : Text) : Int := text.count '(' - text.count ')'

/-- The parenthesis excess of two texts together. -/
theorem parenExcess_append (front back : Text) :
    parenExcess (front ++ back) = parenExcess front + parenExcess back := by
  simp only [parenExcess, List.count_append]
  omega

/-- A call opens and closes its own parentheses, and opens those among its arguments. -/
theorem DiagnosticCall.parenExcess_text (call : DiagnosticCall) :
    parenExcess call.text = call.arguments.count '(' := by
  have hopening : parenExcess (callOpening call.name) = 1 := by
    have hall : (callNames.all fun name => parenExcess (callOpening name) == 1) = true := by
      decide
    exact beq_iff_eq.1 (List.all_eq_true.1 hall _ call.name_mem)
  have harguments : parenExcess call.arguments = call.arguments.count '(' := by
    rw [parenExcess, List.count_eq_zero.2 call.arguments_plain, Int.natCast_zero, Int.sub_zero]
  have hclosing : parenExcess [')'] = -1 := by decide
  have hstop : parenExcess (if call.isEnded then [';'] else []) = 0 := by
    cases call.isEnded <;> decide
  rw [DiagnosticCall.text, parenExcess_append, parenExcess_append, parenExcess_append, hopening,
    harguments, hclosing, hstop]
  omega

/-- The calls that are taken out take the opening parentheses among their arguments with them. -/
theorem exists_calls {script : Text} {c : Cutting Text} (h : callRule.Cuts script c) :
    ∃ calls : List DiagnosticCall, c.pieces = calls.map DiagnosticCall.text ∧
      parenExcess script =
        parenExcess c.kept + (calls.flatMap DiagnosticCall.arguments).count '(' := by
  induction h with
  | last _ => exact ⟨[], rfl, (Int.add_zero _).symm⟩
  | @part stretch rest written c hpart _ ih =>
    obtain ⟨⟨call, rfl, -⟩, -⟩ := hpart
    obtain ⟨calls, hpieces, hexcess⟩ := ih
    refine ⟨call :: calls, ?_, ?_⟩
    · rw [Cutting.pieces_cons, hpieces, List.map_cons]
    · have hcall : parenExcess (callRule.write call.text) = call.arguments.count '(' :=
        call.parenExcess_text
      rw [parenExcess_append, parenExcess_append, hcall, hexcess, Cutting.kept_cons,
        parenExcess_append, List.flatMap_cons, List.count_append]
      omega

/-- A call that is reached is cut at its first closing parenthesis, whatever stands behind that. -/
theorem stripDiagnostics_call {name front arguments behind : Text} (hn : name ∈ callNames)
    (ha : ')' ∉ arguments)
    (hf : ∀ s, s <:+ front → s ≠ [] →
      ¬ BeginsCall (s ++ (callOpening name ++ arguments ++ ')' :: behind))) :
    stripDiagnostics (front ++ (callOpening name ++ arguments ++ ')' :: behind)) =
      front ++ stripDiagnostics (takeSemicolon behind).2 := by
  have hread := readDiagnostic?_of_readCall? hn (readCall?_append ha behind)
  rw [stripDiagnostics_append fun s hs hne => readDiagnostic?_eq_none_iff.2 (hf s hs hne),
    stripDiagnostics_of_readDiagnostic? hread]

/-- Taking out diagnostic calls lowers the parenthesis excess by the number of opening parentheses
among the arguments of the calls that are taken out, each of which ends at its first closing
parenthesis. So the excess stays as it was just when there is none among them. A call with a closing
parenthesis among its arguments is not left as it is: what stands up to that one is taken out, and
the rest of the call stays. -/
theorem parentheses_of_stripDiagnostics (script : Text) :
    (∃ calls : List DiagnosticCall,
      (diagnosticCutter.cut script).2 = calls.map DiagnosticCall.text ∧
      parenExcess (stripDiagnostics script) =
        parenExcess script - (calls.flatMap DiagnosticCall.arguments).count '(' ∧
      (parenExcess (stripDiagnostics script) = parenExcess script ↔
        ∀ call ∈ calls, '(' ∉ call.arguments)) ∧
    ∀ name ∈ callNames, ∀ front inside outside rest : Text, ')' ∉ inside →
      script = front ++ (callOpening name ++ (inside ++ ')' :: outside) ++ ')' :: rest) →
      (∀ s, s <:+ front → s ≠ [] →
        ¬ BeginsCall (s ++ (callOpening name ++ (inside ++ ')' :: outside) ++ ')' :: rest))) →
      stripDiagnostics script =
        front ++ stripDiagnostics (takeSemicolon (outside ++ ')' :: rest)).2 := by
  constructor
  · obtain ⟨c, hcuts, hcut, -⟩ := follows_callRule.exists_unique script
    obtain ⟨calls, hpieces, hexcess⟩ := exists_calls hcuts
    have hkept : stripDiagnostics script = c.kept := congrArg Prod.fst hcut
    refine ⟨calls, (congrArg Prod.snd hcut).trans hpieces, ?_, ?_⟩
    · rw [hkept, hexcess, Int.add_sub_cancel]
    · have hcount : parenExcess (stripDiagnostics script) = parenExcess script ↔
          (calls.flatMap DiagnosticCall.arguments).count '(' = 0 := by
        rw [hkept, hexcess]
        omega
      rw [hcount, List.count_eq_zero, List.mem_flatMap]
      simp only [not_exists, not_and]
  · rintro name hn front inside outside rest hinside rfl hf
    have hcall : callOpening name ++ (inside ++ ')' :: outside) ++ ')' :: rest =
        callOpening name ++ inside ++ ')' :: (outside ++ ')' :: rest) := by
      simp only [List.append_assoc, List.cons_append]
    rw [hcall] at hf ⊢
    exact stripDiagnostics_call hn hinside hf

/-- A call with a call among its arguments. -/
def nestedCallScript : Text := "console.log(f(x));"

/-- Taking it out leaves a parenthesis, so neither the balance nor the call is kept. -/
theorem nestedCallScript_not_balanced :
    parenExcess (stripDiagnostics nestedCallScript) ≠ parenExcess nestedCallScript ∧
      stripDiagnostics nestedCallScript ≠ nestedCallScript := by
  decide +kernel

/-- The call taken out has an opening parenthesis among its arguments, and what stands behind its
first closing parenthesis stays. -/
theorem nestedCallScript_is_cut_short :
    (∃ calls : List DiagnosticCall,
      (diagnosticCutter.cut nestedCallScript).2 = calls.map DiagnosticCall.text ∧
      ∃ call ∈ calls, '(' ∈ call.arguments) ∧
    stripDiagnostics nestedCallScript = stripDiagnostics ");" := by
  obtain ⟨⟨calls, hpieces, -, hbalanced⟩, hnested⟩ :=
    parentheses_of_stripDiagnostics nestedCallScript
  constructor
  · refine ⟨calls, hpieces, ?_⟩
    have hexcess : parenExcess (stripDiagnostics nestedCallScript) ≠
        parenExcess nestedCallScript := by decide +kernel
    by_contra hnone
    exact hexcess (hbalanced.2 fun call hc hm => hnone ⟨call, hc, hm⟩)
  · refine hnested "log" (by decide) [] "f(x" [] ";" (by decide) rfl fun s hs hne => ?_
    exact absurd (List.suffix_nil.1 hs) hne

end VueSfc.Script
