import VueSfc.Proofs.Script.Division
import VueSfc.Proofs.Script.Lexing

/-!
# The grammar of script lines

What a line is can be told from its characters alone, without its tokens. A line opens a
declaration, an arrow or a function expression, or declares a variable, just where it begins as such
a line is written, and the shapes are tried in this order. The words that begin a line are whole
words, since spaces follow them, and a name is a whole word that is no keyword.
-/

namespace VueSfc.Script

open Text

/-! ## How lines begin -/

/-- A line that begins with `function`, spaces and an identifier. -/
inductive BeginsDeclaration : Text → Prop
  /-- The word, spaces, the name and anything else. -/
  | intro {space name rest : Text} (hs : IsSpaces space) (hn : space ≠ [])
      (hname : IsIdentifierBetween ("function" ++ space) name rest) :
      BeginsDeclaration ("function" ++ space ++ name ++ rest)

/-- A line that begins with an assignment to a constant, of bracketed text or an identifier, and an
arrow behind it. -/
inductive BeginsArrow : Text → Prop
  /-- The assignment, the parameters, optional spaces, the arrow and anything else. -/
  | intro {name front params gap rest : Text} (hg : IsSpaces gap)
      (ha : IsAssignment name front (params ++ gap ++ "=>" ++ rest))
      (hp : IsBracketed params ∨ IsIdentifierBetween front params (gap ++ "=>" ++ rest)) :
      BeginsArrow (front ++ params ++ gap ++ "=>" ++ rest)

/-- A line that begins with an assignment to a constant, of the whole word `function`. -/
inductive BeginsExpression : Text → Prop
  /-- The assignment, the word and anything else. -/
  | intro {name front rest : Text} (ha : IsAssignment name front ("function" ++ rest))
      (hf : IsWordBetween front "function" rest) : BeginsExpression (front ++ "function" ++ rest)

/-- A line that begins with a declaring word, spaces, an identifier and an equals sign. -/
inductive BeginsVariable : Text → Prop
  /-- The word, spaces, the name, optional spaces, the equals sign and anything else. -/
  | intro {word : DeclarationWord} {space name gap rest : Text} (hs : IsSpaces space)
      (hn : space ≠ []) (hg : IsSpaces gap)
      (hname : IsIdentifierBetween (word.text ++ space) name (gap ++ "=" ++ rest)) :
      BeginsVariable (word.text ++ space ++ name ++ gap ++ "=" ++ rest)

/-! ## Tokens of the beginnings -/

/-- A token of the kind in question is taken off the front. -/
theorem eat?_cons {kind : TokenKind} {t : Token} (h : t.kind = kind) (ts : List Token) :
    eat? kind (t :: ts) = some (t, ts) := if_pos h

/-- A text that begins with a word begins with a word character. -/
theorem IsWordBetween.head_append {before word after : Text} (h : IsWordBetween before word after)
    (more : Text) : ∀ d ∈ (word ++ more).head?, isWordChar d = true := by
  intro d hd
  rw [List.head?_append_of_ne_nil _ h.ne_nil] at hd
  exact h.chars d (List.mem_of_mem_head? hd)

/-- A character that begins a value: it is neither a space nor the end of an arrow. -/
def BeginsValue (d : Char) : Prop := isSpaceChar d = false ∧ d ≠ '>'

/-- A word character begins a value. -/
theorem beginsValue_of_isWordChar {d : Char} (h : isWordChar d = true) : BeginsValue d := by
  refine ⟨isSpaceChar_of_isWordChar h, ?_⟩
  rintro rfl
  exact absurd h (by decide)

/-- A word, spaces and an identifier are three tokens. -/
theorem tokens_word_space_identifier {word space name rest : Text} (hw : word ≠ [])
    (hc : ∀ c ∈ word, isWordChar c = true) (hs : IsSpaces space) (hn : space ≠ [])
    (hname : IsIdentifierBetween (word ++ space) name rest) :
    tokens (word ++ space ++ name ++ rest) =
      Token.ofText word :: Token.ofText space :: Token.ofText name :: tokens rest := by
  have hfirst : IsWordBetween [] word (space ++ (name ++ rest)) := by
    refine ⟨hw, hc, by simp, fun c hc => ?_⟩
    rw [List.head?_append_of_ne_nil _ hn] at hc
    exact isWordChar_of_isSpaceChar (hs c (List.mem_of_mem_head? hc))
  have hafter : ∀ d ∈ (name ++ rest).head?, isSpaceChar d = false :=
    fun d hd => isSpaceChar_of_isWordChar (hname.head_append rest d hd)
  simp only [List.append_assoc]
  rw [tokens_word hfirst, tokens_spaces hs hn hafter,
    tokens_word hname.toIsWordBetween]

/-- The declaring words consist of word characters, and are tokens of their kinds. -/
theorem DeclarationWord.text_facts (word : DeclarationWord) :
    word.text ≠ [] ∧ (∀ c ∈ word.text, isWordChar c = true) ∧
      declarationWord? (kindOf word.text) = some word := by
  cases word with
  | constWord => exact ⟨by decide, List.all_eq_true.1 (by decide), by decide⟩
  | letWord => exact ⟨by decide, List.all_eq_true.1 (by decide), by decide⟩
  | varWord => exact ⟨by decide, List.all_eq_true.1 (by decide), by decide⟩

/-- The tokens of an assignment are read up to the value. -/
theorem IsAssignment.constAssignment? {name front value : Text} (h : IsAssignment name front value)
    (hv : ∀ d ∈ value.head?, BeginsValue d) :
    constAssignment? (tokens (front ++ value)) = some (name, tokens value) := by
  obtain ⟨hs, hn, hbefore, hbehind, hname⟩ := h
  rename_i space gap gap'
  have hsign : ∀ d ∈ ("=" ++ (gap' ++ value)).head?, isSpaceChar d = false := by
    intro d hd
    obtain rfl : '=' = d := by simpa using hd
    rfl
  have hend : (gap' ++ value).head? ≠ some '>' := by
    intro he
    cases gap' with
    | nil => exact (hv '>' he).2 rfl
    | cons c r =>
      obtain rfl : c = '>' := by simpa using he
      exact absurd (hbehind '>' List.mem_cons_self) (by decide)
  have hrest : IsIdentifierBetween ("const" ++ space) name (gap ++ ("=" ++ (gap' ++ value))) := by
    simpa only [List.append_assoc] using hname
  have htokens : tokens ("const" ++ space ++ name ++ gap ++ "=" ++ gap' ++ value) =
      Token.ofText "const" :: Token.ofText space :: Token.ofText name ::
        tokens (gap ++ ("=" ++ (gap' ++ value))) := by
    rw [← tokens_word_space_identifier (by decide) (List.all_eq_true.1 (by decide)) hs hn hrest]
    simp only [List.append_assoc]
  have hconst : (Token.ofText "const").kind = .constWord := rfl
  have hspace : (Token.ofText space).kind = .space := kindOf_spaces hs hn
  have hident : (Token.ofText name).kind = .name := kindOf_identifier hname
  have hequals : (Token.ofText "=").kind = .assign := rfl
  rw [htokens, Script.constAssignment?]
  simp only [Option.bind_eq_bind, eat?_cons hconst, eat?_cons hspace, eat?_cons hident,
    Option.bind_some, skipSpace_tokens hbefore hsign, tokens_equals hend, eat?_cons hequals,
    skipSpace_tokens hbehind fun d hd => (hv d hd).1]
  rfl

/-! ## Heads of functions -/

section

variable {ts : List Token} {line : Text} {head : FunctionHead}

/-- The head of a declaration says so. -/
theorem form_of_declarationHead? (h : declarationHead? ts = some head) :
    head.form = .declaration := by
  simp only [declarationHead?, Option.bind_eq_bind, Option.bind_eq_some_iff] at h
  obtain ⟨_, -, _, -, _, -, he⟩ := h
  rw [← Option.some.inj he]

/-- The head of an arrow says so. -/
theorem form_of_arrowHead? (h : arrowHead? ts = some head) : head.form = .arrow := by
  simp only [arrowHead?, Option.bind_eq_bind, Option.bind_eq_some_iff] at h
  obtain ⟨_, -, _, -, _, -, he⟩ := h
  rw [← Option.some.inj he]

/-- The head of a function expression says so. -/
theorem form_of_expressionHead? (h : expressionHead? ts = some head) :
    head.form = .expression := by
  simp only [expressionHead?, Option.bind_eq_bind, Option.bind_eq_some_iff] at h
  obtain ⟨_, -, _, -, he⟩ := h
  rw [← Option.some.inj he]

/-- A line has the tokens of a declaration just where it begins as one. -/
theorem declarationHead?_iff :
    (∃ head, declarationHead? (tokens line) = some head) ↔ BeginsDeclaration line := by
  constructor
  · rintro ⟨head, h⟩
    obtain ⟨text, hh, hline⟩ := isHead_of_declarationHead? (areTokens_tokens line) h
    rw [form_of_declarationHead? h] at hh
    rw [← textOf_tokens line, hline]
    cases hh with
    | declaration hs hn hp hname =>
      have hb := BeginsDeclaration.intro hs hn hname
      simpa only [List.append_assoc] using hb
  · rintro ⟨hs, hn, hname⟩
    rename_i space name rest
    have hfunction : (Token.ofText "function").kind = .functionWord := rfl
    have hspace : (Token.ofText space).kind = .space := kindOf_spaces hs hn
    have hident : (Token.ofText name).kind = .name := kindOf_identifier hname
    rw [tokens_word_space_identifier (by decide) isWordChar_of_mem_function hs hn hname,
      declarationHead?]
    simp only [Option.bind_eq_bind, eat?_cons hfunction, eat?_cons hspace, eat?_cons hident,
      Option.bind_some]
    exact ⟨_, rfl⟩

/-- The parameters of an arrow are read up to what follows them, and begin a value. -/
theorem arrowParams?_tokens {front params after : Text}
    (hp : IsBracketed params ∨ IsIdentifierBetween front params after) :
    arrowParams? (tokens (params ++ after)) = some (params, tokens after) ∧
      ∀ d ∈ (params ++ after).head?, BeginsValue d := by
  rcases hp with hp | hp
  · refine ⟨?_, ?_⟩
    · rw [arrowParams?, bracketed?_tokens hp]
      rfl
    · obtain ⟨inside, -, rfl⟩ := hp
      intro d hd
      obtain rfl : '(' = d := by simpa using hd
      exact ⟨by decide, by decide⟩
  · have hident : (Token.ofText params).kind = .name := kindOf_identifier hp
    have hparen : (Token.ofText params).kind ≠ .openParen := by
      rw [hident]
      decide
    refine ⟨?_, fun d hd => beginsValue_of_isWordChar (hp.head_append after d hd)⟩
    rw [arrowParams?, tokens_word hp.toIsWordBetween, bracketed?, eat?_cons hident,
      eat?, if_neg hparen]
    rfl

/-- A line has the tokens of an arrow just where it begins as one. -/
theorem arrowHead?_iff :
    (∃ head, arrowHead? (tokens line) = some head) ↔ BeginsArrow line := by
  constructor
  · rintro ⟨head, h⟩
    obtain ⟨text, hh, hline⟩ := isHead_of_arrowHead? (areTokens_tokens line) h
    rw [form_of_arrowHead? h] at hh
    rw [← textOf_tokens line, hline]
    cases hh with
    | arrow hg hg' ha hp =>
      rename_i front gap gap'
      have ha' : IsAssignment head.name front
          (head.params ++ gap ++ "=>" ++ (gap' ++ head.rest)) := by
        simpa only [List.append_assoc] using ha
      have hp' : IsBracketed head.params ∨
          IsIdentifierBetween front head.params (gap ++ "=>" ++ (gap' ++ head.rest)) := by
        simpa only [List.append_assoc] using hp
      have hb := BeginsArrow.intro hg ha' hp'
      simpa only [List.append_assoc] using hb
  · rintro ⟨hg, ha, hp⟩
    rename_i name front params gap rest
    simp only [List.append_assoc] at ha hp ⊢
    obtain ⟨hparams, hvalue⟩ := arrowParams?_tokens hp
    have hsign : ∀ d ∈ ("=>" ++ rest).head?, isSpaceChar d = false := by
      intro d hd
      obtain rfl : '=' = d := by simpa using hd
      rfl
    have harrow : (Token.ofText "=>").kind = .arrow := rfl
    rw [arrowHead?, ha.constAssignment? hvalue]
    simp only [Option.bind_eq_bind, Option.bind_some, hparams, skipSpace_tokens hg hsign,
      tokens_arrow, eat?_cons harrow]
    exact ⟨_, rfl⟩

/-- A line has the tokens of a function expression just where it begins as one. -/
theorem expressionHead?_iff :
    (∃ head, expressionHead? (tokens line) = some head) ↔ BeginsExpression line := by
  constructor
  · rintro ⟨head, h⟩
    obtain ⟨text, hh, hline⟩ := isHead_of_expressionHead? (areTokens_tokens line) h
    rw [form_of_expressionHead? h] at hh
    rw [← textOf_tokens line, hline]
    cases hh with
    | expression ha hf hi hp =>
      rename_i front inner gap
      have ha' : IsAssignment head.name front
          ("function" ++ (inner ++ gap ++ head.params ++ head.rest)) := by
        simpa only [List.append_assoc] using ha
      have hb := BeginsExpression.intro ha' hf
      simpa only [List.append_assoc] using hb
  · rintro ⟨ha, hf⟩
    rename_i name front rest
    have hfunction : (Token.ofText "function").kind = .functionWord := rfl
    have hvalue : ∀ d ∈ ("function" ++ rest : Text).head?, BeginsValue d :=
      fun d hd => beginsValue_of_isWordChar (hf.head_append rest d hd)
    rw [List.append_assoc, expressionHead?, ha.constAssignment? hvalue, tokens_word hf]
    simp only [Option.bind_eq_bind, Option.bind_some, eat?_cons hfunction]
    exact ⟨_, rfl⟩

/-! ## Variables -/

/-- An equals sign is read as such, whether it is a token of its own or begins an arrow. -/
theorem exists_afterEquals? (rest : Text) :
    ∃ tail, afterEquals? (tokens ("=" ++ rest)) = some tail := by
  by_cases hr : rest.head? = some '>'
  · obtain ⟨r, rfl⟩ := List.head?_eq_some_iff.1 hr
    have harrow : tokens ("=" ++ '>' :: r) = Token.ofText "=>" :: tokens r := tokens_arrow r
    have hkind : (Token.ofText "=>").kind = .assign ∨ (Token.ofText "=>").kind = .arrow := .inr rfl
    rw [harrow, afterEquals?, if_pos hkind]
    exact ⟨_, rfl⟩
  · have hkind : (Token.ofText "=").kind = .assign ∨ (Token.ofText "=").kind = .arrow := .inl rfl
    rw [tokens_equals hr, afterEquals?, if_pos hkind]
    exact ⟨_, rfl⟩

/-- A line that begins as the declaration of a variable has the tokens of one. -/
theorem stateStatement?_of_beginsVariable (h : BeginsVariable line) :
    ∃ s, stateStatement? (tokens line) = some s := by
  obtain ⟨hs, hn, hg, hname⟩ := h
  rename_i word space name gap rest
  obtain ⟨hne, hchars, hword⟩ := word.text_facts
  have hname' : IsIdentifierBetween (word.text ++ space) name (gap ++ ("=" ++ rest)) := by
    simpa only [List.append_assoc] using hname
  have htokens : tokens (word.text ++ space ++ name ++ gap ++ "=" ++ rest) =
      Token.ofText word.text :: Token.ofText space :: Token.ofText name ::
        tokens (gap ++ ("=" ++ rest)) := by
    rw [← tokens_word_space_identifier hne hchars hs hn hname']
    simp only [List.append_assoc]
  have hsign : ∀ d ∈ ("=" ++ rest).head?, isSpaceChar d = false := by
    intro d hd
    obtain rfl : '=' = d := by simpa using hd
    rfl
  have hfirst : declarationWord? (Token.ofText word.text).kind = some word := hword
  have hspace : (Token.ofText space).kind = .space := kindOf_spaces hs hn
  have hident : (Token.ofText name).kind = .name := kindOf_identifier hname
  obtain ⟨tail, htail⟩ := exists_afterEquals? rest
  rw [htokens, stateStatement?]
  simp only [Option.bind_eq_bind, List.head?_cons, Option.bind_some, List.tail_cons, hfirst,
    eat?_cons hspace, eat?_cons hident, skipSpace_tokens hg hsign, htail]
  exact ⟨_, rfl⟩

/-- A line that declares a variable begins as such a line. -/
theorem beginsVariable_of_state {s : StateStatement} (h : LineShape.ofLine line = .state s) :
    BeginsVariable line := by
  obtain ⟨space, gap, tail, hw⟩ := isWritten_of_state h
  have hb := BeginsVariable.intro hw.isSpaces.1 hw.isSpaces.2 hw.isSpaces_gap hw.name
  rwa [← hw.source_eq, source_of_state h] at hb

/-! ## Shapes -/

/-- A line that begins with `function` begins with its first letter. -/
theorem BeginsDeclaration.head?_eq (h : BeginsDeclaration line) : line.head? = some 'f' := by
  obtain ⟨_, _, _⟩ := h
  rfl

/-- An assignment to a constant begins with the first letter of `const`. -/
theorem IsAssignment.head?_append {name front after : Text} (h : IsAssignment name front after)
    (more : Text) : (front ++ more).head? = some 'c' := by
  obtain ⟨_, _, _, _, _⟩ := h
  rfl

/-- A declaration is no arrow. -/
theorem BeginsDeclaration.not_beginsArrow (h : BeginsDeclaration line) : ¬ BeginsArrow line := by
  intro ha
  have hf := h.head?_eq
  obtain ⟨hg, ha, hp⟩ := ha
  simp only [List.append_assoc, ha.head?_append] at hf
  exact absurd hf (by decide)

/-- A declaration is no function expression. -/
theorem BeginsDeclaration.not_beginsExpression (h : BeginsDeclaration line) :
    ¬ BeginsExpression line := by
  intro he
  have hf := h.head?_eq
  obtain ⟨ha, -⟩ := he
  simp only [List.append_assoc, ha.head?_append] at hf
  exact absurd hf (by decide)

/-- A line has no tokens of a declaration just where it does not begin as one. -/
theorem declarationHead?_eq_none_iff :
    declarationHead? (tokens line) = none ↔ ¬ BeginsDeclaration line := by
  rw [← declarationHead?_iff, Option.eq_none_iff_forall_ne_some, not_exists]

/-- A line has no tokens of an arrow just where it does not begin as one. -/
theorem arrowHead?_eq_none_iff : arrowHead? (tokens line) = none ↔ ¬ BeginsArrow line := by
  rw [← arrowHead?_iff, Option.eq_none_iff_forall_ne_some, not_exists]

/-- A line has no tokens of a function expression just where it does not begin as one. -/
theorem expressionHead?_eq_none_iff :
    expressionHead? (tokens line) = none ↔ ¬ BeginsExpression line := by
  rw [← expressionHead?_iff, Option.eq_none_iff_forall_ne_some, not_exists]

/-- The head of a function is that of a declaration, else that of an arrow, and else that of a
function expression. -/
theorem functionHead?_eq_some_iff :
    functionHead? (tokens line) = some head ↔ declarationHead? (tokens line) = some head ∨
      ¬ BeginsDeclaration line ∧ (arrowHead? (tokens line) = some head ∨
        ¬ BeginsArrow line ∧ expressionHead? (tokens line) = some head) := by
  simp only [functionHead?, Option.orElse_eq_orElse, Option.orElse_eq_or, Option.or_eq_some_iff,
    declarationHead?_eq_none_iff, arrowHead?_eq_none_iff]

/-- A line opens no function just where it begins as none. -/
theorem functionHead?_eq_none_iff :
    functionHead? (tokens line) = none ↔
      ¬ BeginsDeclaration line ∧ ¬ BeginsArrow line ∧ ¬ BeginsExpression line := by
  simp only [functionHead?, Option.orElse_eq_orElse, Option.orElse_eq_or, Option.or_eq_none_iff,
    declarationHead?_eq_none_iff, arrowHead?_eq_none_iff, expressionHead?_eq_none_iff]

/-- A line opens a function with a head just where its tokens have that head. -/
theorem ofLine_eq_opens_iff :
    LineShape.ofLine line = .opens head ↔ functionHead? (tokens line) = some head := by
  rw [LineShape.ofLine]
  cases functionHead? (tokens line) with
  | some head' => simp
  | none => cases stateStatement? (tokens line) <;> simp

/-- A line that opens no function declares a variable or is nothing of this kind. -/
theorem ofLine_of_functionHead?_eq_none (h : functionHead? (tokens line) = none) :
    (∃ s, LineShape.ofLine line = .state s) ∨
      LineShape.ofLine line = .other ∧ stateStatement? (tokens line) = none := by
  rw [LineShape.ofLine, h]
  cases hs : stateStatement? (tokens line) with
  | some s => exact .inl ⟨s, rfl⟩
  | none => exact .inr ⟨rfl, rfl⟩

end

/-- A line opens a function in a form. -/
def OpensAs (form : FunctionForm) (line : Text) : Prop :=
  ∃ head, LineShape.ofLine line = .opens head ∧ head.form = form

section

variable {line : Text}

/-- A line opens a function in a form just where it begins in that form, and the forms are tried in
their order. -/
theorem opensAs_iff (form : FunctionForm) :
    OpensAs form line ↔
      match form with
      | .declaration => BeginsDeclaration line
      | .arrow => BeginsArrow line
      | .expression => ¬ BeginsArrow line ∧ BeginsExpression line := by
  simp only [OpensAs, ofLine_eq_opens_iff, functionHead?_eq_some_iff]
  constructor
  · rintro ⟨head, h | ⟨-, h | ⟨ha, h⟩⟩, rfl⟩
    · rw [form_of_declarationHead? h]
      exact declarationHead?_iff.1 ⟨head, h⟩
    · rw [form_of_arrowHead? h]
      exact arrowHead?_iff.1 ⟨head, h⟩
    · rw [form_of_expressionHead? h]
      exact ⟨ha, expressionHead?_iff.1 ⟨head, h⟩⟩
  · intro h
    cases form with
    | declaration =>
      obtain ⟨head, hd⟩ := declarationHead?_iff.2 h
      exact ⟨head, .inl hd, form_of_declarationHead? hd⟩
    | arrow =>
      obtain ⟨head, ha⟩ := arrowHead?_iff.2 h
      exact ⟨head, .inr ⟨fun hd => hd.not_beginsArrow h, .inl ha⟩, form_of_arrowHead? ha⟩
    | expression =>
      obtain ⟨head, he⟩ := expressionHead?_iff.2 h.2
      exact ⟨head, .inr ⟨fun hd => hd.not_beginsExpression h.2, .inr ⟨h.1, he⟩⟩,
        form_of_expressionHead? he⟩

/-- A line that declares a variable or is nothing of this kind opens no function. -/
theorem functionHead?_eq_none_of_ofLine (h : ∀ head, LineShape.ofLine line ≠ .opens head) :
    functionHead? (tokens line) = none :=
  Option.eq_none_iff_forall_ne_some.2 fun head hf => h head (ofLine_eq_opens_iff.2 hf)

/-- A line declares a variable just where it opens no function and begins as a variable. -/
theorem exists_ofLine_eq_state_iff :
    (∃ s, LineShape.ofLine line = .state s) ↔
      functionHead? (tokens line) = none ∧ BeginsVariable line := by
  constructor
  · rintro ⟨s, hs⟩
    have hnone : ∀ head, LineShape.ofLine line ≠ .opens head := fun head => by simp [hs]
    exact ⟨functionHead?_eq_none_of_ofLine hnone, beginsVariable_of_state hs⟩
  · rintro ⟨hf, hb⟩
    refine (ofLine_of_functionHead?_eq_none hf).resolve_right fun hother => ?_
    obtain ⟨s, hs⟩ := stateStatement?_of_beginsVariable hb
    rw [hother.2] at hs
    contradiction

/-- A line is nothing of this kind just where it opens no function and begins as no variable. -/
theorem ofLine_eq_other_iff :
    LineShape.ofLine line = .other ↔
      functionHead? (tokens line) = none ∧ ¬ BeginsVariable line := by
  constructor
  · intro h
    have hnone : ∀ head, LineShape.ofLine line ≠ .opens head := fun head => by simp [h]
    have hf := functionHead?_eq_none_of_ofLine hnone
    refine ⟨hf, fun hb => ?_⟩
    obtain ⟨s, hs⟩ := exists_ofLine_eq_state_iff.2 ⟨hf, hb⟩
    simp [hs] at h
  · rintro ⟨hf, hb⟩
    refine ((ofLine_of_functionHead?_eq_none hf).resolve_left ?_).1
    exact fun hs => hb (exists_ofLine_eq_state_iff.1 hs).2

end

/-- What a line is follows the grammar of its characters. It opens a declaration just where it
begins with `function`, spaces and an identifier; an arrow where it begins with an assignment of
parameters and an arrow; a function expression where it is no arrow and begins with an assignment of
the word `function`; it declares a variable where it opens no function and begins with a declaring
word, spaces, an identifier and an equals sign; and it is nothing of this kind otherwise. -/
theorem shape_follows_grammar (line : Text) :
    (OpensAs .declaration line ↔ BeginsDeclaration line) ∧
      (OpensAs .arrow line ↔ BeginsArrow line) ∧
      (OpensAs .expression line ↔ ¬ BeginsArrow line ∧ BeginsExpression line) ∧
      ((∃ s, LineShape.ofLine line = .state s) ↔ (¬ BeginsDeclaration line ∧ ¬ BeginsArrow line ∧
        ¬ BeginsExpression line) ∧ BeginsVariable line) ∧
      (LineShape.ofLine line = .other ↔ (¬ BeginsDeclaration line ∧ ¬ BeginsArrow line ∧
        ¬ BeginsExpression line) ∧ ¬ BeginsVariable line) := by
  rw [exists_ofLine_eq_state_iff, ofLine_eq_other_iff, functionHead?_eq_none_iff]
  exact ⟨opensAs_iff .declaration, opensAs_iff .arrow, opensAs_iff .expression, Iff.rfl, Iff.rfl⟩

end VueSfc.Script
