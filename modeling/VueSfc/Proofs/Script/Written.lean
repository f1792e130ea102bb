import VueSfc.Script.LineShape
import VueSfc.Proofs.Script.Lexeme
import VueSfc.Proofs.Text.Lines

/-!
# How a line is written

A line that opens a function is its written head followed by the rest of the line, and a line
that declares a variable is the declaring word, the name, the equals sign and what follows it.
The names are whole words, and the pieces put together are the line, character by character.
-/

namespace VueSfc.Script

open Text

/-! ## Blank characters -/

/-- A character of a space token is blank. -/
theorem isBlank_of_isSpaceChar {c : Char} (h : isSpaceChar c = true) : isBlank c = true := by
  rw [isSpaceChar, List.contains_iff_mem] at h
  simp only [List.mem_cons, List.not_mem_nil, or_false] at h
  rcases h with rfl | rfl | rfl | rfl | rfl <;> rfl

/-- A word character is not blank. -/
theorem not_isBlank_of_isWordChar {c : Char} (h : isWordChar c = true) : isBlank c = false := by
  have hrange : 48 ≤ c.toNat ∧ c.toNat ≤ 122 := by
    rcases Bool.or_eq_true_iff.1 h with h | h
    · rcases Bool.or_eq_true_iff.1 h with h | h
      · rcases Bool.or_eq_true_iff.1 h with h | h
        · have hupper : 65 ≤ c.toNat ∧ c.toNat ≤ 90 := of_decide_eq_true h
          omega
        · have hlow : 97 ≤ c.toNat := of_decide_eq_true (Bool.and_eq_true_iff.1 h).1
          have hhigh : c.toNat ≤ 122 := of_decide_eq_true (Bool.and_eq_true_iff.1 h).2
          omega
      · have hlow : 48 ≤ c.toNat := of_decide_eq_true (Bool.and_eq_true_iff.1 h).1
        have hhigh : c.toNat ≤ 57 := of_decide_eq_true (Bool.and_eq_true_iff.1 h).2
        omega
    · obtain rfl : c = '_' := beq_iff_eq.1 h
      decide
  simp only [isBlank, blankRanges, List.any_cons, List.any_nil, Bool.or_false, Bool.or_eq_false_iff,
    Bool.and_eq_false_iff, decide_eq_false_iff_not, not_le]
  omega

/-! ## Pieces -/

/-- A text of spaces, which may be empty. -/
def IsSpaces (text : Text) : Prop := ∀ c ∈ text, isSpaceChar c = true

/-- A word with nothing of a word right before or after it. -/
structure IsWordBetween (before word after : Text) : Prop where
  /-- The word is not empty. -/
  ne_nil : word ≠ []
  /-- It consists of word characters. -/
  chars : ∀ c ∈ word, isWordChar c = true
  /-- What stands before it does not end in a word. -/
  before_end : ∀ c ∈ before.getLast?, isWordChar c = false
  /-- What stands after it does not begin with a word. -/
  after_start : ∀ c ∈ after.head?, isWordChar c = false

/-- A whole word that is no keyword. -/
structure IsIdentifierBetween (before word after : Text) : Prop
    extends IsWordBetween before word after where
  /-- The word is no keyword. -/
  not_keyword : word ∉ keywords

/-- A bracket, text without the closing one, and the closing one. -/
def IsBracketed (params : Text) : Prop := ∃ inside, ')' ∉ inside ∧ params = '(' :: (inside ++ [')'])

/-- Bracketed parameters behind some spaces, or nothing at all. -/
def IsOptional (gap params : Text) : Prop :=
  gap = [] ∧ params = [] ∨ IsSpaces gap ∧ IsBracketed params

/-- A second name behind some spaces, or nothing at all. -/
def IsInnerName (before inner after : Text) : Prop :=
  inner = [] ∨ ∃ gap name, IsSpaces gap ∧ inner = gap ++ name ∧
    IsIdentifierBetween (before ++ gap) name after

/-- The front of a line up to the value that a name is given. -/
inductive IsAssignment (name : Text) : Text → Text → Prop
  /-- The word `const`, the name and the equals sign with spaces around them. -/
  | intro {space gap gap' after : Text} (hs : IsSpaces space) (hn : space ≠ []) (hg : IsSpaces gap)
      (hg' : IsSpaces gap')
      (hname : IsIdentifierBetween ("const" ++ space) name (gap ++ "=" ++ gap' ++ after)) :
      IsAssignment name ("const" ++ space ++ name ++ gap ++ "=" ++ gap') after

/-- The head of a function as written, and what follows it. -/
inductive IsHead : FunctionForm → (name params head after : Text) → Prop
  /-- The word `function`, a name, and parameters if there are any. -/
  | declaration {name params space gap after : Text} (hs : IsSpaces space) (hn : space ≠ [])
      (hp : IsOptional gap params)
      (hname : IsIdentifierBetween ("function" ++ space) name (gap ++ params ++ after)) :
      IsHead .declaration name params ("function" ++ space ++ name ++ gap ++ params) after
  /-- An assignment, parameters and an arrow. -/
  | arrow {name params front gap gap' after : Text} (hg : IsSpaces gap) (hg' : IsSpaces gap')
      (ha : IsAssignment name front (params ++ gap ++ "=>" ++ gap' ++ after))
      (hp : IsBracketed params ∨
        IsIdentifierBetween front params (gap ++ "=>" ++ gap' ++ after)) :
      IsHead .arrow name params (front ++ params ++ gap ++ "=>" ++ gap') after
  /-- An assignment, the word `function`, and a second name and parameters if there are any. -/
  | expression {name params front inner gap after : Text}
      (ha : IsAssignment name front ("function" ++ inner ++ gap ++ params ++ after))
      (hf : IsWordBetween front "function" (inner ++ gap ++ params ++ after))
      (hi : IsInnerName (front ++ "function") inner (gap ++ params ++ after))
      (hp : IsOptional gap params) :
      IsHead .expression name params (front ++ "function" ++ inner ++ gap ++ params) after

/-- A variable as written: the declaring word, the name, the equals sign and the tail, of which
the value is what is left when it is trimmed and loses one final semicolon. -/
structure IsWritten (s : StateStatement) (space gap tail : Text) : Prop where
  /-- There are spaces behind the declaring word. -/
  isSpaces : IsSpaces space ∧ space ≠ []
  /-- Only spaces stand before the equals sign. -/
  isSpaces_gap : IsSpaces gap
  /-- The name is a whole word. -/
  name : IsIdentifierBetween (s.word.text ++ space) s.name (gap ++ "=" ++ tail)
  /-- The pieces are all of the line. -/
  source_eq : s.source = s.word.text ++ space ++ s.name ++ gap ++ "=" ++ tail
  /-- There is no value just where the tail is blank. -/
  initializer_eq_none : s.initializer = none ↔ allBlank tail = true
  /-- A value is the trimmed tail without one final semicolon. -/
  initializer_eq : ∀ value ∈ s.initializer,
    trim tail = value ++ [';'] ∨ trim tail = value ∧ value.getLast? ≠ some ';'

/-! ## More text behind a head -/

/-- Spaces end no word. -/
theorem not_isWordChar_of_getLast?_append {before gap : Text} (hg : IsSpaces gap)
    (hb : gap = [] → ∀ c ∈ before.getLast?, isWordChar c = false) :
    ∀ c ∈ (before ++ gap).getLast?, isWordChar c = false := by
  by_cases hn : gap = []
  · simpa [hn] using hb hn
  · intro c hc
    rw [List.getLast?_append_of_ne_nil _ hn] at hc
    exact isWordChar_of_isSpaceChar (hg c (List.mem_of_getLast? hc))

/-- A whole word stays one when text that begins with no word is added. -/
theorem IsWordBetween.append {before word after : Text} (h : IsWordBetween before word after)
    {more : Text} (hm : ∀ c ∈ more.head?, isWordChar c = false) :
    IsWordBetween before word (after ++ more) where
  ne_nil := h.ne_nil
  chars := h.chars
  before_end := h.before_end
  after_start c hc := by
    rw [List.head?_append] at hc
    cases ha : after.head? with
    | none => exact hm c (by simpa [ha] using hc)
    | some d => exact h.after_start c (by simpa [ha] using hc)

/-- An identifier stays one when text that begins with no word is added. -/
theorem IsIdentifierBetween.append {before word after : Text}
    (h : IsIdentifierBetween before word after) {more : Text}
    (hm : ∀ c ∈ more.head?, isWordChar c = false) :
    IsIdentifierBetween before word (after ++ more) :=
  ⟨h.toIsWordBetween.append hm, h.not_keyword⟩

/-- An assignment stays one when text that begins with no word is added. -/
theorem IsAssignment.append {name front after : Text} (h : IsAssignment name front after)
    {more : Text} (hm : ∀ c ∈ more.head?, isWordChar c = false) :
    IsAssignment name front (after ++ more) := by
  obtain ⟨hs, hn, hg, hg', hname⟩ := h
  refine .intro hs hn hg hg' ?_
  rw [← List.append_assoc]
  exact hname.append hm

/-- A head stays one when text that begins with no word is added. -/
theorem IsHead.append {form : FunctionForm} {name params head after : Text}
    (h : IsHead form name params head after) {more : Text}
    (hm : ∀ c ∈ more.head?, isWordChar c = false) :
    IsHead form name params head (after ++ more) := by
  cases h with
  | declaration hs hn hp hname =>
    refine .declaration hs hn hp ?_
    rw [← List.append_assoc]
    exact hname.append hm
  | arrow hg hg' ha hp =>
    refine .arrow hg hg' ?_ (hp.imp_right fun hname => ?_)
    · rw [← List.append_assoc]
      exact ha.append hm
    · rw [← List.append_assoc]
      exact hname.append hm
  | expression ha hf hi hp =>
    refine .expression ?_ ?_ ?_ hp
    · rw [← List.append_assoc]
      exact ha.append hm
    · rw [← List.append_assoc]
      exact hf.append hm
    · rw [← List.append_assoc]
      rcases hi with hi | ⟨gap, inner, hg, hi, hname⟩
      · exact .inl hi
      · exact .inr ⟨gap, inner, hg, hi, hname.append hm⟩

/-! ## Reading tokens -/

/-- Taking a token off the front. -/
theorem eat?_eq_some_iff {kind : TokenKind} {ts rest : List Token} {t : Token} :
    eat? kind ts = some (t, rest) ↔ ts = t :: rest ∧ t.kind = kind := by
  cases ts with
  | nil => simp [eat?]
  | cons u us =>
    simp only [eat?]
    split
    · rename_i hk
      simp only [Option.some.injEq, Prod.mk.injEq, List.cons.injEq]
      exact ⟨fun ⟨ht, hr⟩ => ⟨⟨ht, hr⟩, ht ▸ hk⟩, fun ⟨he, _⟩ => he⟩
    · rename_i hk
      simp only [reduceCtorEq, List.cons.injEq, false_iff, not_and]
      rintro ⟨rfl, -⟩
      exact hk

/-- The text of a token and those behind it. -/
theorem textOf_cons (t : Token) (ts : List Token) : textOf (t :: ts) = t.text ++ textOf ts := rfl

/-- The text of some tokens and those behind them. -/
theorem textOf_append (front back : List Token) :
    textOf (front ++ back) = textOf front ++ textOf back :=
  List.flatMap_append

namespace AreTokens

variable {t : Token} {ts : List Token}

/-- A space token is a text of spaces. -/
theorem isSpaces (h : AreTokens (t :: ts)) (hk : t.kind = .space) :
    IsSpaces t.text ∧ t.text ≠ [] := by
  have hl := h.lexeme t List.mem_cons_self
  exact ⟨isSpace_of_space hl ((h.kind_eq t List.mem_cons_self).symm.trans hk), hl.ne_nil⟩

/-- A name token is an identifier, if it does not stand right behind a word. -/
theorem isIdentifierBetween (h : AreTokens (t :: ts)) (hk : t.kind = .name) (before : Text)
    (hb : ∀ c ∈ before.getLast?, isWordChar c = false) :
    IsIdentifierBetween before t.text (textOf ts) := by
  have hl := h.lexeme t List.mem_cons_self
  have hw := isWord_of_name hl ((h.kind_eq t List.mem_cons_self).symm.trans hk)
  exact ⟨⟨hl.ne_nil, hw.1, hb, fun _ => h.head_textOf hw.1⟩, hw.2⟩

/-- A name token behind a word and a space is an identifier. -/
theorem isIdentifierBetween_of_space {first space name : Token}
    (h : AreTokens (first :: space :: name :: ts)) (hs : space.kind = .space)
    (hn : name.kind = .name) (word : Text) :
    (IsSpaces space.text ∧ space.text ≠ []) ∧
      IsIdentifierBetween (word ++ space.text) name.text (textOf ts) := by
  have hspace := h.tail.isSpaces hs
  exact ⟨hspace, h.tail.tail.isIdentifierBetween hn _
    (not_isWordChar_of_getLast?_append hspace.1 fun he => absurd he hspace.2)⟩

/-- Spaces in front of some tokens are left out. -/
theorem exists_gap (h : AreTokens ts) :
    ∃ gap, IsSpaces gap ∧ textOf ts = gap ++ textOf (skipSpace ts) ∧ AreTokens (skipSpace ts) := by
  cases ts with
  | nil => exact ⟨[], by simp [IsSpaces], rfl, h⟩
  | cons t ts =>
    simp only [skipSpace]
    split
    · rename_i hk
      exact ⟨t.text, (h.isSpaces hk).1, rfl, h.tail⟩
    · exact ⟨[], by simp [IsSpaces], rfl, h⟩

/-- The text through the first closing bracket has no other one. -/
theorem of_through? {front : Text} {back : List Token} (h : AreTokens ts)
    (ht : through? .closeParen ts = some (front, back)) :
    ∃ inside, ')' ∉ inside ∧ front = inside ++ [')'] ∧ textOf ts = front ++ textOf back ∧
      AreTokens back := by
  induction ts generalizing front with
  | nil => simp [through?] at ht
  | cons t ts ih =>
    simp only [through?] at ht
    split at ht
    · rename_i hk
      simp only [Option.some.injEq, Prod.mk.injEq] at ht
      obtain ⟨rfl, rfl⟩ := ht
      have hp : t.text = ")".toList := h.text_eq (hk ▸ by decide)
      exact ⟨[], by simp, hp, rfl, h.tail⟩
    · rename_i hk
      obtain ⟨⟨front', back'⟩, hf, he⟩ := Option.map_eq_some_iff.1 ht
      simp only [Prod.mk.injEq] at he
      obtain ⟨rfl, rfl⟩ := he
      obtain ⟨inside, hn, hi, hb, ha⟩ := ih h.tail hf
      refine ⟨t.text ++ inside, ?_, ?_, ?_, ha⟩
      · refine fun hm => (List.mem_append.1 hm).elim (fun hm => hk ?_) hn
        have he := eq_of_closeParen_mem (h.lexeme t List.mem_cons_self) hm
        rw [h.kind_eq t List.mem_cons_self, he]
        rfl
      · rw [hi, List.append_assoc]
      · rw [textOf_cons, hb, List.append_assoc]

/-- A bracketed parameter list stands at the front of the text. -/
theorem of_bracketed? {params : Text} {rest : List Token} (h : AreTokens ts)
    (hb : bracketed? ts = some (params, rest)) :
    IsBracketed params ∧ textOf ts = params ++ textOf rest ∧ AreTokens rest := by
  simp only [bracketed?, Option.bind_eq_bind, Option.bind_eq_some_iff] at hb
  obtain ⟨⟨bracket, ts'⟩, he, ⟨inside, rest'⟩, ht, hp⟩ := hb
  simp only [Option.pure_def, Option.some.injEq, Prod.mk.injEq] at hp
  obtain ⟨rfl, rfl⟩ := hp
  obtain ⟨rfl, hk⟩ := eat?_eq_some_iff.1 he
  have hopen : bracket.text = "(".toList := h.text_eq (hk ▸ by decide)
  obtain ⟨text, hn, rfl, htext, ha⟩ := h.tail.of_through? ht
  refine ⟨⟨text, hn, ?_⟩, ?_, ha⟩
  · rw [hopen]
    rfl
  · rw [textOf_cons, htext]
    simp only [List.append_assoc]

/-- Optional parameters stand at the front of the text. -/
theorem exists_optional (h : AreTokens ts) :
    ∃ gap, IsOptional gap (paramsAndRest ts).1 ∧
      textOf ts = gap ++ (paramsAndRest ts).1 ++ (paramsAndRest ts).2 := by
  rw [paramsAndRest]
  split
  · rename_i params rest hb
    obtain ⟨gap, hg, ht, ha⟩ := h.exists_gap
    obtain ⟨hp, he, -⟩ := ha.of_bracketed? hb
    exact ⟨gap, .inr ⟨hg, hp⟩, by rw [ht, he, List.append_assoc]⟩
  · exact ⟨[], .inl ⟨rfl, rfl⟩, rfl⟩

/-- A declared name and the equals sign stand at the front of the text. -/
theorem of_constAssignment? {name : Text} {rest : List Token} (h : AreTokens ts)
    (hc : constAssignment? ts = some (name, rest)) :
    ∃ front, IsAssignment name front (textOf rest) ∧ textOf ts = front ++ textOf rest ∧
      AreTokens rest := by
  simp only [constAssignment?, Option.bind_eq_bind, Option.bind_eq_some_iff] at hc
  obtain ⟨⟨word, ts₁⟩, h₁, ⟨space, ts₂⟩, h₂, ⟨nameToken, ts₃⟩, h₃, ⟨sign, ts₄⟩, h₄, he⟩ := hc
  simp only [Option.pure_def, Option.some.injEq, Prod.mk.injEq] at he
  obtain ⟨rfl, rfl⟩ := he
  obtain ⟨rfl, k₁⟩ := eat?_eq_some_iff.1 h₁
  obtain ⟨rfl, k₂⟩ := eat?_eq_some_iff.1 h₂
  obtain ⟨rfl, k₃⟩ := eat?_eq_some_iff.1 h₃
  obtain ⟨e₄, k₄⟩ := eat?_eq_some_iff.1 h₄
  have hword : word.text = "const".toList := h.text_eq (k₁ ▸ by decide)
  obtain ⟨⟨hs, hn⟩, hname⟩ := h.isIdentifierBetween_of_space k₂ k₃ "const"
  obtain ⟨gap, hg, t₃, a₃⟩ := h.tail.tail.tail.exists_gap
  rw [e₄] at t₃ a₃
  have hsign : sign.text = "=".toList := a₃.text_eq (k₄ ▸ by decide)
  obtain ⟨gap', hg', t₄, a₄⟩ := a₃.tail.exists_gap
  have hafter : textOf ts₃ = gap ++ "=" ++ gap' ++ textOf (skipSpace ts₄) := by
    rw [t₃, textOf_cons, t₄, hsign]
    simp only [List.append_assoc]
  rw [hafter] at hname
  refine ⟨_, .intro hs hn hg hg' hname, ?_, a₄⟩
  rw [textOf_cons, textOf_cons, textOf_cons, hafter, hword]
  simp only [List.append_assoc]

end AreTokens

/-- What stands before an assigned value ends in no word. -/
theorem IsAssignment.front_end {name front after : Text} (h : IsAssignment name front after) :
    ∀ c ∈ front.getLast?, isWordChar c = false := by
  obtain ⟨hs, hn, hg, hg', hname⟩ := h
  refine not_isWordChar_of_getLast?_append hg' fun _ c hc => ?_
  rw [List.getLast?_append_of_ne_nil _ (by decide)] at hc
  obtain rfl : '=' = c := by simpa using hc
  rfl

/-! ## Heads of functions -/

/-- The head of a declaration and what follows it are the text. -/
theorem isHead_of_declarationHead? {ts : List Token} {head : FunctionHead} (h : AreTokens ts)
    (hd : declarationHead? ts = some head) :
    ∃ text, IsHead head.form head.name head.params text head.rest ∧
      textOf ts = text ++ head.rest := by
  simp only [declarationHead?, Option.bind_eq_bind, Option.bind_eq_some_iff] at hd
  obtain ⟨⟨word, ts₁⟩, h₁, ⟨space, ts₂⟩, h₂, ⟨name, ts₃⟩, h₃, he⟩ := hd
  rw [← Option.some.inj he]
  obtain ⟨rfl, k₁⟩ := eat?_eq_some_iff.1 h₁
  obtain ⟨rfl, k₂⟩ := eat?_eq_some_iff.1 h₂
  obtain ⟨rfl, k₃⟩ := eat?_eq_some_iff.1 h₃
  have hword : word.text = "function".toList := h.text_eq (k₁ ▸ by decide)
  obtain ⟨⟨hs, hn⟩, hname⟩ := h.isIdentifierBetween_of_space k₂ k₃ "function"
  obtain ⟨gap, hp, t₃⟩ := h.tail.tail.tail.exists_optional
  rw [t₃] at hname
  refine ⟨_, .declaration hs hn hp hname, ?_⟩
  rw [textOf_cons, textOf_cons, textOf_cons, t₃, hword]
  simp only [List.append_assoc]

/-- The parameters of an arrow stand at the front of the text. -/
theorem AreTokens.of_arrowParams? {ts rest : List Token} {params front : Text} (h : AreTokens ts)
    (hf : ∀ c ∈ front.getLast?, isWordChar c = false)
    (ha : arrowParams? ts = some (params, rest)) :
    (IsBracketed params ∨ IsIdentifierBetween front params (textOf rest)) ∧
      textOf ts = params ++ textOf rest ∧ AreTokens rest := by
  rw [arrowParams?, Option.orElse_eq_orElse, Option.orElse_eq_or, Option.or_eq_some_iff] at ha
  rcases ha with ha | ⟨-, ha⟩
  · obtain ⟨hp, ht, hr⟩ := h.of_bracketed? ha
    exact ⟨.inl hp, ht, hr⟩
  · obtain ⟨⟨t, ts'⟩, he, hp⟩ := Option.map_eq_some_iff.1 ha
    simp only [Prod.mk.injEq] at hp
    obtain ⟨rfl, rfl⟩ := hp
    obtain ⟨rfl, hk⟩ := eat?_eq_some_iff.1 he
    exact ⟨.inr (h.isIdentifierBetween hk _ hf), rfl, h.tail⟩

/-- The head of an arrow and what follows it are the text. -/
theorem isHead_of_arrowHead? {ts : List Token} {head : FunctionHead} (h : AreTokens ts)
    (hd : arrowHead? ts = some head) :
    ∃ text, IsHead head.form head.name head.params text head.rest ∧
      textOf ts = text ++ head.rest := by
  simp only [arrowHead?, Option.bind_eq_bind, Option.bind_eq_some_iff] at hd
  obtain ⟨⟨name, ts₁⟩, h₁, ⟨params, ts₂⟩, h₂, ⟨arrow, ts₃⟩, h₃, he⟩ := hd
  rw [← Option.some.inj he]
  obtain ⟨front, hassign, t₁, a₁⟩ := h.of_constAssignment? h₁
  obtain ⟨hp, t₂, a₂⟩ := a₁.of_arrowParams? hassign.front_end h₂
  obtain ⟨gap, hg, t₃, a₃⟩ := a₂.exists_gap
  obtain ⟨e₃, k₃⟩ := eat?_eq_some_iff.1 h₃
  rw [e₃] at t₃ a₃
  have harrow : arrow.text = "=>".toList := a₃.text_eq (k₃ ▸ by decide)
  obtain ⟨gap', hg', t₄, -⟩ := a₃.tail.exists_gap
  have hafter : textOf ts₂ = gap ++ "=>" ++ gap' ++ textOf (skipSpace ts₃) := by
    rw [t₃, textOf_cons, t₄, harrow]
    simp only [List.append_assoc]
  rw [hafter] at hp
  have hvalue : textOf ts₁ = params ++ gap ++ "=>" ++ gap' ++ textOf (skipSpace ts₃) := by
    rw [t₂, hafter]
    simp only [List.append_assoc]
  rw [hvalue] at hassign
  refine ⟨_, .arrow hg hg' hassign hp, ?_⟩
  rw [t₁, hvalue]
  simp only [List.append_assoc]

/-- The word `function` consists of word characters. -/
theorem isWordChar_of_mem_function : ∀ c ∈ "function".toList, isWordChar c = true :=
  List.all_eq_true.1 (by decide)

/-- A second name behind the word `function` stands at the front of the text. -/
theorem AreTokens.exists_inner {t : Token} {ts : List Token} (h : AreTokens (t :: ts))
    (ht : t.text = "function".toList) (front : Text) :
    ∃ inner, IsInnerName (front ++ "function") inner (textOf (skipInnerName ts)) ∧
      textOf ts = inner ++ textOf (skipInnerName ts) ∧ AreTokens (skipInnerName ts) := by
  have hw : ∀ c ∈ t.text, isWordChar c = true := ht ▸ isWordChar_of_mem_function
  rw [skipInnerName]
  split
  · rename_i name rest he
    obtain ⟨gap, hg, htext, ha⟩ := h.tail.exists_gap
    obtain ⟨e, hk⟩ := eat?_eq_some_iff.1 he
    rw [e] at htext ha
    -- Without spaces between them the second name would be one word with `function`.
    have hne : gap ≠ [] := by
      rintro rfl
      have hl := ha.lexeme name List.mem_cons_self
      have hn := (isWord_of_name hl ((ha.kind_eq name List.mem_cons_self).symm.trans hk)).1
      obtain ⟨c, r, hc⟩ := List.exists_cons_of_ne_nil hl.ne_nil
      have hd := h.head_textOf hw (d := c) (by rw [htext, textOf_cons, hc]; rfl)
      rw [hn c (hc ▸ List.mem_cons_self)] at hd
      exact Bool.noConfusion hd
    refine ⟨gap ++ name.text, .inr ⟨gap, name.text, hg, rfl, ?_⟩, ?_, ha.tail⟩
    · exact ha.isIdentifierBetween hk _
        (not_isWordChar_of_getLast?_append hg fun he => absurd he hne)
    · rw [htext, textOf_cons, List.append_assoc]
  · exact ⟨[], .inl rfl, rfl, h.tail⟩

/-- The head of a function expression and what follows it are the text. -/
theorem isHead_of_expressionHead? {ts : List Token} {head : FunctionHead} (h : AreTokens ts)
    (hd : expressionHead? ts = some head) :
    ∃ text, IsHead head.form head.name head.params text head.rest ∧
      textOf ts = text ++ head.rest := by
  simp only [expressionHead?, Option.bind_eq_bind, Option.bind_eq_some_iff] at hd
  obtain ⟨⟨name, ts₁⟩, h₁, ⟨word, ts₂⟩, h₂, he⟩ := hd
  rw [← Option.some.inj he]
  obtain ⟨front, hassign, t₁, a₁⟩ := h.of_constAssignment? h₁
  obtain ⟨rfl, k₂⟩ := eat?_eq_some_iff.1 h₂
  have hword : word.text = "function".toList := a₁.text_eq (k₂ ▸ by decide)
  obtain ⟨inner, hi, t₂, a₂⟩ := a₁.exists_inner hword front
  obtain ⟨gap, hp, t₃⟩ := a₂.exists_optional
  have hafter : textOf ts₂ = inner ++ gap ++ (paramsAndRest (skipInnerName ts₂)).1 ++
      (paramsAndRest (skipInnerName ts₂)).2 := by
    rw [t₂, t₃]
    simp only [List.append_assoc]
  have hf : IsWordBetween front "function" (textOf ts₂) := by
    have hw := isWordChar_of_mem_function
    exact ⟨by decide, hw, hassign.front_end, fun c => a₁.head_textOf (hword ▸ hw)⟩
  rw [textOf_cons, hword, hafter] at hassign t₁
  rw [t₃] at hi
  rw [hafter] at hf
  refine ⟨_, .expression (by simpa only [List.append_assoc] using hassign) hf hi hp, ?_⟩
  rw [t₁]
  simp only [List.append_assoc]

/-- A line that opens a function is the written head and the rest of the line. -/
theorem isHead_of_opens {line : Text} {head : FunctionHead}
    (h : LineShape.ofLine line = .opens head) :
    ∃ text, IsHead head.form head.name head.params text head.rest ∧ line = text ++ head.rest := by
  have ha := areTokens_tokens line
  have hf : functionHead? (tokens line) = some head := by
    rw [LineShape.ofLine] at h
    split at h
    · rename_i head' hh
      rw [hh, LineShape.opens.inj h]
    · split at h <;> simp at h
  rw [← textOf_tokens line]
  simp only [functionHead?, Option.orElse_eq_orElse, Option.orElse_eq_or,
    Option.or_eq_some_iff] at hf
  rcases hf with hf | ⟨-, hf | ⟨-, hf⟩⟩
  · exact isHead_of_declarationHead? ha hf
  · exact isHead_of_arrowHead? ha hf
  · exact isHead_of_expressionHead? ha hf

/-! ## Variables -/

/-- A declaring word is a fixed token. -/
theorem mem_fixedTokens_of_declarationWord? {kind : TokenKind} {word : DeclarationWord}
    (h : declarationWord? kind = some word) : (word.text, kind) ∈ fixedTokens := by
  cases kind <;> simp only [declarationWord?, reduceCtorEq, Option.some.injEq] at h <;>
    subst h <;> decide

/-- There is a value unless the text behind the equals sign is blank. -/
theorem initializer?_eq_none_iff {tail : Text} :
    initializer? tail = none ↔ allBlank tail = true := by
  rw [initializer?, ← trim_eq_nil_iff]
  simp

/-- A value is the trimmed text without one final semicolon. -/
theorem trim_of_initializer? {tail value : Text} (h : initializer? tail = some value) :
    trim tail = value ++ [';'] ∨ trim tail = value ∧ value.getLast? ≠ some ';' := by
  rw [initializer?] at h
  split at h
  · simp at h
  · rw [Option.some.injEq, dropSemicolon] at h
    split at h
    · rename_i hs
      exact .inl (h ▸ (List.dropLast_append_getLast? _ hs).symm)
    · rename_i hs
      exact .inr ⟨h, h ▸ hs⟩

/-- A line that declares a variable is written from its parts. -/
theorem isWritten_of_state {line : Text} {s : StateStatement}
    (h : LineShape.ofLine line = .state s) : ∃ space gap tail, IsWritten s space gap tail := by
  have ha := areTokens_tokens line
  have hs : stateStatement? (tokens line) = some s := by
    rw [LineShape.ofLine] at h
    split at h
    · simp at h
    · split at h
      · rename_i s' hs'
        rw [hs', LineShape.state.inj h]
      · simp at h
  simp only [stateStatement?, Option.bind_eq_bind, Option.bind_eq_some_iff] at hs
  obtain ⟨first, h₀, word, hw, ⟨space, ts₁⟩, h₁, ⟨name, ts₂⟩, h₂, tail, h₃, he⟩ := hs
  obtain ⟨ts, hts⟩ := List.head?_eq_some_iff.1 h₀
  rw [hts, List.tail_cons] at h₁
  obtain ⟨rfl, k₁⟩ := eat?_eq_some_iff.1 h₁
  obtain ⟨rfl, k₂⟩ := eat?_eq_some_iff.1 h₂
  rw [hts] at ha he
  have hfirst : first.text = word.text := ha.text_eq (mem_fixedTokens_of_declarationWord? hw)
  obtain ⟨hspace, hname⟩ := ha.isIdentifierBetween_of_space k₁ k₂ word.text
  obtain ⟨gap, hg, t₂, a₂⟩ := ha.tail.tail.tail.exists_gap
  have hsign : textOf (skipSpace ts₂) = "=" ++ tail := by
    cases hr : skipSpace ts₂ with
    | nil => simp [hr, afterEquals?] at h₃
    | cons sign rest =>
      rw [hr] at a₂ h₃
      simp only [afterEquals?] at h₃
      split at h₃
      · rename_i hk
        obtain rfl := Option.some.inj h₃
        rcases hk with hk | hk
        · have ht : sign.text = "=".toList := a₂.text_eq (hk ▸ by decide)
          rw [textOf_cons, ht]
          rfl
        · have ht : sign.text = "=>".toList := a₂.text_eq (hk ▸ by decide)
          rw [textOf_cons, ht]
          rfl
      · simp at h₃
  have hafter : textOf ts₂ = gap ++ "=" ++ tail := by
    rw [t₂, hsign, List.append_assoc]
  rw [hafter] at hname
  rw [← Option.some.inj he]
  refine ⟨space.text, gap, tail, hspace, hg, hname, ?_, initializer?_eq_none_iff,
    fun value hv => trim_of_initializer? hv⟩
  change textOf (first :: space :: name :: ts₂) = _
  rw [textOf_cons, textOf_cons, textOf_cons, hafter, hfirst]
  simp only [List.append_assoc]

end VueSfc.Script
