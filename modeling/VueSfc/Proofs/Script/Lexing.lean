import VueSfc.Proofs.Script.Written

/-!
# The tokens of joined texts

Where the last character of a text does not join the first one behind it, the tokens of the two
texts together are those of the one followed by those of the other. So the tokens of a line that is
given in pieces are found piece by piece: a whole word, a run of spaces, a mark, or the arrow.
-/

namespace VueSfc.Script

open Text

/-- No lexeme goes on from the end of one text into another text. -/
def Breaks (front back : Text) : Prop :=
  ∀ c ∈ front.getLast?, ∀ d ∈ back.head?, ∀ r, joins c (d :: r) = false

/-! ## Breaks -/

/-- A character other than these joins nothing: word characters, spaces and the equals sign. -/
theorem joins_eq_false {c : Char} (hw : isWordChar c = false) (hs : isSpaceChar c = false)
    (he : c ≠ '=') (next : Text) : joins c next = false := by
  cases next with
  | nil => rfl
  | cons d r => simp [joins, hw, hs, he]

/-- Nothing joins a character other than these: word characters, spaces and the end of an arrow. -/
theorem joins_cons_eq_false {d : Char} (hw : isWordChar d = false) (hs : isSpaceChar d = false)
    (he : d ≠ '>') (c : Char) (r : Text) : joins c (d :: r) = false := by
  simp [joins, hw, hs, he]

/-- The equals sign joins only the end of an arrow. -/
theorem joins_equals {d : Char} (hd : d ≠ '>') (r : Text) : joins '=' (d :: r) = false := by
  have hw : isWordChar '=' = false := by decide
  have hs : isSpaceChar '=' = false := by decide
  simp [joins, hw, hs, hd]

/-- A word character is no character of a space token. -/
theorem isSpaceChar_of_isWordChar {c : Char} (h : isWordChar c = true) : isSpaceChar c = false := by
  by_contra hs
  rw [isWordChar_of_isSpaceChar (by simpa using hs)] at h
  contradiction

/-- A word breaks off before what does not go on with it. -/
theorem breaks_of_word {word after : Text} (hw : ∀ c ∈ word, isWordChar c = true)
    (ha : ∀ d ∈ after.head?, isWordChar d = false) : Breaks word after := by
  intro c hc d hd r
  have hword := hw c (List.mem_of_getLast? hc)
  have he : c ≠ '=' := by
    rintro rfl
    exact absurd hword (by decide)
  simp [joins, ha d hd, isSpaceChar_of_isWordChar hword, he]

/-- Spaces break off before what is no space. -/
theorem breaks_of_spaces {gap after : Text} (hg : IsSpaces gap)
    (ha : ∀ d ∈ after.head?, isSpaceChar d = false) : Breaks gap after := by
  intro c hc d hd r
  have hspace := hg c (List.mem_of_getLast? hc)
  have he : c ≠ '=' := by
    rintro rfl
    exact absurd hspace (by decide)
  simp [joins, ha d hd, isWordChar_of_isSpaceChar hspace, he]

/-! ## Lexemes -/

/-- A text that is not empty has lexemes. -/
theorem lexemes_ne_nil {text : Text} (h : text ≠ []) : lexemes text ≠ [] := by
  intro he
  have hf := flatten_lexemes text
  rw [he] at hf
  exact h hf.symm

/-- The first lexeme of a text begins as the text does. -/
theorem head?_of_lexemes_cons {text l : Text} {ls : List Text} (h : lexemes text = l :: ls) :
    ∃ d r, l = d :: r ∧ text.head? = some d := by
  have hl : IsLexeme l := (isLexeme_lexemes text).1 l (h ▸ List.mem_cons_self)
  obtain ⟨d, r, rfl⟩ := List.exists_cons_of_ne_nil hl.ne_nil
  refine ⟨d, r, rfl, ?_⟩
  rw [← flatten_lexemes text, h]
  rfl

/-- Texts with a break between them have the lexemes of the one and then those of the other. -/
theorem lexemes_append {front back : Text} (h : Breaks front back) :
    lexemes (front ++ back) = lexemes front ++ lexemes back := by
  induction front with
  | nil => rfl
  | cons c front ih =>
    change consLexeme c (lexemes (front ++ back)) = consLexeme c (lexemes front) ++ lexemes back
    cases front with
    | nil =>
      cases hb : lexemes back with
      | nil => rw [List.nil_append, hb]; rfl
      | cons l ls =>
        obtain ⟨d, r, rfl, hd⟩ := head?_of_lexemes_cons hb
        have hj := h c rfl d hd r
        rw [List.nil_append, hb, consLexeme, hj]
        rfl
    | cons e front =>
      have htail : Breaks (e :: front) back := by
        intro c' hc'
        exact h c' (by rwa [List.getLast?_cons_cons])
      rw [ih htail]
      obtain ⟨l, ls, hl⟩ := List.exists_cons_of_ne_nil (lexemes_ne_nil (List.cons_ne_nil e front))
      rw [hl, List.cons_append, consLexeme, consLexeme]
      split <;> rfl

/-- A text whose characters all join each other is one lexeme. -/
theorem lexemes_eq_singleton {text : Text} (hn : text ≠ [])
    (h : ∀ c ∈ text, ∀ d ∈ text, ∀ r, joins c (d :: r) = true) : lexemes text = [text] := by
  induction text with
  | nil => exact absurd rfl hn
  | cons c text ih =>
    cases text with
    | nil => rfl
    | cons d text =>
      have htail := ih (List.cons_ne_nil d text) fun a ha b hb =>
        h a (List.mem_cons_of_mem _ ha) b (List.mem_cons_of_mem _ hb)
      have hj := h c List.mem_cons_self d (List.mem_cons_of_mem _ List.mem_cons_self) text
      change consLexeme c (lexemes (d :: text)) = _
      rw [htail, consLexeme, hj]
      rfl

/-! ## Tokens -/

/-- Texts with a break between them have the tokens of the one and then those of the other. -/
theorem tokens_append {front back : Text} (h : Breaks front back) :
    tokens (front ++ back) = tokens front ++ tokens back := by
  rw [tokens, lexemes_append h, List.map_append]
  rfl

/-- A whole word is one token. -/
theorem tokens_word {before word after : Text} (h : IsWordBetween before word after) :
    tokens (word ++ after) = Token.ofText word :: tokens after := by
  rw [tokens_append (breaks_of_word h.chars h.after_start), tokens, lexemes_eq_singleton h.ne_nil]
  · rfl
  · intro c hc d hd r
    simp [joins, h.chars c hc, h.chars d hd]

/-- Spaces are one token. -/
theorem tokens_spaces {gap after : Text} (hg : IsSpaces gap) (hn : gap ≠ [])
    (ha : ∀ d ∈ after.head?, isSpaceChar d = false) :
    tokens (gap ++ after) = Token.ofText gap :: tokens after := by
  rw [tokens_append (breaks_of_spaces hg ha), tokens, lexemes_eq_singleton hn]
  · rfl
  · intro c hc d hd r
    simp [joins, hg c hc, hg d hd]

/-- A mark other than the equals sign is a token of its own. -/
theorem tokens_mark {c : Char} (hw : isWordChar c = false) (hs : isSpaceChar c = false)
    (he : c ≠ '=') (after : Text) : tokens (c :: after) = Token.ofText [c] :: tokens after := by
  have hb : Breaks [c] after := by
    intro c' hc' d _ r
    obtain rfl : c = c' := by simpa using hc'
    exact joins_eq_false hw hs he _
  exact tokens_append hb

/-- An equals sign that begins no arrow is a token of its own. -/
theorem tokens_equals {after : Text} (ha : after.head? ≠ some '>') :
    tokens ("=" ++ after) = Token.ofText "=" :: tokens after := by
  have hb : Breaks "=" after := by
    intro c hc d hd r
    obtain rfl : '=' = c := by simpa using hc
    refine joins_equals ?_ r
    rintro rfl
    exact ha hd
  exact tokens_append hb

/-- The arrow is a token. -/
theorem tokens_arrow (after : Text) :
    tokens ("=>" ++ after) = Token.ofText "=>" :: tokens after := by
  have hb : Breaks "=>" after := by
    intro c hc d _ r
    obtain rfl : '>' = c := by simpa using hc
    exact joins_eq_false (by decide) (by decide) (by decide) _
  exact tokens_append hb

/-! ## Kinds of tokens -/

/-- A whole word that is no keyword is a name. -/
theorem kindOf_identifier {before word after : Text} (h : IsIdentifierBetween before word after) :
    kindOf word = .name := by
  have hfixed : (fixedTokens.map Prod.fst).all
      (fun text => keywords.contains text || !text.all isWordChar) = true := by decide
  obtain ⟨c, r, hc⟩ := List.exists_cons_of_ne_nil h.ne_nil
  have hword : isWordChar c = true := h.chars c (hc ▸ List.mem_cons_self)
  rcases kindOf_cases word with hm | ⟨-, hk⟩
  · have hone := List.all_eq_true.1 hfixed word (List.mem_map_of_mem hm)
    rw [List.all_eq_true.2 h.chars, Bool.not_true, Bool.or_false, List.contains_iff_mem] at hone
    exact absurd hone h.not_keyword
  · rw [hk, hc, List.head?_cons, kindOfFirst, if_pos hword]

/-- Spaces are a space token. -/
theorem kindOf_spaces {gap : Text} (hg : IsSpaces gap) (hn : gap ≠ []) : kindOf gap = .space := by
  have hfixed : (fixedTokens.map Prod.fst).all (fun text => !text.all isSpaceChar) = true := by
    decide
  obtain ⟨c, r, hc⟩ := List.exists_cons_of_ne_nil hn
  have hspace : isSpaceChar c = true := hg c (hc ▸ List.mem_cons_self)
  rcases kindOf_cases gap with hm | ⟨-, hk⟩
  · have hone := List.all_eq_true.1 hfixed gap (List.mem_map_of_mem hm)
    rw [List.all_eq_true.2 hg] at hone
    contradiction
  · rw [hk, hc, List.head?_cons, kindOfFirst, isWordChar_of_isSpaceChar hspace,
      if_neg Bool.false_ne_true, if_pos hspace]

/-- Spaces in front of a text that begins with none are left out. -/
theorem skipSpace_tokens {gap after : Text} (hg : IsSpaces gap)
    (ha : ∀ d ∈ after.head?, isSpaceChar d = false) :
    skipSpace (tokens (gap ++ after)) = tokens after := by
  by_cases hn : gap = []
  · subst hn
    rw [List.nil_append]
    cases hl : lexemes after with
    | nil => rw [tokens, hl]; rfl
    | cons l ls =>
      obtain ⟨d, r, rfl, hd⟩ := head?_of_lexemes_cons hl
      have hlexeme : IsLexeme (d :: r) := (isLexeme_lexemes after).1 _ (hl ▸ List.mem_cons_self)
      rw [tokens, hl, List.map_cons, skipSpace, if_neg]
      intro hk
      have hspace := isSpace_of_space hlexeme hk d List.mem_cons_self
      rw [ha d hd] at hspace
      contradiction
  · rw [tokens_spaces hg hn ha, skipSpace]
    exact if_pos (kindOf_spaces hg hn)

/-! ## Brackets -/

/-- The text through a token is found where no token before it has its kind. -/
theorem through?_append {kind : TokenKind} {ts rest : List Token} {t : Token}
    (hts : ∀ u ∈ ts, u.kind ≠ kind) (ht : t.kind = kind) :
    through? kind (ts ++ t :: rest) = some (textOf ts ++ t.text, rest) := by
  induction ts with
  | nil => simp [through?, ht, textOf]
  | cons u ts ih =>
    have hrest := ih fun v hv => hts v (List.mem_cons_of_mem _ hv)
    rw [List.cons_append, through?, if_neg (hts u List.mem_cons_self), hrest, textOf_cons,
      List.append_assoc]
    rfl

/-- A text is bracketed where a bracket opens and the next closing one follows. -/
theorem bracketed?_tokens {params : Text} (hp : IsBracketed params) (after : Text) :
    bracketed? (tokens (params ++ after)) = some (params, tokens after) := by
  obtain ⟨inside, hi, rfl⟩ := hp
  have hclose : Breaks inside (')' :: after) := by
    intro c _ d hd r
    obtain rfl : ')' = d := by simpa using hd
    exact joins_cons_eq_false (by decide) (by decide) (by decide) c r
  have htokens : tokens ('(' :: (inside ++ [')']) ++ after) =
      Token.ofText ['('] :: (tokens inside ++ Token.ofText [')'] :: tokens after) := by
    rw [List.cons_append, List.append_assoc, tokens_mark (by decide) (by decide) (by decide),
      List.singleton_append, tokens_append hclose,
      tokens_mark (by decide) (by decide) (by decide)]
  have hinside : ∀ t ∈ tokens inside, t.kind ≠ .closeParen := by
    intro t ht hk
    have hone : t.text = ")".toList := by
      refine eq_of_mem_fixedTokens ?_
      rw [← (areTokens_tokens inside).kind_eq t ht, hk]
      decide
    have hmem : ')' ∈ textOf (tokens inside) :=
      List.mem_flatMap.2 ⟨t, ht, hone ▸ List.mem_singleton_self _⟩
    rw [textOf_tokens] at hmem
    exact hi hmem
  have hthrough : through? .closeParen (tokens inside ++ Token.ofText [')'] :: tokens after) =
      some (inside ++ [')'], tokens after) := by
    rw [through?_append hinside rfl, textOf_tokens]
    rfl
  have heat : eat? .openParen (tokens ('(' :: (inside ++ [')']) ++ after)) =
      some (Token.ofText ['('], tokens inside ++ Token.ofText [')'] :: tokens after) :=
    eat?_eq_some_iff.2 ⟨htokens, rfl⟩
  rw [bracketed?, heat]
  simp only [Option.bind_eq_bind, Option.bind_some, hthrough]
  rfl

end VueSfc.Script
