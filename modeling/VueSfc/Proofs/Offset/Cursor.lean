import VueSfc.Offset.Cursor
import VueSfc.Proofs.Offset.Slice
import VueSfc.Proofs.Script.Lexeme
import VueSfc.Proofs.Script.Written

/-!
# Script lines read by the rules

On a line of fewer than 2³² bytes the offsets in 32 bits are those of the tokens, which lie side by
side. So every range that a cursor takes from the line keeps to the rules, and the shape that is
read is that of the line.
-/

namespace VueSfc.Offset

open Text Script

/-! ## Places -/

/-- Where the text of the tokens at the end of a line starts. -/
def offsetOf (line : Text) (ts : List Token) : Nat := byteSize line - byteSize (textOf ts)

/-- The place before the tokens at the end of a line. -/
def cursorAt (line : Text) (ts : List Token) : Cursor where
  line := line
  ahead := (located (offsetOf line ts) (ts ++ [Token.ofText []])).map fun t =>
    ⟨t.1.kind, t.2.1, t.2.2⟩

theorem line_cursorAt (line : Text) (ts : List Token) : (cursorAt line ts).line = line := rfl

/-- A token before the tokens at the end of a line. -/
def tokenSpanAt (line : Text) (t : Token) (ts : List Token) : TokenSpan :=
  ⟨t.kind, offsetOf line (t :: ts), offsetOf line ts⟩

section

variable {line : Text} {ts : List Token} (h : ts <:+ tokens line)
include h

/-- The line ends with the text of the tokens at its end. -/
theorem exists_front : ∃ front, line = front ++ textOf ts ∧ offsetOf line ts = byteSize front := by
  obtain ⟨before, hb⟩ := h
  have hline : line = textOf before ++ textOf ts := by
    rw [← textOf_append, hb, textOf_tokens]
  refine ⟨textOf before, hline, ?_⟩
  have hs := congrArg byteSize hline
  rw [byteSize_append] at hs
  rw [offsetOf]
  omega

/-- No token at the end of a line is the end itself. -/
theorem kind_ne_lineEnd {t : Token} (ht : t ∈ ts) : t.kind ≠ .lineEnd := by
  have ha := areTokens_tokens line
  have hm := h.subset ht
  have hl := ha.lexeme t hm
  rw [ha.kind_eq t hm]
  intro hk
  obtain ⟨c, r, hc⟩ := List.exists_cons_of_ne_nil hl.ne_nil
  have hfirst : kindOf t.text = kindOfFirst t.text.head? :=
    (kindOf_of_notMem (by rw [hk]; decide)).2
  rw [hfirst, hc, List.head?_cons, kindOfFirst] at hk
  split at hk
  · contradiction
  · split at hk <;> contradiction

end

/-- The tokens from the second on. -/
theorem suffix_of_cons {line : Text} {t : Token} {ts : List Token} (h : t :: ts <:+ tokens line) :
    ts <:+ tokens line :=
  (List.suffix_cons t ts).trans h

/-- The next token lies right before the ones behind it. -/
theorem ahead_cursorAt_cons {line : Text} {t : Token} {ts : List Token}
    (h : t :: ts <:+ tokens line) :
    (cursorAt line (t :: ts)).ahead = tokenSpanAt line t ts :: (cursorAt line ts).ahead := by
  obtain ⟨front, hline, ho⟩ := exists_front h
  have hstop : offsetOf line (t :: ts) + byteSize t.text = offsetOf line ts := by
    have hs := congrArg byteSize hline
    rw [textOf_cons, byteSize_append, byteSize_append] at hs
    rw [ho, offsetOf]
    omega
  simp only [cursorAt, List.cons_append, located, hstop, List.map_cons, tokenSpanAt]

theorem kind_cursorAt_nil (line : Text) : (cursorAt line []).kind = .lineEnd := rfl

theorem kind_cursorAt_cons {line : Text} {t : Token} {ts : List Token}
    (h : t :: ts <:+ tokens line) : (cursorAt line (t :: ts)).kind = t.kind := by
  rw [Cursor.kind, ahead_cursorAt_cons h]
  rfl

section

variable {line : Text} {ts : List Token} (h : ts <:+ tokens line)
include h

theorem offset_cursorAt : (cursorAt line ts).offset = offsetOf line ts := by
  cases ts with
  | nil => rfl
  | cons t ts =>
    rw [Cursor.offset, ahead_cursorAt_cons h]
    rfl

/-- A cursor takes a token where the list of tokens gives it. -/
theorem eat?_cursorAt {kind : TokenKind} (hk : kind ≠ .lineEnd) :
    (cursorAt line ts).eat? kind =
      (Script.eat? kind ts).map fun found =>
        (tokenSpanAt line found.1 found.2, cursorAt line found.2) := by
  cases ts with
  | nil => exact if_neg hk.symm
  | cons t ts =>
    have hend : (tokenSpanAt line t ts).kind ≠ .lineEnd := kind_ne_lineEnd h List.mem_cons_self
    rw [Cursor.eat?, kind_cursorAt_cons h, Script.eat?]
    split
    · rw [Cursor.bump?, ahead_cursorAt_cons h]
      dsimp only
      rw [if_neg hend]
      rfl
    · rfl

/-- Either neither the cursor nor the list of tokens gives a token of a kind, or both do. -/
theorem eat?_cases (kind : TokenKind) (hk : kind ≠ .lineEnd) :
    (Script.eat? kind ts = none ∧ (cursorAt line ts).eat? kind = none) ∨
      ∃ t rest, t :: rest <:+ tokens line ∧ rest <:+ tokens line ∧ ts = t :: rest ∧ t.kind = kind ∧
        Script.eat? kind ts = some (t, rest) ∧
        (cursorAt line ts).eat? kind = some (tokenSpanAt line t rest, cursorAt line rest) := by
  have heat := eat?_cursorAt h hk
  cases he : Script.eat? kind ts with
  | none =>
    rw [he] at heat
    exact .inl ⟨rfl, heat⟩
  | some found =>
    obtain ⟨t, rest⟩ := found
    obtain ⟨rfl, htk⟩ := eat?_eq_some_iff.1 he
    rw [he] at heat
    exact .inr ⟨t, rest, h, suffix_of_cons h, rfl, htk, rfl, heat⟩

theorem skipSpace_cursorAt : (cursorAt line ts).skipSpace = cursorAt line (skipSpace ts) := by
  rw [Cursor.skipSpace]
  rcases eat?_cases h .space (by decide) with ⟨he, hc⟩ | ⟨t, rest, -, -, rfl, hk, -, hc⟩
  · have hskip : skipSpace ts = ts := by
      cases ts with
      | nil => rfl
      | cons t ts =>
        refine if_neg fun hk => ?_
        rw [Script.eat?, if_pos hk] at he
        contradiction
    rw [hc, hskip]
  · rw [hc, skipSpace, if_pos hk]

/-- The tokens behind a space are at the end of the line. -/
theorem suffix_skipSpace : skipSpace ts <:+ tokens line := by
  cases ts with
  | nil => exact h
  | cons t ts =>
    rw [skipSpace]
    split
    · exact suffix_of_cons h
    · exact h

/-- A cursor moves behind the tokens whose text is read. -/
theorem skipPast?_cursorAt (kind : TokenKind) :
    (cursorAt line ts).skipPast? kind =
      (through? kind ts).map fun found => cursorAt line found.2 := by
  induction ts with
  | nil => rfl
  | cons t ts ih =>
    have hend : (tokenSpanAt line t ts).kind ≠ .lineEnd := kind_ne_lineEnd h List.mem_cons_self
    rw [Cursor.skipPast?, ahead_cursorAt_cons h, Cursor.tokensPast?, if_neg hend, through?]
    change Option.map _ (if t.kind = kind then _ else _) = _
    split
    · rfl
    · rw [Option.map_map]
      exact ih (suffix_of_cons h)

/-- The text through a token stands before that of the tokens behind it. -/
theorem suffix_of_through? {kind : TokenKind} {front : Text} {back : List Token}
    (ht : through? kind ts = some (front, back)) :
    back <:+ tokens line ∧ textOf ts = front ++ textOf back := by
  induction ts generalizing front with
  | nil => contradiction
  | cons t ts ih =>
    rw [through?] at ht
    split at ht
    · obtain ⟨rfl, rfl⟩ := Prod.mk.inj (Option.some.inj ht)
      exact ⟨suffix_of_cons h, textOf_cons t ts⟩
    · obtain ⟨⟨front', back'⟩, hf, he⟩ := Option.map_eq_some_iff.1 ht
      obtain ⟨rfl, rfl⟩ := Prod.mk.inj he
      obtain ⟨hb, htext⟩ := ih (suffix_of_cons h) hf
      exact ⟨hb, by rw [textOf_cons, htext, List.append_assoc]⟩

/-- The text from a place on keeps to the rules. -/
theorem rest_cursorAt : (cursorAt line ts).rest = .ok (textOf ts) := by
  obtain ⟨front, hline, ho⟩ := exists_front h
  rw [Cursor.rest, offset_cursorAt h]
  exact sliceFrom_eq hline ho

/-- The text between two places keeps to the rules. -/
theorem upTo_cursorAt {later : List Token} (hl : later <:+ tokens line) {between : Text}
    (ht : textOf ts = between ++ textOf later) :
    (cursorAt line ts).upTo (cursorAt line later) = .ok between := by
  obtain ⟨front, hline, ho⟩ := exists_front h
  rw [ht, ← List.append_assoc] at hline
  rw [Cursor.upTo, offset_cursorAt h, offset_cursorAt hl]
  refine slice_eq hline ho ?_
  have hs := congrArg byteSize hline
  rw [byteSize_append, byteSize_append] at hs
  rw [ho, offsetOf]
  omega

end

/-- The text of a token keeps to the rules. -/
theorem text_tokenSpanAt {line : Text} {t : Token} {ts : List Token} (h : t :: ts <:+ tokens line)
    (before : List Token) : (cursorAt line before).text (tokenSpanAt line t ts) = .ok t.text := by
  have hbetween := upTo_cursorAt h (suffix_of_cons h) (textOf_cons t ts)
  rw [Cursor.upTo, offset_cursorAt h, offset_cursorAt (suffix_of_cons h)] at hbetween
  exact hbetween

/-! ## Shapes -/

section

variable {line : Text} {ts : List Token} (h : ts <:+ tokens line)
include h

/-- A bracketed list is what lies between its first bracket and the place behind its last one. -/
theorem bracketed?_cases :
    (bracketed? ts = none ∧ ((cursorAt line ts).eat? .openParen).bind
        (fun found => found.2.skipPast? .closeParen) = none) ∨
      ∃ params rest, rest <:+ tokens line ∧ bracketed? ts = some (params, rest) ∧
        ((cursorAt line ts).eat? .openParen).bind (fun found => found.2.skipPast? .closeParen) =
          some (cursorAt line rest) ∧
        (cursorAt line ts).upTo (cursorAt line rest) = .ok params := by
  rw [bracketed?]
  rcases eat?_cases h .openParen (by decide) with
    ⟨he, hc⟩ | ⟨bracket, ts', -, hs, rfl, -, he, hc⟩
  · rw [he, hc]
    exact .inl ⟨rfl, rfl⟩
  · rw [he, hc]
    simp only [Option.bind_eq_bind, Option.bind_some, Option.pure_def]
    rw [skipPast?_cursorAt hs]
    cases ht : through? .closeParen ts' with
    | none => exact .inl ⟨rfl, rfl⟩
    | some found =>
      obtain ⟨inside, rest⟩ := found
      obtain ⟨hr, htext⟩ := suffix_of_through? hs ht
      refine .inr ⟨_, rest, hr, rfl, rfl, upTo_cursorAt h hr ?_⟩
      rw [textOf_cons, htext, List.append_assoc]

theorem paramsAndRest_cursorAt :
    (cursorAt line ts).paramsAndRest = .ok (Script.paramsAndRest ts) := by
  rw [Cursor.paramsAndRest, skipSpace_cursorAt h, Script.paramsAndRest]
  rcases bracketed?_cases (suffix_skipSpace h) with ⟨hb, hc⟩ | ⟨params, rest, hr, hb, hc, hp⟩
  · rw [hb, hc]
    dsimp only
    rw [rest_cursorAt h]
    rfl
  · rw [hb, hc]
    dsimp only
    rw [hp, ok_bind, rest_cursorAt hr]
    rfl

theorem constAssignment_cases :
    (constAssignment? ts = none ∧ (cursorAt line ts).constAssignment = .ok none) ∨
      ∃ name rest, rest <:+ tokens line ∧ constAssignment? ts = some (name, rest) ∧
        (cursorAt line ts).constAssignment = .ok (some (name, cursorAt line rest)) := by
  rw [Cursor.constAssignment, constAssignment?]
  rcases eat?_cases h .constWord (by decide) with
    ⟨he, hc⟩ | ⟨word, ts₁, -, h₁, rfl, -, he, hc⟩
  · rw [he, hc]
    exact .inl ⟨rfl, rfl⟩
  rw [he, hc]
  simp only [Option.bind_eq_bind, Option.bind_some, Option.pure_def]
  rcases eat?_cases h₁ .space (by decide) with ⟨he, hc⟩ | ⟨space, ts₂, -, h₂, rfl, -, he, hc⟩
  · rw [he, hc]
    exact .inl ⟨rfl, rfl⟩
  rw [he, hc]
  simp only [Option.bind_some]
  rcases eat?_cases h₂ .name (by decide) with ⟨he, hc⟩ | ⟨name, ts₃, hname, h₃, rfl, -, he, hc⟩
  · rw [he, hc]
    exact .inl ⟨rfl, rfl⟩
  rw [he, hc]
  simp only [Option.bind_some]
  rw [skipSpace_cursorAt h₃]
  rcases eat?_cases (suffix_skipSpace h₃) .assign (by decide) with
    ⟨he, hc⟩ | ⟨sign, ts₄, -, h₄, -, -, he, hc⟩
  · rw [he, hc]
    exact .inl ⟨rfl, rfl⟩
  rw [he, hc]
  simp only [Option.bind_some]
  rw [skipSpace_cursorAt h₄, text_tokenSpanAt hname]
  exact .inr ⟨_, _, suffix_skipSpace h₄, rfl, rfl⟩

theorem declarationHead_cursorAt :
    (cursorAt line ts).declarationHead = .ok (declarationHead? ts) := by
  rw [Cursor.declarationHead, declarationHead?]
  rcases eat?_cases h .functionWord (by decide) with
    ⟨he, hc⟩ | ⟨word, ts₁, -, h₁, rfl, -, he, hc⟩
  · rw [he, hc]
    rfl
  rw [he, hc]
  simp only [Option.bind_eq_bind, Option.bind_some, Option.pure_def]
  rcases eat?_cases h₁ .space (by decide) with ⟨he, hc⟩ | ⟨space, ts₂, -, h₂, rfl, -, he, hc⟩
  · rw [he, hc]
    rfl
  rw [he, hc]
  simp only [Option.bind_some]
  rcases eat?_cases h₂ .name (by decide) with ⟨he, hc⟩ | ⟨name, ts₃, hname, h₃, rfl, -, he, hc⟩
  · rw [he, hc]
    rfl
  rw [he, hc]
  simp only [Option.bind_some]
  rw [paramsAndRest_cursorAt h₃, ok_bind, text_tokenSpanAt hname]
  rfl

omit h in
/-- A list in brackets is what lies through the first closing bracket. -/
theorem bracketed?_eq_through? {t : Token} (hk : t.kind = .openParen) (ts : List Token) :
    bracketed? (t :: ts) = through? .closeParen (t :: ts) := by
  have hc : t.kind ≠ .closeParen := by
    rw [hk]
    decide
  rw [bracketed?, Script.eat?, if_pos hk, through?, if_neg hc]
  simp only [Option.bind_eq_bind, Option.bind_some, Option.pure_def]
  cases through? .closeParen ts <;> rfl

theorem arrowParams_cases :
    (arrowParams? ts = none ∧ (cursorAt line ts).arrowParams = .ok none) ∨
      ∃ params rest, rest <:+ tokens line ∧ arrowParams? ts = some (params, rest) ∧
        (cursorAt line ts).arrowParams = .ok (some (params, cursorAt line rest)) := by
  cases ts with
  | nil => exact .inl ⟨rfl, rfl⟩
  | cons t ts =>
    rw [Cursor.arrowParams, kind_cursorAt_cons h, arrowParams?]
    split
    · rename_i hk
      rw [bracketed?_eq_through? hk, skipPast?_cursorAt h]
      cases ht : through? .closeParen (t :: ts) with
      | none =>
        have hn : t.kind ≠ .name := by
          rw [hk]
          decide
        rw [Script.eat?, if_neg hn]
        exact .inl ⟨rfl, rfl⟩
      | some found =>
        obtain ⟨params, rest⟩ := found
        obtain ⟨hr, htext⟩ := suffix_of_through? h ht
        rw [Option.map_some]
        dsimp only
        rw [upTo_cursorAt h hr htext]
        exact .inr ⟨params, rest, hr, rfl, rfl⟩
    · rename_i hk
      have hb : bracketed? (t :: ts) = none := by
        rw [bracketed?, Script.eat?, hk]
        rfl
      rw [hb]
      rcases eat?_cases h .name (by decide) with ⟨he, hc⟩ | ⟨u, rest, hu, hr, -, -, he, hc⟩
      · rw [he, hc]
        exact .inl ⟨rfl, rfl⟩
      · rw [he, hc]
        dsimp only
        rw [text_tokenSpanAt hu]
        exact .inr ⟨u.text, rest, hr, rfl, rfl⟩
    · rename_i hp hn
      have hb : bracketed? (t :: ts) = none := by
        rw [bracketed?, Script.eat?, if_neg hp]
        rfl
      rw [hb, Script.eat?, if_neg hn]
      exact .inl ⟨rfl, rfl⟩

theorem arrowHead_cursorAt : (cursorAt line ts).arrowHead = .ok (arrowHead? ts) := by
  rw [Cursor.arrowHead, arrowHead?]
  rcases constAssignment_cases h with ⟨he, hc⟩ | ⟨name, ts₁, h₁, he, hc⟩
  · rw [he, hc]
    rfl
  rw [he, hc, ok_bind]
  simp only [Option.bind_eq_bind, Option.bind_some, Option.pure_def]
  rcases arrowParams_cases h₁ with ⟨he, hc⟩ | ⟨params, ts₂, h₂, he, hc⟩
  · rw [he, hc]
    rfl
  rw [he, hc, ok_bind, Option.bind_some]
  dsimp only
  rw [skipSpace_cursorAt h₂]
  rcases eat?_cases (suffix_skipSpace h₂) .arrow (by decide) with
    ⟨he, hc⟩ | ⟨sign, ts₃, -, h₃, -, -, he, hc⟩
  · rw [he, hc]
    rfl
  rw [he, hc]
  dsimp only
  rw [skipSpace_cursorAt h₃, rest_cursorAt (suffix_skipSpace h₃)]
  rfl

theorem skipInnerName_cursorAt :
    (cursorAt line ts).skipInnerName = cursorAt line (skipInnerName ts) ∧
      skipInnerName ts <:+ tokens line := by
  rw [Cursor.skipInnerName, skipSpace_cursorAt h, skipInnerName]
  rcases eat?_cases (suffix_skipSpace h) .name (by decide) with
    ⟨he, hc⟩ | ⟨name, rest, -, hr, -, -, he, hc⟩
  · rw [he, hc]
    exact ⟨rfl, h⟩
  · rw [he, hc]
    exact ⟨rfl, hr⟩

theorem expressionHead_cursorAt : (cursorAt line ts).expressionHead = .ok (expressionHead? ts) := by
  rw [Cursor.expressionHead, expressionHead?]
  rcases constAssignment_cases h with ⟨he, hc⟩ | ⟨name, ts₁, h₁, he, hc⟩
  · rw [he, hc]
    rfl
  rw [he, hc, ok_bind]
  simp only [Option.bind_eq_bind, Option.bind_some, Option.pure_def]
  rcases eat?_cases h₁ .functionWord (by decide) with
    ⟨he, hc⟩ | ⟨word, ts₂, -, h₂, -, -, he, hc⟩
  · rw [he, hc]
    rfl
  obtain ⟨hskip, h₃⟩ := skipInnerName_cursorAt h₂
  rw [he, hc, Option.bind_some]
  dsimp only
  rw [hskip, paramsAndRest_cursorAt h₃]
  rfl

/-- Only a line that begins with `function` or `const` can open a function, and each word leads to
heads of its own. -/
theorem functionHead_cursorAt : (cursorAt line ts).functionHead = .ok (functionHead? ts) := by
  have hconst : (∀ t rest, ts = t :: rest → t.kind ≠ .constWord) →
      arrowHead? ts = none ∧ expressionHead? ts = none := by
    intro hne
    have he : Script.eat? .constWord ts = none := by
      rcases eat?_cases h .constWord (by decide) with ⟨he, -⟩ | ⟨t, rest, -, -, hts, hk, -, -⟩
      · exact he
      · exact absurd hk (hne t rest hts)
    have ha : constAssignment? ts = none := by
      rw [constAssignment?, he]
      rfl
    rw [arrowHead?, expressionHead?, ha]
    exact ⟨rfl, rfl⟩
  have hfunction : (∀ t rest, ts = t :: rest → t.kind ≠ .functionWord) →
      declarationHead? ts = none := by
    intro hne
    rcases eat?_cases h .functionWord (by decide) with ⟨he, -⟩ | ⟨t, rest, -, -, hts, hk, -, -⟩
    · rw [declarationHead?, he]
      rfl
    · exact absurd hk (hne t rest hts)
  rw [functionHead?, Cursor.functionHead]
  cases ts with
  | nil => rfl
  | cons t ts =>
    rw [kind_cursorAt_cons h]
    split
    · rename_i hk
      obtain ⟨ha, he⟩ := hconst fun u rest hu => by
        rw [← (List.cons.inj hu).1, hk]
        decide
      rw [declarationHead_cursorAt h, ha, he]
      cases declarationHead? (t :: ts) <;> rfl
    · rename_i hk
      have hd := hfunction fun u rest hu => by
        rw [← (List.cons.inj hu).1, hk]
        decide
      rw [arrowHead_cursorAt h, ok_bind, hd]
      cases arrowHead? (t :: ts) with
      | none =>
        dsimp only
        rw [expressionHead_cursorAt h]
        rfl
      | some head => rfl
    · rename_i hf hc
      have hd := hfunction fun u rest hu => by
        rw [← (List.cons.inj hu).1]
        exact hf
      obtain ⟨ha, he⟩ := hconst fun u rest hu => by
        rw [← (List.cons.inj hu).1]
        exact hc
      rw [hd, ha, he]
      rfl

/-- The text behind the first character of an equals sign or an arrow keeps to the rules. -/
theorem afterEquals?_cases :
    (afterEquals? ts = none ∧
        ¬ ((cursorAt line ts).kind = .assign ∨ (cursorAt line ts).kind = .arrow)) ∨
      ∃ tail, afterEquals? ts = some tail ∧
        ((cursorAt line ts).kind = .assign ∨ (cursorAt line ts).kind = .arrow) ∧
        sliceFrom line ((cursorAt line ts).offset + 1) = .ok tail := by
  cases ts with
  | nil =>
    rw [kind_cursorAt_nil]
    exact .inl ⟨rfl, by decide⟩
  | cons t ts =>
    rw [kind_cursorAt_cons h, afterEquals?]
    by_cases hk : t.kind = .assign ∨ t.kind = .arrow
    · obtain ⟨front, hline, ho⟩ := exists_front h
      have hareTokens : AreTokens (t :: ts) := by
        obtain ⟨before, hb⟩ := h
        have ha := areTokens_tokens line
        rw [← hb] at ha
        exact ha.of_append
      have hsign : t.text = '=' :: t.text.tail := by
        rcases hk with hk | hk
        · rw [show t.text = "=".toList from hareTokens.text_eq (hk ▸ by decide)]
          rfl
        · rw [show t.text = "=>".toList from hareTokens.text_eq (hk ▸ by decide)]
          rfl
      have hsplit : line = (front ++ ['=']) ++ (t.text.tail ++ textOf ts) := by
        rw [hline, textOf_cons, hsign]
        simp
      refine .inr ⟨t.text.tail ++ textOf ts, if_pos hk, hk, sliceFrom_eq hsplit ?_⟩
      rw [offset_cursorAt h, ho, byteSize_append]
      rfl
    · exact .inl ⟨if_neg hk, hk⟩

end

theorem stateStatement_cursorAt {line : Text} {ts : List Token} (hts : ts = tokens line) :
    (cursorAt line ts).stateStatement = .ok (stateStatement? ts) := by
  have hline : textOf ts = line := hts ▸ textOf_tokens line
  have h : ts <:+ tokens line := hts ▸ List.suffix_rfl
  rw [Cursor.stateStatement, stateStatement?, hline]
  clear hts hline
  cases ts with
  | nil => rfl
  | cons t ts =>
    have hbump : (cursorAt line (t :: ts)).bump? =
        some (tokenSpanAt line t ts, cursorAt line ts) := by
      have hend : (tokenSpanAt line t ts).kind ≠ .lineEnd := kind_ne_lineEnd h List.mem_cons_self
      rw [Cursor.bump?, ahead_cursorAt_cons h]
      dsimp only
      rw [if_neg hend]
      rfl
    rw [kind_cursorAt_cons h, hbump, List.head?_cons, List.tail_cons]
    simp only [Option.bind_eq_bind, Option.bind_some, Option.pure_def]
    cases declarationWord? t.kind with
    | none => rfl
    | some word =>
      rw [Option.bind_some]
      dsimp only
      have h₁ := suffix_of_cons h
      rcases eat?_cases h₁ .space (by decide) with ⟨he, hc⟩ | ⟨space, ts₂, -, h₂, rfl, -, he, hc⟩
      · rw [he, hc]
        rfl
      rw [he, hc]
      simp only [Option.bind_some]
      rcases eat?_cases h₂ .name (by decide) with
        ⟨he, hc⟩ | ⟨name, ts₃, hname, h₃, rfl, -, he, hc⟩
      · rw [he, hc]
        rfl
      rw [he, hc]
      simp only [Option.bind_some]
      rw [skipSpace_cursorAt h₃]
      rcases afterEquals?_cases (suffix_skipSpace h₃) with ⟨he, hk⟩ | ⟨tail, he, hk, ht⟩
      · rw [he, if_neg hk]
        rfl
      · rw [he, if_pos hk, line_cursorAt, ht, ok_bind, text_tokenSpanAt hname]
        rfl

/-! ## Spans -/

/-- Every token lies between the first offset and the last one. -/
theorem bounds_of_mem_located {start a b : Nat} {t : Token} {ts : List Token}
    (h : (t, a, b) ∈ located start ts) : a ≤ b ∧ b ≤ start + byteSize (textOf ts) := by
  induction ts generalizing start with
  | nil => exact absurd h List.not_mem_nil
  | cons u us ih =>
    rw [located, List.mem_cons] at h
    rw [textOf_cons, byteSize_append]
    rcases h with h | h
    · obtain ⟨rfl, hab⟩ := Prod.mk.inj h
      obtain ⟨rfl, rfl⟩ := Prod.mk.inj hab
      omega
    · obtain ⟨hab, hb⟩ := ih h
      omega

/-- Steps that keep to the rules, one for each of some items. -/
theorem mapM_eq_ok {α β : Type} {f : α → Checked β} {g : α → β} {items : List α}
    (h : ∀ a ∈ items, f a = .ok (g a)) : items.mapM f = .ok (items.map g) := by
  induction items with
  | nil => rfl
  | cons a items ih =>
    rw [List.forall_mem_cons] at h
    rw [List.mapM_cons, h.1, ok_bind, ih h.2]
    rfl

/-- The tokens of a line with its end are the line. -/
theorem textOf_lineTokens (line : Text) : textOf (lineTokens line) = line := by
  rw [lineTokens, textOf_append, textOf_tokens]
  exact List.append_nil line

/-- The offsets of the tokens of a line fit in 32 bits if the size of the line does. -/
theorem tokenSpans_eq {line : Text} (hs : byteSize line < UInt32.size) :
    tokenSpans line = .ok (cursorAt line (tokens line)).ahead := by
  have hzero : offsetOf line (tokens line) = 0 := by
    rw [offsetOf, textOf_tokens, Nat.sub_self]
  rw [tokenSpans, cursorAt, hzero]
  refine mapM_eq_ok fun t ht => ?_
  obtain ⟨t, a, b⟩ := t
  obtain ⟨hab, hb⟩ := bounds_of_mem_located ht
  rw [textOf_lineTokens, Nat.zero_add] at hb
  have ha : narrow a = a := Nat.mod_eq_of_lt (by omega)
  have hb : narrow b = b := Nat.mod_eq_of_lt (by omega)
  rw [TokenSpan.ofLocated, ha, hb, if_neg (Nat.not_lt.2 hab)]

/-- Reading a line of fewer than 2³² bytes keeps to the rules, and says what the line is. -/
theorem recognize_eq {line : Text} (hs : byteSize line < UInt32.size) :
    recognize line = .ok (LineShape.ofLine line) := by
  have hcursor : (⟨line, (cursorAt line (tokens line)).ahead⟩ : Cursor) =
      cursorAt line (tokens line) := rfl
  rw [recognize, tokenSpans_eq hs, ok_bind]
  dsimp only
  rw [hcursor, functionHead_cursorAt List.suffix_rfl, ok_bind, LineShape.ofLine]
  cases functionHead? (tokens line) with
  | some head => rfl
  | none =>
    dsimp only
    rw [stateStatement_cursorAt rfl, ok_bind]
    cases stateStatement? (tokens line) <;> rfl

end VueSfc.Offset
