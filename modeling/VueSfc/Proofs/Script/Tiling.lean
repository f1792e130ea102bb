import VueSfc.Proofs.Offset.Cursor
import VueSfc.Proofs.Script.Lexing

/-!
# The tiling of a line by its tokens

The tokens of a line lie side by side from its first byte to its last one, each of them is written
as its kind is declared, no word stands beside a word and no space beside a space, and an arrow is
never taken for an equals sign with something behind it. There is only one way to do so: a token
that keeps to this goes on for as long as its kind allows, so it breaks off where the line is cut.
-/

namespace VueSfc

open Text

namespace Script

/-- The kinds of words: the keywords and the names. -/
def TokenKind.isWord : TokenKind → Bool
  | .functionWord | .constWord | .letWord | .varWord | .name => true
  | _ => false

/-- How a token of some kind is declared to be written. -/
inductive IsDeclared : TokenKind → Text → Prop
  /-- In the one way, if it is always written in the same way. -/
  | fixed {kind : TokenKind} {text : Text} (h : (text, kind) ∈ fixedTokens) : IsDeclared kind text
  /-- With word characters. -/
  | name {text : Text} (hn : text ≠ []) (h : ∀ c ∈ text, isWordChar c = true) :
      IsDeclared .name text
  /-- With spaces. -/
  | space {text : Text} (hn : text ≠ []) (h : IsSpaces text) : IsDeclared .space text
  /-- With one character that no other token has. -/
  | other {c : Char} (hw : isWordChar c = false) (hs : isSpaceChar c = false)
      (hf : [c] ∉ fixedTokens.map Prod.fst) : IsDeclared .other [c]

end Script

namespace Offset

open Script

/-- Pieces that are not empty lie side by side from one offset to another. -/
def Tiles : Nat → List TokenSpan → Nat → Prop
  | start, [], stop => start = stop
  | start, s :: spans, stop => s.start = start ∧ s.start < s.stop ∧ Tiles s.stop spans stop

/-- The tokens of a line before its end, by where they lie. -/
structure IsTiling (line : Text) (spans : List TokenSpan) : Prop where
  /-- They lie side by side, from the start of the line to its end. -/
  tiles : Tiles 0 spans (byteSize line)
  /-- None of them is the end of the line. -/
  not_end : ∀ s ∈ spans, s.kind ≠ .lineEnd
  /-- Each is a piece of the line that is written as its kind is declared. -/
  declared : ∀ s ∈ spans, ∃ text, slice line s.start s.stop = .ok text ∧ IsDeclared s.kind text
  /-- A word has nothing but word characters, and is a keyword just when it is all of that one. -/
  word : ∀ s ∈ spans, ∀ text, slice line s.start s.stop = .ok text → s.kind.isWord = true →
    (∀ c ∈ text, isWordChar c = true) ∧
      ∀ keyword kind, (keyword, kind) ∈ fixedTokens → kind.isWord = true →
        (s.kind = kind ↔ text = keyword)
  /-- No word stands beside a word. -/
  words_apart : (spans.map TokenSpan.kind).IsChain fun a b => ¬ (a.isWord = true ∧ b.isWord = true)
  /-- No space token stands beside a space token. -/
  spaces_apart : (spans.map TokenSpan.kind).IsChain fun a b => ¬ (a = .space ∧ b = .space)
  /-- An equals sign with `>` right behind it is an arrow. -/
  arrow : ∀ front back, line = front ++ ("=>" ++ back) →
    ⟨.arrow, byteSize front, byteSize front + 2⟩ ∈ spans
  /-- Every other mark is a token of its own kind. -/
  mark : ∀ front c back kind, line = front ++ c :: back → ([c], kind) ∈ fixedTokens →
    (c = '=' → back.head? ≠ some '>') →
      ⟨kind, byteSize front, byteSize front + c.utf8Size⟩ ∈ spans
  /-- Every character that is left is a token, and belongs to no other. -/
  other : ∀ front c back, line = front ++ c :: back → isWordChar c = false →
    isSpaceChar c = false → [c] ∉ fixedTokens.map Prod.fst →
    (c = '>' → front.getLast? ≠ some '=') →
      ⟨.other, byteSize front, byteSize front + c.utf8Size⟩ ∈ spans

/-- All tokens of a line: a tiling of it, and behind that the end of the line, which is empty. -/
def AreAllTokens (line : Text) (all : List TokenSpan) : Prop :=
  ∃ spans, IsTiling line spans ∧ all = spans ++ [⟨.lineEnd, byteSize line, byteSize line⟩]

/-- Tokens by where they lie, the first one at an offset. -/
def spansFrom (start : Nat) (ts : List Token) : List TokenSpan :=
  (located start ts).map fun t => ⟨t.1.kind, t.2.1, t.2.2⟩

end Offset

namespace Script

variable {kind : TokenKind} {text : Text}

/-! ## Declared tokens -/

namespace IsDeclared

/-- A declared token is not empty. -/
theorem ne_nil (h : IsDeclared kind text) : text ≠ [] := by
  cases h with
  | fixed h =>
    rintro rfl
    exact absurd (List.mem_map_of_mem h) (by decide : [] ∉ fixedTokens.map Prod.fst)
  | name hn => exact hn
  | space hn => exact hn
  | other => exact List.cons_ne_nil _ _

/-- A declared token is not the end of a line. -/
theorem ne_lineEnd (h : IsDeclared kind text) : kind ≠ .lineEnd := by
  rintro rfl
  cases h with
  | fixed h =>
    exact absurd (List.mem_map_of_mem h) (by decide : .lineEnd ∉ fixedTokens.map Prod.snd)

/-- A declared token that begins with a word character is a word. -/
theorem isWord_of_head (h : IsDeclared kind text) {c : Char} (hc : c ∈ text.head?)
    (hw : isWordChar c = true) : kind.isWord = true := by
  cases h with
  | fixed h =>
    have hall : ∀ fixed ∈ fixedTokens, fixed.1.head?.any isWordChar = true →
        fixed.2.isWord = true := by decide
    refine hall _ h ?_
    rw [Option.mem_def.1 hc]
    exact hw
  | name => rfl
  | space _ hs =>
    rw [isWordChar_of_isSpaceChar (hs c (List.mem_of_mem_head? hc))] at hw
    contradiction
  | other hn =>
    obtain rfl := Option.some.inj hc
    rw [hn] at hw
    contradiction

/-- A declared token that begins with a space is a space token. -/
theorem eq_space_of_head (h : IsDeclared kind text) {c : Char} (hc : c ∈ text.head?)
    (hs : isSpaceChar c = true) : kind = .space := by
  cases h with
  | fixed h =>
    have hall : ∀ fixed ∈ fixedTokens, fixed.1.head?.any isSpaceChar = false := by decide
    have hone := hall _ h
    rw [Option.mem_def.1 hc] at hone
    exact absurd hs (Bool.eq_false_iff.1 hone)
  | name _ hw =>
    rw [isSpaceChar_of_isWordChar (hw c (List.mem_of_mem_head? hc))] at hs
    contradiction
  | space => rfl
  | other _ hn =>
    obtain rfl := Option.some.inj hc
    rw [hn] at hs
    contradiction

/-- A declared word has nothing but word characters. -/
theorem isWordChar_of_isWord (h : IsDeclared kind text) (hw : kind.isWord = true) :
    ∀ c ∈ text, isWordChar c = true := by
  cases h with
  | fixed h =>
    have hall : ∀ fixed ∈ fixedTokens, fixed.2.isWord = true →
        fixed.1.all isWordChar = true := by decide
    exact List.all_eq_true.1 (hall _ h hw)
  | name _ h => exact h
  | space => contradiction
  | other => contradiction

end IsDeclared

/-- The kind of a token that is always written in the same way. -/
theorem kindOf_of_mem_fixedTokens (h : (text, kind) ∈ fixedTokens) : kindOf text = kind := by
  have hall : ∀ fixed ∈ fixedTokens, kindOf fixed.1 = fixed.2 := by decide
  exact hall _ h

/-- A lexeme is written as its kind is declared. -/
theorem isDeclared_kindOf (h : IsLexeme text) : IsDeclared (kindOf text) text := by
  rcases kindOf_cases text with hf | ⟨hf, hk⟩
  · exact .fixed hf
  · rw [hk]
    cases h with
    | word hn hw =>
      obtain ⟨c, r, rfl⟩ := List.exists_cons_of_ne_nil hn
      rw [List.head?_cons, kindOfFirst, if_pos (hw c List.mem_cons_self)]
      exact .name hn hw
    | space hn hs =>
      obtain ⟨c, r, rfl⟩ := List.exists_cons_of_ne_nil hn
      have hspace := hs c List.mem_cons_self
      have hword := isWordChar_of_isSpaceChar hspace
      rw [List.head?_cons, kindOfFirst, if_neg (Bool.eq_false_iff.1 hword), if_pos hspace]
      exact .space hn hs
    | arrow => exact absurd (by decide : "=>".toList ∈ fixedTokens.map Prod.fst) hf
    | @single c hw hs =>
      rw [List.head?_cons, kindOfFirst, if_neg (Bool.eq_false_iff.1 hw),
        if_neg (Bool.eq_false_iff.1 hs)]
      exact .other hw hs hf

/-- A declared token has the kind of its text, unless it is a keyword that is called a name. -/
theorem IsDeclared.kind_eq (h : IsDeclared kind text) (hk : kind = .name → text ∉ keywords) :
    kind = kindOf text := by
  cases h with
  | fixed h => exact (kindOf_of_mem_fixedTokens h).symm
  | name hn hw =>
    have hid : IsIdentifierBetween [] text [] :=
      ⟨⟨hn, hw, fun c hc => absurd hc (Option.not_mem_none c),
        fun c hc => absurd hc (Option.not_mem_none c)⟩, hk rfl⟩
    exact (kindOf_identifier hid).symm
  | space hn hs => exact (kindOf_spaces hs hn).symm
  | @other c hw hs hf =>
    rcases kindOf_cases [c] with hm | ⟨-, hk⟩
    · exact absurd (List.mem_map_of_mem hm) hf
    · rw [hk, List.head?_cons, kindOfFirst, if_neg (Bool.eq_false_iff.1 hw),
        if_neg (Bool.eq_false_iff.1 hs)]

/-- A declared token is the only token of its text. -/
theorem IsDeclared.tokens_eq (h : IsDeclared kind text) :
    tokens text = [Token.ofText text] := by
  have hone : lexemes text = [text] := by
    cases h with
    | fixed h =>
      have hall : ∀ fixed ∈ fixedTokens, lexemes fixed.1 = [fixed.1] := by decide
      exact hall _ h
    | name hn hw =>
      exact lexemes_eq_singleton hn fun c hc d hd r => by simp [joins, hw c hc, hw d hd]
    | space hn hs =>
      exact lexemes_eq_singleton hn fun c hc d hd r => by simp [joins, hs c hc, hs d hd]
    | other => rfl
  rw [tokens, hone]
  rfl

/-! ## The tokens of a line -/

namespace AreTokens

variable {t : Token} {ts : List Token}

/-- Each token of a line is written as its kind is declared. -/
theorem isDeclared (h : AreTokens ts) (ht : t ∈ ts) : IsDeclared t.kind t.text := by
  rw [h.kind_eq t ht]
  exact isDeclared_kindOf (h.lexeme t ht)

/-- No two neighbours both consist of characters that join each other. -/
theorem isChain_not_both (h : AreTokens ts) {test : Char → Bool}
    (hj : ∀ c d r, test c = true → test d = true → joins c (d :: r) = true) :
    ts.IsChain fun t next =>
      ¬ ((∀ c ∈ t.text, test c = true) ∧ ∀ c ∈ next.text, test c = true) := by
  refine h.apart.imp_of_mem_imp fun t next ht hn hapart => ?_
  rintro ⟨hall, hall'⟩
  have hne := (h.lexeme t ht).ne_nil
  obtain ⟨d, r, hd⟩ := List.exists_cons_of_ne_nil (h.lexeme next hn).ne_nil
  have hfalse := hapart (t.text.getLast hne) (List.getLast?_eq_some_getLast hne)
  rw [hd] at hfalse hall'
  rw [hj _ d r (hall _ (List.getLast_mem hne)) (hall' d List.mem_cons_self)] at hfalse
  contradiction

/-- No word stands beside a word. -/
theorem words_apart (h : AreTokens ts) :
    (ts.map Token.kind).IsChain fun a b => ¬ (a.isWord = true ∧ b.isWord = true) := by
  have hchain : ts.IsChain fun t next =>
      ¬ ((∀ c ∈ t.text, isWordChar c = true) ∧ ∀ c ∈ next.text, isWordChar c = true) :=
    h.isChain_not_both fun c d r hc hd => by simp [joins, hc, hd]
  rw [List.isChain_map]
  refine hchain.imp_of_mem_imp fun t next ht hn hboth hwords => hboth ⟨?_, ?_⟩
  · exact (h.isDeclared ht).isWordChar_of_isWord hwords.1
  · exact (h.isDeclared hn).isWordChar_of_isWord hwords.2

/-- No space token stands beside a space token. -/
theorem spaces_apart (h : AreTokens ts) :
    (ts.map Token.kind).IsChain fun a b => ¬ (a = .space ∧ b = .space) := by
  have hchain : ts.IsChain fun t next =>
      ¬ ((∀ c ∈ t.text, isSpaceChar c = true) ∧ ∀ c ∈ next.text, isSpaceChar c = true) :=
    h.isChain_not_both fun c d r hc hd => by simp [joins, hc, hd]
  rw [List.isChain_map]
  refine hchain.imp_of_mem_imp fun t next ht hn hboth hspaces => hboth ⟨?_, ?_⟩
  · exact isSpace_of_space (h.lexeme t ht) (h.kind_eq t ht ▸ hspaces.1)
  · exact isSpace_of_space (h.lexeme next hn) (h.kind_eq next hn ▸ hspaces.2)

end AreTokens

/-! ## Sequences of declared tokens -/

/-- Tokens that are written as declared, and none of which could go on into the next. -/
structure AreMaximal (ts : List Token) : Prop where
  /-- Each is written as its kind is declared. -/
  declared : ∀ t ∈ ts, IsDeclared t.kind t.text
  /-- No keyword is called a name. -/
  keyword : ∀ t ∈ ts, t.kind = .name → t.text ∉ keywords
  /-- No word stands beside a word. -/
  words_apart : (ts.map Token.kind).IsChain fun a b => ¬ (a.isWord = true ∧ b.isWord = true)
  /-- No space token stands beside a space token. -/
  spaces_apart : (ts.map Token.kind).IsChain fun a b => ¬ (a = .space ∧ b = .space)
  /-- No equals sign stands before a `>`. -/
  equals : ∀ front t back, ts = front ++ t :: back → t.text = ['='] →
    (textOf back).head? ≠ some '>'

namespace AreMaximal

variable {t : Token} {ts : List Token}

/-- What follows a token. -/
theorem tail (h : AreMaximal (t :: ts)) : AreMaximal ts where
  declared u hu := h.declared u (List.mem_cons_of_mem t hu)
  keyword u hu := h.keyword u (List.mem_cons_of_mem t hu)
  words_apart := h.words_apart.tail
  spaces_apart := h.spaces_apart.tail
  equals front u back he := h.equals (t :: front) u back (congrArg (t :: ·) he)

/-- What follows a token begins with another one. -/
theorem exists_head (h : AreMaximal ts) {d : Char} (hd : d ∈ (textOf ts).head?) :
    ∃ u us, ts = u :: us ∧ d ∈ u.text.head? := by
  cases ts with
  | nil => exact absurd hd (Option.not_mem_none d)
  | cons u us =>
    obtain ⟨c, r, hc⟩ := List.exists_cons_of_ne_nil (h.declared u List.mem_cons_self).ne_nil
    rw [textOf_cons, hc, List.cons_append, List.head?_cons] at hd
    exact ⟨u, us, rfl, hc ▸ hd⟩

/-- A token breaks off where the next one begins. -/
theorem breaks (h : AreMaximal (t :: ts)) : Breaks t.text (textOf ts) := by
  have ht := h.declared t List.mem_cons_self
  by_cases hw : t.kind.isWord = true
  · refine breaks_of_word (ht.isWordChar_of_isWord hw) fun d hd => ?_
    obtain ⟨u, us, rfl, hu⟩ := h.tail.exists_head hd
    refine Bool.eq_false_iff.2 fun hc => (List.isChain_cons_cons.1 h.words_apart).1 ⟨hw, ?_⟩
    exact (h.tail.declared u List.mem_cons_self).isWord_of_head hu hc
  · have hend := h.equals [] t ts rfl
    generalize hk : t.kind = kind at ht hw
    generalize t.text = text at ht hend
    cases ht with
    | name => exact absurd rfl hw
    | space _ hs =>
      refine breaks_of_spaces hs fun d hd => ?_
      obtain ⟨u, us, rfl, hu⟩ := h.tail.exists_head hd
      refine Bool.eq_false_iff.2 fun hc => (List.isChain_cons_cons.1 h.spaces_apart).1 ⟨hk, ?_⟩
      exact (h.tail.declared u List.mem_cons_self).eq_space_of_head hu hc
    | @other c hc hs hf =>
      intro d hd e _ r
      obtain rfl : c = d := Option.some.inj hd
      refine joins_eq_false hc hs ?_ _
      rintro rfl
      exact hf (by decide)
    | fixed hf =>
      -- Apart from the equals sign, a mark ends with a character that joins nothing.
      have hall : ∀ fixed ∈ fixedTokens, fixed.2.isWord = true ∨ fixed.1 = ['='] ∨
          fixed.1.getLast?.all (fun c => !isWordChar c && !isSpaceChar c && c != '=') = true := by
        decide
      intro c hc d hd r
      rcases hall _ hf with hword | hequals | hmark
      · exact absurd hword hw
      · subst hequals
        obtain rfl : '=' = c := Option.some.inj hc
        refine joins_equals (fun he => hend rfl ?_) r
        rw [← he]
        exact hd
      · rw [Option.mem_def.1 hc, Option.all_some] at hmark
        simp only [Bool.and_eq_true, Bool.not_eq_true', bne_iff_ne] at hmark
        exact joins_eq_false hmark.1.1 hmark.1.2 hmark.2 _

/-- There are no other tokens of a text than these. -/
theorem eq_tokens (h : AreMaximal ts) : ts = tokens (textOf ts) := by
  induction ts with
  | nil => rfl
  | cons t ts ih =>
    have ht := h.declared t List.mem_cons_self
    have hkind := ht.kind_eq (h.keyword t List.mem_cons_self)
    have hfirst : t = Token.ofText t.text := congrArg (Token.mk · t.text) hkind
    rw [textOf_cons, tokens_append h.breaks, ht.tokens_eq, ← ih h.tail, ← hfirst]
    rfl

end AreMaximal

end Script

namespace Offset

open Script

variable {line : Text} {ts : List Token} {spans : List TokenSpan} {s : TokenSpan} {start stop : Nat}

/-! ## Places of tokens -/

/-- What lies side by side does not start before the first offset. -/
theorem Tiles.le_start (h : Tiles start spans stop) (hs : s ∈ spans) : start ≤ s.start := by
  induction spans generalizing start with
  | nil => exact absurd hs List.not_mem_nil
  | cons u spans ih =>
    obtain ⟨hu, hlt, hrest⟩ := h
    rcases List.mem_cons.1 hs with rfl | hs
    · exact hu.ge
    · exact (hu.ge.trans hlt.le).trans (ih hrest hs)

/-- Of what lies side by side, one piece starts at an offset. -/
theorem Tiles.eq_of_start (h : Tiles start spans stop) {u : TokenSpan} (hs : s ∈ spans)
    (hu : u ∈ spans) (he : s.start = u.start) : s = u := by
  induction spans generalizing start with
  | nil => exact absurd hs List.not_mem_nil
  | cons v spans ih =>
    obtain ⟨-, hlt, hrest⟩ := h
    rcases List.mem_cons.1 hs with rfl | hs'
    · rcases List.mem_cons.1 hu with rfl | hu'
      · rfl
      · have hle := hrest.le_start hu'
        omega
    · rcases List.mem_cons.1 hu with rfl | hu'
      · have hle := hrest.le_start hs'
        omega
      · exact ih hrest hs' hu'

/-- A token lies behind the text of the tokens before it. -/
theorem mem_located_iff {t : Token} {a b : Nat} : (t, a, b) ∈ located start ts ↔
    ∃ front back, ts = front ++ t :: back ∧ a = start + byteSize (textOf front) ∧
      b = start + byteSize (textOf front) + byteSize t.text := by
  induction ts generalizing start with
  | nil => simp [located]
  | cons u us ih =>
    rw [located, List.mem_cons, ih]
    constructor
    · rintro (h | ⟨front, back, rfl, rfl, rfl⟩)
      · obtain ⟨rfl, hab⟩ := Prod.mk.inj h
        obtain ⟨rfl, rfl⟩ := Prod.mk.inj hab
        exact ⟨[], us, rfl, rfl, rfl⟩
      · refine ⟨u :: front, back, rfl, ?_⟩
        rw [textOf_cons, byteSize_append, ← Nat.add_assoc start]
        exact ⟨rfl, rfl⟩
    · rintro ⟨front, back, he, rfl, rfl⟩
      cases front with
      | nil =>
        obtain ⟨rfl, rfl⟩ := List.cons.inj he
        exact .inl rfl
      | cons v front =>
        obtain ⟨rfl, rfl⟩ := List.cons.inj he
        refine .inr ⟨front, back, rfl, ?_⟩
        rw [textOf_cons, byteSize_append, ← Nat.add_assoc start]
        exact ⟨rfl, rfl⟩

/-- A place is that of a token just when the token lies there. -/
theorem mem_spansFrom_iff : s ∈ spansFrom 0 ts ↔ ∃ front t back, ts = front ++ t :: back ∧
    s = ⟨t.kind, byteSize (textOf front), byteSize (textOf front) + byteSize t.text⟩ := by
  simp only [spansFrom, List.mem_map, Prod.exists, mem_located_iff, Nat.zero_add]
  constructor
  · rintro ⟨t, a, b, ⟨front, back, he, rfl, rfl⟩, rfl⟩
    exact ⟨front, t, back, he, rfl⟩
  · rintro ⟨front, t, back, he, rfl⟩
    exact ⟨t, _, _, ⟨front, back, he, rfl, rfl⟩, rfl⟩

/-- The kinds of tokens do not depend on where they lie. -/
theorem map_kind_spansFrom (start : Nat) (ts : List Token) :
    (spansFrom start ts).map TokenSpan.kind = ts.map Token.kind := by
  induction ts generalizing start with
  | nil => rfl
  | cons t ts ih => exact congrArg (t.kind :: ·) (ih (start + byteSize t.text))

/-- Tokens that are not empty lie side by side. -/
theorem tiles_spansFrom (h : ∀ t ∈ ts, t.text ≠ []) :
    Tiles start (spansFrom start ts) (start + byteSize (textOf ts)) := by
  induction ts generalizing start with
  | nil => rfl
  | cons t ts ih =>
    rw [List.forall_mem_cons] at h
    refine ⟨rfl, ?_, ?_⟩
    · obtain ⟨c, r, hc⟩ := List.exists_cons_of_ne_nil h.1
      have hpos := c.utf8Size_pos
      change start < start + byteSize t.text
      rw [hc, byteSize_cons]
      omega
    · rw [textOf_cons, byteSize_append, ← Nat.add_assoc]
      exact ih h.2

/-- The piece of a line where a token of it lies is the text of the token. -/
theorem slice_of_textOf_append {front back : List Token} {t : Token}
    (h : textOf (front ++ t :: back) = line) :
    slice line (byteSize (textOf front)) (byteSize (textOf front) + byteSize t.text) =
      .ok t.text := by
  have hline : line = textOf front ++ t.text ++ textOf back := by
    rw [← h, textOf_append, textOf_cons, List.append_assoc]
  exact slice_eq hline rfl rfl

/-- Pieces of a text that lie side by side are tokens of that text. -/
theorem exists_tokens_of_tiles {before rest : Text} (hline : line = before ++ rest)
    (ht : Tiles (byteSize before) spans (byteSize line))
    (hs : ∀ s ∈ spans, ∃ text, slice line s.start s.stop = .ok text) :
    ∃ ts, textOf ts = rest ∧ spans = spansFrom (byteSize before) ts := by
  induction spans generalizing before rest with
  | nil =>
    obtain ⟨-, rfl⟩ := append_inj_of_byteSize ((List.append_nil line).trans hline) ht.symm
    exact ⟨[], rfl, rfl⟩
  | cons s spans ih =>
    obtain ⟨hstart, -, hrest⟩ := ht
    rw [List.forall_mem_cons] at hs
    obtain ⟨⟨text, htext⟩, hs⟩ := hs
    obtain ⟨front, back, hsplit, hfront, hstop⟩ := slice_eq_ok_iff.1 htext
    rw [List.append_assoc, hline] at hsplit
    obtain ⟨rfl, rfl⟩ := append_inj_of_byteSize hsplit (hstart.symm.trans hfront)
    have hnext : s.stop = byteSize (before ++ text) := by
      rw [hstop, hfront, byteSize_append]
    rw [hnext] at hrest
    rw [← List.append_assoc] at hline
    obtain ⟨us, rfl, rfl⟩ := ih hline hrest hs
    refine ⟨⟨s.kind, text⟩ :: us, rfl, ?_⟩
    obtain ⟨kind, a, b⟩ := s
    obtain rfl : a = byteSize before := hfront
    obtain rfl : b = byteSize before + byteSize text := hstop
    rw [byteSize_append]
    rfl

/-! ## The tiling -/

section

variable {front piece back : Text}

/-- Where a text is cut, its tokens lie behind those of what stands in front. -/
theorem mem_spansFrom_of_breaks (hb : Breaks front (piece ++ back))
    (hp : tokens (piece ++ back) = Token.ofText piece :: tokens back) :
    ⟨kindOf piece, byteSize front, byteSize front + byteSize piece⟩ ∈
      spansFrom 0 (tokens (front ++ (piece ++ back))) := by
  rw [tokens_append hb, hp]
  refine mem_spansFrom_iff.2 ⟨tokens front, Token.ofText piece, tokens back, rfl, ?_⟩
  rw [textOf_tokens]
  rfl

/-- An arrow is a token where it stands. -/
theorem arrow_mem_spansFrom (front back : Text) :
    ⟨.arrow, byteSize front, byteSize front + 2⟩ ∈
      spansFrom 0 (tokens (front ++ ("=>" ++ back))) := by
  have hb : Breaks front ("=>" ++ back) := by
    intro c _ d hd r
    obtain rfl : '=' = d := Option.some.inj hd
    exact joins_cons_eq_false (by decide) (by decide) (by decide) c r
  exact mem_spansFrom_of_breaks hb (tokens_arrow back)

/-- A mark is no word character and no space, and does not end an arrow. -/
theorem mark_of_mem_fixedTokens {c : Char} {kind : TokenKind} (h : ([c], kind) ∈ fixedTokens) :
    isWordChar c = false ∧ isSpaceChar c = false ∧ c ≠ '>' := by
  have hall : ∀ fixed ∈ fixedTokens, fixed.1.length = 1 →
      fixed.1.all (fun d => !isWordChar d && !isSpaceChar d && d != '>') = true := by decide
  have hone := List.all_eq_true.1 (hall _ h rfl) c List.mem_cons_self
  simp only [Bool.and_eq_true, Bool.not_eq_true', bne_iff_ne] at hone
  exact ⟨hone.1.1, hone.1.2, hone.2⟩

/-- A mark that begins no arrow is a token where it stands. -/
theorem mark_mem_spansFrom {c : Char} {kind : TokenKind} (hf : ([c], kind) ∈ fixedTokens)
    (ha : c = '=' → back.head? ≠ some '>') :
    ⟨kind, byteSize front, byteSize front + c.utf8Size⟩ ∈
      spansFrom 0 (tokens (front ++ c :: back)) := by
  obtain ⟨hw, hs, hc⟩ := mark_of_mem_fixedTokens hf
  have hb : Breaks front ([c] ++ back) := by
    intro d _ e he r
    obtain rfl : c = e := Option.some.inj he
    exact joins_cons_eq_false hw hs hc d r
  have hp : tokens ([c] ++ back) = Token.ofText [c] :: tokens back := by
    by_cases hequals : c = '='
    · subst hequals
      exact tokens_equals (ha rfl)
    · exact tokens_mark hw hs hequals back
  have hm := mem_spansFrom_of_breaks hb hp
  rwa [kindOf_of_mem_fixedTokens hf] at hm

/-- A character that is part of no other token is a token where it stands. -/
theorem other_mem_spansFrom {c : Char} (hw : isWordChar c = false) (hs : isSpaceChar c = false)
    (hf : [c] ∉ fixedTokens.map Prod.fst) (ha : c = '>' → front.getLast? ≠ some '=') :
    ⟨.other, byteSize front, byteSize front + c.utf8Size⟩ ∈
      spansFrom 0 (tokens (front ++ c :: back)) := by
  have hequals : c ≠ '=' := by
    rintro rfl
    exact hf (by decide)
  have hb : Breaks front ([c] ++ back) := by
    intro d hd e he r
    obtain rfl : c = e := Option.some.inj he
    refine Bool.eq_false_iff.2 fun hj => ?_
    rw [joins, hw, hs, Bool.and_false, Bool.and_false, Bool.or_false, Bool.false_or,
      Bool.and_eq_true, beq_iff_eq, beq_iff_eq] at hj
    obtain ⟨rfl, hr⟩ := hj
    exact ha (List.cons.inj hr).1 hd
  have hm := mem_spansFrom_of_breaks hb (tokens_mark hw hs hequals back)
  have hkind : IsDeclared .other [c] := .other hw hs hf
  rwa [← hkind.kind_eq (fun h => by contradiction)] at hm

end

/-- The tokens of a line are a tiling of it. -/
theorem isTiling_tokens (line : Text) : IsTiling line (spansFrom 0 (tokens line)) := by
  have hts := areTokens_tokens line
  have hplace : ∀ s ∈ spansFrom 0 (tokens line), ∃ t ∈ tokens line, s.kind = t.kind ∧
      slice line s.start s.stop = .ok t.text := by
    intro s hs
    obtain ⟨front, t, back, hsplit, rfl⟩ := mem_spansFrom_iff.1 hs
    exact ⟨t, hsplit ▸ List.mem_append_right front List.mem_cons_self, rfl,
      slice_of_textOf_append (hsplit ▸ textOf_tokens line)⟩
  refine ⟨?tiles, ?not_end, ?declared, ?word, ?words_apart, ?spaces_apart, ?arrow, ?mark, ?other⟩
  case tiles =>
    have htiles : Tiles 0 (spansFrom 0 (tokens line)) (0 + byteSize (textOf (tokens line))) :=
      tiles_spansFrom fun t ht => (hts.lexeme t ht).ne_nil
    rwa [textOf_tokens, Nat.zero_add] at htiles
  case not_end =>
    intro s hs
    obtain ⟨t, ht, hk, -⟩ := hplace s hs
    rw [hk]
    exact (hts.isDeclared ht).ne_lineEnd
  case declared =>
    intro s hs
    obtain ⟨t, ht, hk, htext⟩ := hplace s hs
    exact ⟨t.text, htext, hk ▸ hts.isDeclared ht⟩
  case word =>
    intro s hs text htext hw
    obtain ⟨t, ht, hk, htext'⟩ := hplace s hs
    obtain rfl : t.text = text := Except.ok.inj (htext'.symm.trans htext)
    rw [hk] at hw ⊢
    refine ⟨(hts.isDeclared ht).isWordChar_of_isWord hw, fun keyword kind hf _ => ?_⟩
    rw [hts.kind_eq t ht]
    constructor
    · rintro rfl
      exact eq_of_mem_fixedTokens hf
    · rintro he
      exact kindOf_of_mem_fixedTokens (he ▸ hf)
  case words_apart =>
    rw [map_kind_spansFrom]
    exact hts.words_apart
  case spaces_apart =>
    rw [map_kind_spansFrom]
    exact hts.spaces_apart
  case arrow =>
    rintro front back rfl
    exact arrow_mem_spansFrom front back
  case mark =>
    rintro front c back kind rfl hf ha
    exact mark_mem_spansFrom hf ha
  case other =>
    rintro front c back rfl hw hs hf ha
    exact other_mem_spansFrom hw hs hf ha

/-- Tokens that are a tiling of a line are such that none could go on into the next. -/
theorem IsTiling.areMaximal (h : IsTiling line (spansFrom 0 ts)) (htext : textOf ts = line) :
    AreMaximal ts := by
  have hplace : ∀ front t back, ts = front ++ t :: back →
      ⟨t.kind, byteSize (textOf front), byteSize (textOf front) + byteSize t.text⟩ ∈
        spansFrom 0 ts := by
    intro front t back he
    exact mem_spansFrom_iff.2 ⟨front, t, back, he, rfl⟩
  have hslice : ∀ front t back, ts = front ++ t :: back →
      slice line (byteSize (textOf front)) (byteSize (textOf front) + byteSize t.text) =
        .ok t.text := by
    rintro front t back rfl
    exact slice_of_textOf_append htext
  have hdeclared : ∀ front t back, ts = front ++ t :: back → IsDeclared t.kind t.text := by
    intro front t back he
    obtain ⟨text, hs, hd⟩ := h.declared _ (hplace front t back he)
    obtain rfl := Except.ok.inj ((hslice front t back he).symm.trans hs)
    exact hd
  refine ⟨?declared, ?keyword, ?words_apart, ?spaces_apart, ?equals⟩
  case declared =>
    intro t ht
    obtain ⟨front, back, he⟩ := List.append_of_mem ht
    exact hdeclared front t back he
  case keyword =>
    intro t ht hk hm
    obtain ⟨front, back, he⟩ := List.append_of_mem ht
    have hkeywords : ∀ keyword ∈ keywords, ∃ fixed ∈ fixedTokens, fixed.1 = keyword ∧
        fixed.2.isWord = true ∧ fixed.2 ≠ .name := by decide
    obtain ⟨fixed, hf, hkeyword, hw, hname⟩ := hkeywords t.text hm
    have hword := (h.word _ (hplace front t back he) t.text (hslice front t back he)
      (congrArg TokenKind.isWord hk)).2 fixed.1 fixed.2 hf hw
    exact hname ((hword.2 hkeyword.symm).symm.trans hk)
  case words_apart =>
    have hapart := h.words_apart
    rwa [map_kind_spansFrom] at hapart
  case spaces_apart =>
    have hapart := h.spaces_apart
    rwa [map_kind_spansFrom] at hapart
  case equals =>
    intro front t back he hequals hnext
    obtain ⟨r, hr⟩ := List.head?_eq_some_iff.1 hnext
    have hline : line = textOf front ++ ("=>" ++ r) := by
      rw [← htext, he, textOf_append, textOf_cons, hequals, hr]
      rfl
    -- The arrow would start where the equals sign does, and stop behind it.
    have hsame := h.tiles.eq_of_start (hplace front t back he) (h.arrow _ _ hline) rfl
    have hstop := congrArg TokenSpan.stop hsame
    rw [hequals] at hstop
    have hone : byteSize ['='] = 1 := rfl
    dsimp only at hstop
    omega

/-- There is one tiling of a line. -/
theorem IsTiling.eq (h : IsTiling line spans) : spans = spansFrom 0 (tokens line) := by
  obtain ⟨ts, htext, rfl⟩ := exists_tokens_of_tiles (List.nil_append line).symm h.tiles
    fun s hs => (h.declared s hs).imp fun _ htext => htext.1
  rw [byteSize_nil] at h ⊢
  rw [(h.areMaximal htext).eq_tokens, htext]

/-- The end of a line lies behind its other tokens. -/
theorem spansFrom_lineTokens (line : Text) :
    spansFrom 0 (lineTokens line) =
      spansFrom 0 (tokens line) ++ [⟨.lineEnd, byteSize line, byteSize line⟩] := by
  have happend : ∀ start ts, spansFrom start (ts ++ [Token.ofText []]) = spansFrom start ts ++
      [⟨.lineEnd, start + byteSize (textOf ts), start + byteSize (textOf ts)⟩] := by
    intro start ts
    induction ts generalizing start with
    | nil => rfl
    | cons t ts ih =>
      have hcons : ∀ us, spansFrom start (t :: us) =
        ⟨t.kind, start, start + byteSize t.text⟩ :: spansFrom (start + byteSize t.text) us :=
          fun us => rfl
      rw [List.cons_append, hcons, hcons, ih, textOf_cons, byteSize_append, Nat.add_assoc]
      rfl
  rw [lineTokens, happend, textOf_tokens, Nat.zero_add]

/-- The tokens of a line are its only tiling. Some places are those of all its tokens just when they
are a tiling of the line with the end of the line, which is empty, behind it. The piece of the line
where a token lies is the text of that token, and the texts put together are the line. So much holds
of every line. The one condition is on the last part, that the line is shorter than 2³² bytes: that
is the range of offsets of 32 bits, and up to there the places told in them are these. -/
theorem tokens_are_the_only_tiling (line : Text) :
    (∀ all, AreAllTokens line all ↔ all = spansFrom 0 (lineTokens line)) ∧
      (∀ t start stop, (t, start, stop) ∈ located 0 (lineTokens line) →
        slice line start stop = .ok t.text) ∧
      textOf (lineTokens line) = line ∧
      (byteSize line < UInt32.size → tokenSpans line = .ok (spansFrom 0 (lineTokens line))) := by
  refine ⟨fun all => ⟨?_, ?_⟩, fun t start stop ht => ?_, textOf_lineTokens line, fun hs => ?_⟩
  · rintro ⟨spans, htiling, rfl⟩
    rw [htiling.eq, spansFrom_lineTokens]
  · rintro rfl
    exact ⟨_, isTiling_tokens line, spansFrom_lineTokens line⟩
  · obtain ⟨front, back, he, rfl, rfl⟩ := mem_located_iff.1 ht
    rw [Nat.zero_add]
    exact slice_of_textOf_append (he ▸ textOf_lineTokens line)
  · have hzero : offsetOf line (tokens line) = 0 := by
      rw [offsetOf, textOf_tokens, Nat.sub_self]
    rw [tokenSpans_eq hs, cursorAt, hzero]
    rfl

end Offset

end VueSfc
