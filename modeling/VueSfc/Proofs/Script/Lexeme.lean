import Mathlib.Data.List.Chain
import VueSfc.Script.Token

/-!
# The lexemes of a line

A lexeme is a run of word characters, a run of spaces, the arrow, or a single other character,
and no character at the end of one joins the next. So what a token says is settled by its kind:
a name is a whole word that is no keyword, and what follows a word does not go on with it.
-/

namespace VueSfc.Script

open Text

/-- What a lexeme consists of. -/
inductive IsLexeme : Text → Prop
  /-- Word characters. -/
  | word {l : Text} (hn : l ≠ []) (h : ∀ c ∈ l, isWordChar c = true) : IsLexeme l
  /-- Spaces. -/
  | space {l : Text} (hn : l ≠ []) (h : ∀ c ∈ l, isSpaceChar c = true) : IsLexeme l
  /-- The arrow. -/
  | arrow : IsLexeme ['=', '>']
  /-- A character that is neither. -/
  | single {c : Char} (hw : isWordChar c = false) (hs : isSpaceChar c = false) : IsLexeme [c]

/-- Nothing at the end of a lexeme joins the next one. -/
def Apart (l next : Text) : Prop := ∀ c ∈ l.getLast?, joins c next = false

/-- A character of a space token is no word character. -/
theorem isWordChar_of_isSpaceChar {c : Char} (h : isSpaceChar c = true) :
    isWordChar c = false := by
  rw [isSpaceChar, List.contains_iff_mem] at h
  simp only [List.mem_cons, List.not_mem_nil, or_false] at h
  rcases h with rfl | rfl | rfl | rfl | rfl <;> rfl

namespace IsLexeme

/-- A lexeme is not empty. -/
theorem ne_nil {l : Text} (h : IsLexeme l) : l ≠ [] := by
  cases h with
  | word hn _ => exact hn
  | space hn _ => exact hn
  | arrow => exact List.cons_ne_nil _ _
  | single _ _ => exact List.cons_ne_nil _ _

/-- A character alone is a lexeme. -/
theorem singleton (c : Char) : IsLexeme [c] := by
  by_cases hw : isWordChar c = true
  · exact .word (List.cons_ne_nil _ _) (by simpa using hw)
  · by_cases hs : isSpaceChar c = true
    · exact .space (List.cons_ne_nil _ _) (by simpa using hs)
    · exact .single (by simpa using hw) (by simpa using hs)

/-- A lexeme with a word character in it is a word. -/
theorem isWordChar_of_mem {l : Text} (h : IsLexeme l) {c : Char} (hc : c ∈ l)
    (hw : isWordChar c = true) : ∀ d ∈ l, isWordChar d = true := by
  cases h with
  | word _ h => exact h
  | space _ h => simp [isWordChar_of_isSpaceChar (h c hc)] at hw
  | arrow => rcases List.mem_pair.1 hc with rfl | rfl <;> exact absurd hw (by decide)
  | single hn _ => rw [List.mem_singleton.1 hc, hn] at hw; exact absurd hw (by decide)

/-- A lexeme with a space in it consists of spaces. -/
theorem isSpaceChar_of_mem {l : Text} (h : IsLexeme l) {c : Char} (hc : c ∈ l)
    (hs : isSpaceChar c = true) : ∀ d ∈ l, isSpaceChar d = true := by
  cases h with
  | word _ h => exact absurd (h c hc) (by simp [isWordChar_of_isSpaceChar hs])
  | space _ h => exact h
  | arrow => rcases List.mem_pair.1 hc with rfl | rfl <;> exact absurd hs (by decide)
  | single _ hn => rw [List.mem_singleton.1 hc, hn] at hs; exact absurd hs (by decide)

/-- A lexeme goes on with a character that joins it. -/
theorem cons {l : Text} (h : IsLexeme l) {c : Char} (hj : joins c l = true) :
    IsLexeme (c :: l) := by
  obtain ⟨d, r, rfl⟩ := List.exists_cons_of_ne_nil h.ne_nil
  simp only [joins, Bool.or_eq_true, Bool.and_eq_true, beq_iff_eq] at hj
  rcases hj with (⟨hc, hd⟩ | ⟨hc, hd⟩) | ⟨rfl, hr⟩
  · refine .word (List.cons_ne_nil _ _) fun e he => ?_
    rcases List.mem_cons.1 he with rfl | he
    · exact hc
    · exact h.isWordChar_of_mem List.mem_cons_self hd e he
  · refine .space (List.cons_ne_nil _ _) fun e he => ?_
    rcases List.mem_cons.1 he with rfl | he
    · exact hc
    · exact h.isSpaceChar_of_mem List.mem_cons_self hd e he
  · rw [hr]
    exact .arrow

end IsLexeme

/-- One more character in front leaves lexemes that are apart. -/
theorem isLexeme_consLexeme {ls : List Text} (hl : ∀ l ∈ ls, IsLexeme l) (ha : ls.IsChain Apart)
    (c : Char) :
    (∀ l ∈ consLexeme c ls, IsLexeme l) ∧ (consLexeme c ls).IsChain Apart := by
  cases ls with
  | nil => exact ⟨by simpa [consLexeme] using IsLexeme.singleton c, List.isChain_singleton _⟩
  | cons l ls =>
    have hh := hl l List.mem_cons_self
    simp only [consLexeme]
    split
    · rename_i hj
      refine ⟨?_, ?_⟩
      · intro m hm
        rcases List.mem_cons.1 hm with rfl | hm
        · exact hh.cons hj
        · exact hl m (List.mem_cons_of_mem _ hm)
      · rw [List.isChain_cons] at ha ⊢
        refine ⟨fun next hn d hd => ha.1 next hn d ?_, ha.2⟩
        rwa [List.getLast?_cons, List.getLast?_eq_some_getLast hh.ne_nil, Option.getD_some,
          ← List.getLast?_eq_some_getLast] at hd
    · rename_i hj
      refine ⟨?_, ?_⟩
      · intro m hm
        rcases List.mem_cons.1 hm with rfl | hm
        · exact IsLexeme.singleton c
        · exact hl m hm
      · refine List.isChain_cons_cons.2 ⟨fun d hd => ?_, ha⟩
        rw [List.getLast?_singleton, Option.mem_some_iff] at hd
        rw [← hd]
        simpa using hj

/-- The lexemes of a line are lexemes, and apart from each other. -/
theorem isLexeme_lexemes (line : Text) :
    (∀ l ∈ lexemes line, IsLexeme l) ∧ (lexemes line).IsChain Apart := by
  induction line with
  | nil => exact ⟨by simp [lexemes], List.isChain_nil⟩
  | cons c line ih => exact isLexeme_consLexeme ih.1 ih.2 c

/-! ## Kinds -/

/-- A token is always written in the same way, or its first character settles its kind. -/
theorem kindOf_cases (text : Text) :
    (text, kindOf text) ∈ fixedTokens ∨
      text ∉ fixedTokens.map Prod.fst ∧ kindOf text = kindOfFirst text.head? := by
  rw [kindOf]
  cases h : fixedTokens.lookup text with
  | none =>
    refine .inr ⟨fun hm => ?_, rfl⟩
    obtain ⟨fixed, hf, rfl⟩ := List.mem_map.1 hm
    exact absurd (List.lookup_eq_none_iff.1 h fixed hf) (by simp)
  | some kind =>
    obtain ⟨front, back, he, -⟩ := List.lookup_eq_some_iff.1 h
    exact .inl (he ▸ List.mem_append_right _ List.mem_cons_self)

/-- The kind that a first character settles is none of the kinds of the fixed tokens. -/
theorem kindOfFirst_notMem (first : Option Char) :
    kindOfFirst first ∉ fixedTokens.map Prod.snd := by
  cases first with
  | none => exact (by decide : TokenKind.lineEnd ∉ fixedTokens.map Prod.snd)
  | some c =>
    rw [kindOfFirst]
    split
    · exact (by decide : TokenKind.name ∉ fixedTokens.map Prod.snd)
    · split
      · exact (by decide : TokenKind.space ∉ fixedTokens.map Prod.snd)
      · exact (by decide : TokenKind.other ∉ fixedTokens.map Prod.snd)

/-- A token of a fixed kind is written in the one way. -/
theorem eq_of_mem_fixedTokens {word text : Text} (h : (word, kindOf text) ∈ fixedTokens) :
    text = word := by
  have hone : ∀ a ∈ fixedTokens, ∀ b ∈ fixedTokens, a.2 = b.2 → a = b := by decide
  rcases kindOf_cases text with ht | ⟨-, hk⟩
  · exact congrArg Prod.fst (hone _ ht _ h rfl)
  · rw [hk] at h
    exact absurd (List.mem_map_of_mem h) (kindOfFirst_notMem _)

/-- A token of any other kind has the kind of its first character. -/
theorem kindOf_of_notMem {text : Text} (h : kindOf text ∉ fixedTokens.map Prod.snd) :
    text ∉ fixedTokens.map Prod.fst ∧ kindOf text = kindOfFirst text.head? :=
  (kindOf_cases text).resolve_left fun hm => h (List.mem_map_of_mem hm)

/-- The words that are no names. -/
def keywords : List Text := ["function", "const", "let", "var"]

/-- A name is a word that is no keyword. -/
theorem isWord_of_name {text : Text} (hl : IsLexeme text) (h : kindOf text = .name) :
    (∀ c ∈ text, isWordChar c = true) ∧ text ∉ keywords := by
  have hkind : kindOf text ∉ fixedTokens.map Prod.snd := by
    rw [h]
    decide
  have hk := kindOf_of_notMem hkind
  refine ⟨?_, fun hm => hk.1 ((by decide : keywords ⊆ fixedTokens.map Prod.fst) hm)⟩
  obtain ⟨c, r, rfl⟩ := List.exists_cons_of_ne_nil hl.ne_nil
  refine hl.isWordChar_of_mem List.mem_cons_self ?_
  have hf := hk.2.symm.trans h
  rw [List.head?_cons, kindOfFirst] at hf
  split at hf
  · assumption
  · split at hf <;> exact absurd hf (by decide)

/-- A space token consists of spaces. -/
theorem isSpace_of_space {text : Text} (hl : IsLexeme text) (h : kindOf text = .space) :
    ∀ c ∈ text, isSpaceChar c = true := by
  have hkind : kindOf text ∉ fixedTokens.map Prod.snd := by
    rw [h]
    decide
  have hk := (kindOf_of_notMem hkind).2
  obtain ⟨c, r, rfl⟩ := List.exists_cons_of_ne_nil hl.ne_nil
  refine hl.isSpaceChar_of_mem List.mem_cons_self ?_
  have hf := hk.symm.trans h
  rw [List.head?_cons, kindOfFirst] at hf
  split at hf
  · exact absurd hf (by decide)
  · split at hf
    · assumption
    · exact absurd hf (by decide)

/-- A closing bracket is a token of its own. -/
theorem eq_of_closeParen_mem {text : Text} (hl : IsLexeme text) (h : ')' ∈ text) :
    text = [')'] := by
  cases hl with
  | word _ hw => exact absurd (hw _ h) (by decide)
  | space _ hs => exact absurd (hs _ h) (by decide)
  | arrow => exact absurd h (by decide)
  | single _ _ => rw [List.mem_singleton.1 h]

/-! ## Consecutive tokens -/

/-- Consecutive tokens of a line. -/
structure AreTokens (ts : List Token) : Prop where
  /-- Each of them is a lexeme. -/
  lexeme : ∀ t ∈ ts, IsLexeme t.text
  /-- Their kinds are those of their texts. -/
  kind_eq : ∀ t ∈ ts, t.kind = kindOf t.text
  /-- None joins the next. -/
  apart : ts.IsChain fun t next => Apart t.text next.text

/-- The tokens of a line are consecutive. -/
theorem areTokens_tokens (line : Text) : AreTokens (tokens line) where
  lexeme t ht := by
    obtain ⟨l, hl, rfl⟩ := List.mem_map.1 ht
    exact (isLexeme_lexemes line).1 l hl
  kind_eq t ht := by
    obtain ⟨l, -, rfl⟩ := List.mem_map.1 ht
    rfl
  apart := by
    rw [tokens, List.isChain_map]
    exact (isLexeme_lexemes line).2

namespace AreTokens

variable {t : Token} {ts : List Token}

/-- What follows some tokens of a line are consecutive tokens. -/
theorem of_append {front : List Token} (h : AreTokens (front ++ ts)) : AreTokens ts where
  lexeme t ht := h.lexeme t (List.mem_append_right _ ht)
  kind_eq t ht := h.kind_eq t (List.mem_append_right _ ht)
  apart := h.apart.right_of_append

/-- What follows a token of a line are consecutive tokens. -/
theorem tail (h : AreTokens (t :: ts)) : AreTokens ts :=
  have ha : AreTokens ([t] ++ ts) := h
  ha.of_append

/-- A token of a fixed kind is written in the one way. -/
theorem text_eq (h : AreTokens (t :: ts)) {word : Text} (hk : (word, t.kind) ∈ fixedTokens) :
    t.text = word :=
  eq_of_mem_fixedTokens (h.kind_eq t List.mem_cons_self ▸ hk)

/-- What follows a word does not go on with it. -/
theorem head_textOf (h : AreTokens (t :: ts)) (hw : ∀ c ∈ t.text, isWordChar c = true) {d : Char}
    (hd : d ∈ (textOf ts).head?) : isWordChar d = false := by
  cases ts with
  | nil => exact absurd hd (by simp [textOf])
  | cons next ts =>
    have hl := h.lexeme t List.mem_cons_self
    obtain ⟨e, r, hn⟩ := List.exists_cons_of_ne_nil (h.tail.lexeme next List.mem_cons_self).ne_nil
    have ha := (List.isChain_cons_cons.1 h.apart).1 (t.text.getLast hl.ne_nil)
      (List.getLast?_eq_some_getLast hl.ne_nil)
    rw [textOf, List.flatMap_cons, hn, List.cons_append, List.head?_cons,
      Option.mem_some_iff] at hd
    rw [hn, joins, hw _ (List.getLast_mem _)] at ha
    subst hd
    simp only [Bool.true_and, Bool.or_eq_false_iff] at ha
    exact ha.1.1

end AreTokens

end VueSfc.Script
