import Mathlib.Data.List.Infix
import VueSfc.Config.Comment
import VueSfc.Proofs.Offset.Slice

/-!
# The pieces of a configuration

A text splits from left to right into string literals, comments and single other characters, in one
way only. What a literal or a comment is depends on its own characters, and on what follows it only
where it is not closed; a slash is a character of its own unless a slash or a star follows it. So no
comment that is left out brings a slash in front of another slash or a star, and the pieces that
remain are the pieces of the text that they make up.
-/

namespace VueSfc.Config

/-! ## Hidden quotes -/

/-- The number of backslashes that a text ends with. -/
def backslashes (text : Text) : Nat := (text.reverse.takeWhile (· == '\\')).length

/-- The last character of the text is a backslash that is not hidden itself, so that it hides the
character behind the text. -/
def HidesNext (text : Text) : Prop := backslashes text % 2 = 1

instance (text : Text) : Decidable (HidesNext text) := inferInstanceAs (Decidable (_ = 1))

/-- Every quote in the text is hidden. -/
def HidesQuotes (text : Text) : Prop :=
  ∀ front back, text = front ++ '"' :: back → HidesNext front

/-- A text does not end with more backslashes than it has characters. -/
theorem backslashes_le (text : Text) : backslashes text ≤ text.length := by
  have h : backslashes text ≤ text.reverse.length := (List.takeWhile_prefix _).length_le
  rwa [List.length_reverse] at h

/-- A character in front counts only if it is a backslash and all others are. -/
theorem backslashes_cons (c : Char) (text : Text) : backslashes (c :: text) =
    if c = '\\' ∧ backslashes text = text.length then backslashes text + 1
    else backslashes text := by
  unfold backslashes
  rw [List.reverse_cons, List.takeWhile_append, List.length_reverse]
  by_cases hall : (text.reverse.takeWhile (· == '\\')).length = text.length
  · by_cases hc : c = '\\'
    · simp [hall, hc]
    · simp [hall, hc]
  · simp [hall]

/-- A character other than a backslash in front of a text does not matter for what follows it. -/
theorem hidesNext_cons {c : Char} (hc : c ≠ '\\') (text : Text) :
    HidesNext (c :: text) ↔ HidesNext text := by
  rw [HidesNext, HidesNext, backslashes_cons, if_neg (fun h => hc h.1)]

/-- A backslash and the character that it hides do not matter for what follows. -/
theorem hidesNext_hidden (c : Char) (text : Text) :
    HidesNext ('\\' :: c :: text) ↔ HidesNext text := by
  have hle := backslashes_le text
  rw [HidesNext, HidesNext, backslashes_cons, backslashes_cons, List.length_cons]
  by_cases hall : c = '\\' ∧ backslashes text = text.length
  · -- There are two more backslashes.
    rw [if_pos hall, if_pos ⟨rfl, congrArg (· + 1) hall.2⟩]
    omega
  · have hfew : ¬ ('\\' = '\\' ∧ backslashes text = text.length + 1) := by omega
    rw [if_neg hall, if_neg hfew]

/-- No quote stands in the empty text. -/
theorem hidesQuotes_nil : HidesQuotes [] := by
  intro front back h
  simp at h

/-- A backslash and the character that it hides do not matter for the quotes behind. -/
theorem hidesQuotes_hidden (c : Char) (text : Text) :
    HidesQuotes ('\\' :: c :: text) ↔ HidesQuotes text := by
  constructor
  · rintro h front back rfl
    exact (hidesNext_hidden c front).1 (h ('\\' :: c :: front) back rfl)
  · intro h front back he
    rcases front with _ | ⟨d, _ | ⟨e, front⟩⟩
    · exact absurd (List.cons.inj he).1 (by decide)
    · obtain rfl := (List.cons.inj he).1
      decide
    · obtain ⟨rfl, htail⟩ := List.cons.inj he
      obtain ⟨rfl, hback⟩ := List.cons.inj htail
      exact (hidesNext_hidden c front).2 (h front back hback)

/-- Where another character than a backslash is in front, it is no quote and all others are
hidden. -/
theorem hidesQuotes_cons {c : Char} (hc : c ≠ '\\') (text : Text) :
    HidesQuotes (c :: text) ↔ c ≠ '"' ∧ HidesQuotes text := by
  constructor
  · intro h
    refine ⟨?_, ?_⟩
    · rintro rfl
      exact absurd (h [] text rfl) (by decide)
    · rintro front back rfl
      exact (hidesNext_cons hc front).1 (h (c :: front) back rfl)
  · rintro ⟨hq, h⟩ front back he
    cases front with
    | nil => exact absurd (List.cons.inj he).1 hq
    | cons d front =>
      obtain ⟨rfl, hback⟩ := List.cons.inj he
      exact (hidesNext_cons hc front).2 (h front back hback)

/-- A text begins with a backslash and the character that it hides, or with another character than
a backslash, unless it is empty or one backslash. -/
@[elab_as_elim]
theorem hidingInduction {motive : Text → Prop} (nil : motive []) (last : motive ['\\'])
    (hidden : ∀ c r, motive r → motive ('\\' :: c :: r))
    (plain : ∀ c r, c ≠ '\\' → motive r → motive (c :: r)) : ∀ text, motive text
  | [] => nil
  | [c] => if hc : c = '\\' then hc ▸ last else plain c [] hc nil
  | c :: d :: r =>
    if hc : c = '\\' then hc ▸ hidden d r (hidingInduction nil last hidden plain r)
    else plain c (d :: r) hc (hidingInduction nil last hidden plain (d :: r))

/-- The quotes of a text are hidden, or there is a first one that is not. -/
theorem hidesQuotes_or (text : Text) : HidesQuotes text ∨
    ∃ inside rest, text = inside ++ '"' :: rest ∧ HidesQuotes inside ∧ ¬ HidesNext inside := by
  induction text using hidingInduction with
  | nil => exact .inl hidesQuotes_nil
  | last =>
    refine .inl fun front back h => ?_
    have hq : '"' ∈ front ++ '"' :: back := List.mem_append_right front List.mem_cons_self
    rw [← h] at hq
    exact absurd hq (by decide)
  | hidden c r ih =>
    rcases ih with h | ⟨inside, rest, rfl, h, hn⟩
    · exact .inl ((hidesQuotes_hidden c r).2 h)
    · exact .inr ⟨'\\' :: c :: inside, rest, rfl, (hidesQuotes_hidden c inside).2 h,
        mt (hidesNext_hidden c inside).1 hn⟩
  | plain c r hc ih =>
    by_cases hq : c = '"'
    · exact .inr ⟨[], r, by rw [hq]; rfl, hidesQuotes_nil, by decide⟩
    · rcases ih with h | ⟨inside, rest, rfl, h, hn⟩
      · exact .inl ((hidesQuotes_cons hc r).2 ⟨hq, h⟩)
      · exact .inr ⟨c :: inside, rest, rfl, (hidesQuotes_cons hc inside).2 ⟨hq, h⟩,
          mt (hidesNext_cons hc inside).1 hn⟩

/-! ## Literals -/

/-- Behind another character than a backslash a literal ends if it is a quote. -/
theorem splitLiteral_cons {c : Char} (hc : c ≠ '\\') (r : Text) : splitLiteral (c :: r) =
    if c = '"' then ([c], r) else (c :: (splitLiteral r).1, (splitLiteral r).2) := by
  rw [splitLiteral]
  · rintro rfl
    contradiction
  · rintro d s rfl
    contradiction

/-- The rest of a literal ends with the first quote that is not hidden. -/
theorem splitLiteral_append {inside : Text} (h : HidesQuotes inside) (hn : ¬ HidesNext inside)
    (rest : Text) : splitLiteral (inside ++ '"' :: rest) = (inside ++ ['"'], rest) := by
  induction inside using hidingInduction with
  | nil => rfl
  | last => exact absurd (by decide) hn
  | hidden c r ih =>
    rw [hidesQuotes_hidden] at h
    rw [hidesNext_hidden] at hn
    rw [List.cons_append, List.cons_append, splitLiteral, ih h hn]
    rfl
  | plain c r hc ih =>
    obtain ⟨hq, h⟩ := (hidesQuotes_cons hc r).1 h
    rw [hidesNext_cons hc] at hn
    rw [List.cons_append, splitLiteral_cons hc, if_neg hq, ih h hn]
    rfl

/-- The rest of a literal without such a quote is all of the text. -/
theorem splitLiteral_eq_self {text : Text} (h : HidesQuotes text) :
    splitLiteral text = (text, []) := by
  induction text using hidingInduction with
  | nil => rfl
  | last => rfl
  | hidden c r ih => rw [splitLiteral, ih ((hidesQuotes_hidden c r).1 h)]
  | plain c r hc ih =>
    obtain ⟨hq, h⟩ := (hidesQuotes_cons hc r).1 h
    rw [splitLiteral_cons hc, if_neg hq, ih h]

/-! ## Comments -/

/-- What a block comment ends with. -/
def blockEnd : Text := ['*', '/']

/-- The rest of a block comment ends with the first mark for it. -/
theorem splitBlock_append {inside : Text} (h : ¬ blockEnd <:+: inside) (rest : Text) :
    splitBlock (inside ++ (blockEnd ++ rest)) = (inside ++ blockEnd, rest) := by
  induction inside with
  | nil => rfl
  | cons c r ih =>
    rw [List.infix_cons_iff, not_or] at h
    have hc : ¬ (c = '*' ∧ (r ++ (blockEnd ++ rest)).head? = some '/') := by
      rintro ⟨rfl, hd⟩
      cases r with
      | nil => exact absurd (Option.some.inj hd) (by decide)
      | cons d r =>
        obtain rfl := Option.some.inj hd
        exact h.1 ⟨r, rfl⟩
    rw [List.cons_append, splitBlock, if_neg hc, ih h.2]
    rfl

/-- The rest of a block comment without one is all of the text. -/
theorem splitBlock_eq_self {text : Text} (h : ¬ blockEnd <:+: text) :
    splitBlock text = (text, []) := by
  induction text with
  | nil => rfl
  | cons c r ih =>
    rw [List.infix_cons_iff, not_or] at h
    have hc : ¬ (c = '*' ∧ r.head? = some '/') := by
      rintro ⟨rfl, hd⟩
      obtain ⟨r, rfl⟩ := List.head?_eq_some_iff.1 hd
      exact h.1 ⟨r, rfl⟩
    rw [splitBlock, if_neg hc, ih h.2]

/-- A text has no mark for the end of a block comment, or there is a first one. -/
theorem not_blockEnd_or (text : Text) : ¬ blockEnd <:+: text ∨
    ∃ inside rest, text = inside ++ (blockEnd ++ rest) ∧ ¬ blockEnd <:+: inside := by
  induction text with
  | nil => exact .inl (by decide)
  | cons c r ih =>
    by_cases hc : blockEnd <+: c :: r
    · obtain ⟨rest, hrest⟩ := hc
      exact .inr ⟨[], rest, hrest.symm, by decide⟩
    · rcases ih with h | ⟨inside, rest, rfl, h⟩
      · exact .inl fun hi => (List.infix_cons_iff.1 hi).elim hc h
      · refine .inr ⟨c :: inside, rest, rfl, fun hi => ?_⟩
        refine (List.infix_cons_iff.1 hi).elim (fun hp => hc ?_) h
        exact hp.trans (List.prefix_append (c :: inside) _)

/-- The rest of a line comment ends in front of the first line feed, or with the text. -/
theorem splitLine_append {inside rest : Text} (h : '\n' ∉ inside)
    (hr : ∀ c ∈ rest.head?, c = '\n') : splitLine (inside ++ rest) = (inside, rest) := by
  have hall : ∀ c ∈ inside, (c != '\n') = true := fun c hc =>
    bne_iff_ne.2 fun he => h (he ▸ hc)
  rw [splitLine, List.takeWhile_append_of_pos hall, List.dropWhile_append_of_pos hall]
  cases rest with
  | nil => simp
  | cons c rest =>
    obtain rfl := hr c rfl
    simp

/-- A text is cut in front of its first line feed, or not at all. -/
theorem exists_line (text : Text) : ∃ inside rest, text = inside ++ rest ∧ '\n' ∉ inside ∧
    ∀ c ∈ rest.head?, c = '\n' := by
  rcases Offset.exists_first (· == '\n') text with h | ⟨inside, c, rest, rfl, h, hc⟩
  · exact ⟨text, [], (List.append_nil text).symm, fun hm => absurd (h _ hm) (by decide),
      fun c hc => absurd hc (by simp)⟩
  · refine ⟨inside, c :: rest, rfl, fun hm => absurd (h _ hm) (by decide), fun d hd => ?_⟩
    rw [← Option.some.inj hd]
    exact beq_iff_eq.1 hc

/-! ## Pieces -/

/-- A character with the given text behind it begins no literal and no comment. -/
def StandsAlone (c : Char) (rest : Text) : Prop :=
  c ≠ '"' ∧ (c = '/' → rest.head? ≠ some '/' ∧ rest.head? ≠ some '*')

/-- A piece may stand in front of the given rest of a text. -/
inductive Stands : Piece → Text → Prop
  /-- A literal goes up to the next quote that is not hidden. -/
  | literal {inside : Text} (h : HidesQuotes inside) (hn : ¬ HidesNext inside) (rest : Text) :
      Stands (.literal ('"' :: (inside ++ ['"']))) rest
  /-- Without such a quote it goes up to the end. -/
  | openLiteral {inside : Text} (h : HidesQuotes inside) : Stands (.literal ('"' :: inside)) []
  /-- A line comment goes up to the next line feed or the end. -/
  | line {inside rest : Text} (h : '\n' ∉ inside) (hr : ∀ c ∈ rest.head?, c = '\n') :
      Stands (.comment ('/' :: '/' :: inside)) rest
  /-- A block comment goes up to the first mark for its end behind the mark for its beginning. -/
  | block {inside : Text} (h : ¬ blockEnd <:+: inside) (rest : Text) :
      Stands (.comment ('/' :: '*' :: (inside ++ blockEnd))) rest
  /-- Without such a mark it goes up to the end. -/
  | openBlock {inside : Text} (h : ¬ blockEnd <:+: inside) :
      Stands (.comment ('/' :: '*' :: inside)) []
  /-- Any other character is a piece. -/
  | plain {c : Char} {rest : Text} (h : StandsAlone c rest) : Stands (.plain c) rest

/-- The text splits into pieces, from left to right. -/
inductive Splits : Text → List Piece → Prop
  /-- There is nothing left. -/
  | nil : Splits [] []
  /-- A piece stands in front of what splits into the others. -/
  | cons {piece : Piece} {rest : Text} {ps : List Piece} (h : Stands piece rest)
      (hrest : Splits rest ps) : Splits (piece.text ++ rest) (piece :: ps)

/-- What a text that is not empty can begin with. -/
theorem beginning_cases (c : Char) (r : Text) : c = '"' ∨ (c = '/' ∧ ∃ s, r = '/' :: s) ∨
    (c = '/' ∧ ∃ s, r = '*' :: s) ∨ StandsAlone c r := by
  by_cases hc : StandsAlone c r
  · exact .inr (.inr (.inr hc))
  by_cases hq : c = '"'
  · exact .inl hq
  rw [StandsAlone, not_and, Classical.not_imp, not_and_or, not_not, not_not] at hc
  obtain ⟨rfl, hd | hd⟩ := hc hq
  · obtain ⟨s, rfl⟩ := List.head?_eq_some_iff.1 hd
    exact .inr (.inl ⟨rfl, s, rfl⟩)
  · obtain ⟨s, rfl⟩ := List.head?_eq_some_iff.1 hd
    exact .inr (.inr (.inl ⟨rfl, s, rfl⟩))

/-- A quote begins a literal. -/
theorem readPiece_quote (r : Text) :
    readPiece '"' r = (.literal ('"' :: (splitLiteral r).1), (splitLiteral r).2) := rfl

/-- Two slashes begin a line comment. -/
theorem readPiece_line (r : Text) :
    readPiece '/' ('/' :: r) = (.comment ('/' :: '/' :: (splitLine r).1), (splitLine r).2) := rfl

/-- A slash and a star begin a block comment. -/
theorem readPiece_block (r : Text) :
    readPiece '/' ('*' :: r) = (.comment ('/' :: '*' :: (splitBlock r).1), (splitBlock r).2) := rfl

/-- Any other character is read alone. -/
theorem readPiece_plain {c : Char} {r : Text} (h : StandsAlone c r) :
    readPiece c r = (.plain c, r) := by
  rw [readPiece, if_neg h.1]
  · rintro s rfl rfl
    exact (h.2 rfl).1 rfl
  · rintro s rfl rfl
    exact (h.2 rfl).2 rfl

/-- A piece that may stand in front of a text is the one that is read. -/
theorem Stands.readPiece_eq {piece : Piece} {rest : Text} (h : Stands piece rest) :
    ∃ c r, piece.text ++ rest = c :: r ∧ readPiece c r = (piece, rest) := by
  cases h with
  | @literal inside h hn =>
    refine ⟨'"', inside ++ '"' :: rest, by simp [Piece.text], ?_⟩
    rw [readPiece_quote, splitLiteral_append h hn]
  | @openLiteral inside h =>
    refine ⟨'"', inside, List.append_nil _, ?_⟩
    rw [readPiece_quote, splitLiteral_eq_self h]
  | @line inside _ h hr =>
    refine ⟨'/', '/' :: (inside ++ rest), rfl, ?_⟩
    rw [readPiece_line, splitLine_append h hr]
  | @block inside h =>
    refine ⟨'/', '*' :: (inside ++ (blockEnd ++ rest)), by simp [Piece.text], ?_⟩
    rw [readPiece_block, splitBlock_append h]
  | @openBlock inside h =>
    refine ⟨'/', '*' :: inside, List.append_nil _, ?_⟩
    rw [readPiece_block, splitBlock_eq_self h]
  | @plain c _ h => exact ⟨c, rest, rfl, readPiece_plain h⟩

/-- Every text that is not empty begins with a piece. -/
theorem exists_stands (c : Char) (r : Text) :
    ∃ piece rest, piece.text ++ rest = c :: r ∧ Stands piece rest := by
  rcases beginning_cases c r with rfl | ⟨rfl, s, rfl⟩ | ⟨rfl, s, rfl⟩ | h
  · rcases hidesQuotes_or r with h | ⟨inside, rest, rfl, h, hn⟩
    · exact ⟨_, [], List.append_nil _, .openLiteral h⟩
    · exact ⟨_, rest, by simp [Piece.text], .literal h hn rest⟩
  · obtain ⟨inside, rest, rfl, h, hr⟩ := exists_line s
    exact ⟨_, rest, rfl, .line h hr⟩
  · rcases not_blockEnd_or s with h | ⟨inside, rest, rfl, h⟩
    · exact ⟨_, [], List.append_nil _, .openBlock h⟩
    · exact ⟨_, rest, by simp [Piece.text], .block h rest⟩
  · exact ⟨.plain c, r, rfl, .plain h⟩

/-- What is read may stand in front of what follows it. -/
theorem stands_readPiece (c : Char) (r : Text) : Stands (readPiece c r).1 (readPiece c r).2 := by
  obtain ⟨piece, rest, he, h⟩ := exists_stands c r
  obtain ⟨d, s, hd, hread⟩ := h.readPiece_eq
  obtain ⟨rfl, rfl⟩ := List.cons.inj (he.symm.trans hd)
  rw [hread]
  exact h

/-- A text splits into its pieces. -/
theorem splits_pieces (text : Text) : Splits text (pieces text) := by
  induction text using pieces.induct with
  | case1 =>
    rw [pieces]
    exact .nil
  | case2 c r ih =>
    have h := Splits.cons (stands_readPiece c r) ih
    rwa [append_readPiece, ← pieces] at h

section

variable {text : Text} {ps : List Piece}

/-- A text splits into nothing else. -/
theorem Splits.eq_pieces (h : Splits text ps) : ps = pieces text := by
  induction h with
  | nil => rw [pieces]
  | cons h _ ih =>
    obtain ⟨c, r, he, hread⟩ := h.readPiece_eq
    rw [he, pieces, hread, ih]

/-- A text is its pieces, put together. -/
theorem Splits.flatMap_text (h : Splits text ps) : ps.flatMap Piece.text = text := by
  induction h with
  | nil => rfl
  | cons _ _ ih => rw [List.flatMap_cons, ih]

end

/-! ## Without comments -/

/-- Comments are the pieces that are left out. -/
def Piece.isComment : Piece → Bool
  | .comment _ => true
  | _ => false

/-- The text of a literal. -/
def Piece.literal? : Piece → Option Text
  | .literal t => some t
  | _ => none

/-- The pieces that are no comments. -/
def withoutComments (ps : List Piece) : List Piece := ps.filter fun p => !p.isComment

/-- The literals among some pieces, as they are written. -/
def literals (ps : List Piece) : List Text := ps.filterMap Piece.literal?

/-- Leaving out comments leaves the texts of the other pieces. -/
theorem stripComments_eq (text : Text) :
    stripComments text = (withoutComments (pieces text)).flatMap Piece.text := by
  unfold stripComments withoutComments
  induction pieces text with
  | nil => rfl
  | cons piece ps ih =>
    rw [List.flatMap_cons, ih]
    cases piece <;> rfl

/-- Where there is no comment, none is left out. -/
theorem withoutComments_eq_self {ps : List Piece} (h : ∀ piece ∈ ps, piece.isComment = false) :
    withoutComments ps = ps :=
  List.filter_eq_self.2 fun piece hp => congrArg not (h piece hp)

/-- No literal is a comment. -/
theorem literals_withoutComments (ps : List Piece) :
    literals (withoutComments ps) = literals ps := by
  rw [literals, withoutComments, List.filterMap_filter, literals]
  congr 1
  funext piece
  cases piece <;> rfl

section

variable {text : Text} {ps : List Piece} {piece : Piece} {rest : Text}

/-- No piece is empty. -/
theorem Stands.text_ne_nil (h : Stands piece rest) : piece.text ≠ [] := by
  cases h <;> exact List.cons_ne_nil _ _

/-- A comment begins with a slash. -/
theorem Stands.head?_of_isComment (h : Stands piece rest) (hc : piece.isComment = true) :
    piece.text.head? = some '/' := by
  cases h <;> first | rfl | contradiction

/-- A text that begins with no slash begins with the same character without its comments. -/
theorem Splits.head?_withoutComments (h : Splits text ps) (hs : text.head? ≠ some '/') :
    ((withoutComments ps).flatMap Piece.text).head? = text.head? := by
  cases h with
  | nil => rfl
  | @cons piece rest ps h hrest =>
    rw [List.head?_append_of_ne_nil _ h.text_ne_nil] at hs ⊢
    have hc : piece.isComment = false := by
      rw [← Bool.not_eq_true]
      exact fun hc => hs (h.head?_of_isComment hc)
    rw [withoutComments, List.filter_cons_of_pos (by rw [hc]; rfl), List.flatMap_cons,
      List.head?_append_of_ne_nil _ h.text_ne_nil]

/-- A piece that is no comment may stand in front of the rest without its comments. -/
theorem Stands.withoutComments (h : Stands piece rest) (hc : piece.isComment = false)
    (hrest : Splits rest ps) :
    Stands piece ((Config.withoutComments ps).flatMap Piece.text) := by
  cases h with
  | literal h hn => exact .literal h hn _
  | openLiteral h =>
    rw [hrest.eq_pieces, pieces]
    exact .openLiteral h
  | line => contradiction
  | block => contradiction
  | openBlock => contradiction
  | plain h =>
    refine .plain ⟨h.1, fun hs => ?_⟩
    rw [hrest.head?_withoutComments (h.2 hs).1]
    exact h.2 hs

/-- The pieces that are no comments are those of the text that they make up. -/
theorem Splits.withoutComments (h : Splits text ps) :
    Splits ((Config.withoutComments ps).flatMap Piece.text) (Config.withoutComments ps) := by
  induction h with
  | nil => exact .nil
  | @cons piece rest ps hstands hrest ih =>
    cases hc : piece.isComment with
    | true =>
      rw [Config.withoutComments, List.filter_cons_of_neg (by rw [hc]; decide)]
      exact ih
    | false =>
      rw [Config.withoutComments, List.filter_cons_of_pos (by rw [hc]; rfl)]
      exact .cons (hstands.withoutComments hc hrest) ih

/-- The pieces of the result are the pieces of the text that are no comments. -/
theorem pieces_stripComments (text : Text) :
    pieces (stripComments text) = Config.withoutComments (pieces text) := by
  have h := (splits_pieces text).withoutComments
  rw [← stripComments_eq] at h
  exact h.eq_pieces.symm

/-- A text without comments is left as it is. -/
theorem stripComments_eq_self (h : ∀ piece ∈ pieces text, piece.isComment = false) :
    stripComments text = text := by
  rw [stripComments_eq, withoutComments_eq_self h, (splits_pieces text).flatMap_text]

/-- The pieces of the result are no comments. -/
theorem isComment_of_mem_pieces_stripComments (h : piece ∈ pieces (stripComments text)) :
    piece.isComment = false := by
  rw [pieces_stripComments] at h
  simpa using (List.mem_filter.1 h).2

end

/-! ## Character by character -/

/-- The rest of a literal is kept. -/
theorem keep_literal (text : Text) :
    Mode.literal.keep text =
      (splitLiteral text).1 ++ Mode.outside.keep (splitLiteral text).2 := by
  induction text using hidingInduction with
  | nil => rfl
  | last => rfl
  | hidden c r ih =>
    rw [splitLiteral, Mode.keep, if_neg (by decide), if_pos rfl, Mode.keep, ih]
    rfl
  | plain c r hc ih =>
    rw [Mode.keep, splitLiteral_cons hc, if_neg hc, ih]
    split <;> rfl

/-- The rest of a line comment is left out. -/
theorem keep_line (text : Text) :
    Mode.line.keep text = Mode.outside.keep (splitLine text).2 := by
  induction text with
  | nil => rfl
  | cons c r ih =>
    rw [Mode.keep]
    by_cases hc : c = '\n'
    · subst hc
      rfl
    · have hd : (c :: r).dropWhile (· != '\n') = r.dropWhile (· != '\n') :=
        List.dropWhile_cons_of_pos (bne_iff_ne.2 hc)
      rw [if_neg hc, ih, splitLine, splitLine, hd]

/-- The rest of a block comment is left out. -/
theorem keep_block (text : Text) :
    Mode.block.keep text = Mode.outside.keep (splitBlock text).2 := by
  induction text with
  | nil => rfl
  | cons c r ih =>
    rw [splitBlock]
    by_cases hc : c = '*' ∧ r.head? = some '/'
    · obtain ⟨rfl, hd⟩ := hc
      obtain ⟨r, rfl⟩ := List.head?_eq_some_iff.1 hd
      rfl
    · rw [if_neg hc, ← ih, Mode.keep]
      rintro s rfl rfl
      exact hc ⟨rfl, rfl⟩

/-- One piece after another is kept or left out. -/
theorem keep_outside_cons (c : Char) (r : Text) : Mode.outside.keep (c :: r) =
    (readPiece c r).1.kept ++ Mode.outside.keep (readPiece c r).2 := by
  rcases beginning_cases c r with rfl | ⟨rfl, s, rfl⟩ | ⟨rfl, s, rfl⟩ | h
  · exact congrArg ('"' :: ·) (keep_literal r)
  · exact keep_line s
  · exact keep_block s
  · rw [readPiece_plain h, Mode.keep, if_neg h.1]
    · rfl
    · rintro s rfl rfl
      exact (h.2 rfl).1 rfl
    · rintro s rfl rfl
      exact (h.2 rfl).2 rfl

/-- A reader that goes through a text character by character leaves out its comments. -/
theorem keep_outside (text : Text) : Mode.outside.keep text = stripComments text := by
  unfold stripComments
  induction text using pieces.induct with
  | case1 =>
    rw [pieces]
    rfl
  | case2 c r ih => rw [keep_outside_cons, ih, pieces, List.flatMap_cons]

/-! ## Comments left out -/

/-- A text splits into literals, comments and other characters from left to right in one way only. A
reader that goes through it character by character keeps the pieces that are no comments, and these
are the pieces of the result: it has the literals of the text as they were written and no comment. A
text that has none is left as it is, and so is the result. -/
theorem comments_are_left_out (text : Text) :
    ∃ ps, Splits text ps ∧ (∀ other, Splits text other → other = ps) ∧
      Mode.outside.keep text = stripComments text ∧
      stripComments text = (withoutComments ps).flatMap Piece.text ∧
      (∀ left, Splits (stripComments text) left ↔ left = withoutComments ps) ∧
      literals (withoutComments ps) = literals ps ∧
      (∀ piece ∈ withoutComments ps, piece.isComment = false) ∧
      ((∀ piece ∈ ps, piece.isComment = false) → stripComments text = text) ∧
      stripComments (stripComments text) = stripComments text := by
  refine ⟨pieces text, splits_pieces text, fun other h => h.eq_pieces, keep_outside text,
    stripComments_eq text, fun left => ⟨fun h => ?_, ?_⟩, literals_withoutComments _,
    fun piece hp => ?_, stripComments_eq_self,
    stripComments_eq_self fun piece => isComment_of_mem_pieces_stripComments⟩
  · rw [h.eq_pieces, pieces_stripComments]
  · rintro rfl
    rw [← pieces_stripComments]
    exact splits_pieces _
  · rw [← pieces_stripComments] at hp
    exact isComment_of_mem_pieces_stripComments hp

/-- Marks of comments in a literal are kept with the quote that is hidden in it, and the star that
begins a block comment does not end it. -/
example : stripComments "[\"//\\\"/*\", /*/ x */ 1// y\n]" = "[\"//\\\"/*\",  1\n]".toList := by
  rw [← keep_outside]
  decide

end VueSfc.Config
