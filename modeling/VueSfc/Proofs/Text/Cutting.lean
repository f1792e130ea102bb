import VueSfc.Proofs.Text.Occurrence

/-!
# Texts cut up

A text is cut up into stretches that are kept and pieces between them. A rule says which stretch may
stand in front of which piece, given what follows the piece, and which stretch may be the last one.
A cutter follows a rule when the piece that it finds first is the one piece that the rule allows,
and it finds none just where the rule allows the text as a last stretch. Then each text has exactly
one cutting by the rule, and the cutter leaves its stretches and takes out its pieces.
-/

namespace VueSfc.Text

/-! ## Cuttings -/

/-- A text cut up. -/
structure Cutting (α : Type) where
  /-- The stretches that stand in front of a piece, each with the piece. -/
  parts : List (Text × α)
  /-- The stretch behind the last piece. -/
  last : Text
  deriving DecidableEq, Repr

namespace Cutting

variable {α : Type}

/-- What is kept: all stretches, put together. -/
def kept (c : Cutting α) : Text := c.parts.flatMap Prod.fst ++ c.last

/-- What is taken out: the pieces in order. -/
def pieces (c : Cutting α) : List α := c.parts.map Prod.snd

/-- The text that was cut up. -/
def text (write : α → Text) (c : Cutting α) : Text :=
  c.parts.flatMap (fun (stretch, piece) => stretch ++ write piece) ++ c.last

/-- One more stretch and piece in front. -/
def cons (stretch : Text) (piece : α) (c : Cutting α) : Cutting α :=
  ⟨(stretch, piece) :: c.parts, c.last⟩

@[simp] theorem kept_cons (stretch : Text) (piece : α) (c : Cutting α) :
    (c.cons stretch piece).kept = stretch ++ c.kept := by
  rw [kept, kept, cons, List.flatMap_cons, List.append_assoc]

@[simp] theorem pieces_cons (stretch : Text) (piece : α) (c : Cutting α) :
    (c.cons stretch piece).pieces = piece :: c.pieces := rfl

@[simp] theorem text_cons (write : α → Text) (stretch : Text) (piece : α) (c : Cutting α) :
    (c.cons stretch piece).text write = stretch ++ (write piece ++ c.text write) := by
  rw [text, text, cons, List.flatMap_cons, List.append_assoc, List.append_assoc]

end Cutting

/-! ## Rules -/

/-- What the cuttings of texts are to be like. -/
structure CutRule (α : Type) where
  /-- A piece as it stands in the text. -/
  write : α → Text
  /-- A stretch may stand in front of a piece that has the given rest of the text behind it. -/
  IsPart : (stretch : Text) → (piece : α) → (rest : Text) → Prop
  /-- A stretch may be the last one. -/
  IsLast : (stretch : Text) → Prop

namespace CutRule

variable {α : Type}

/-- The text is cut up by the rule. -/
inductive Cuts (rule : CutRule α) : Text → Cutting α → Prop
  /-- No piece is taken out. -/
  | last {text : Text} (h : rule.IsLast text) : Cuts rule text ⟨[], text⟩
  /-- A piece is taken out, and what follows it is cut up on its own. -/
  | part {stretch rest : Text} {piece : α} {c : Cutting α} (h : rule.IsPart stretch piece rest)
      (hrest : Cuts rule rest c) :
      Cuts rule (stretch ++ (rule.write piece ++ rest)) (c.cons stretch piece)

/-- A cutting is one of the text. -/
theorem Cuts.text_eq {rule : CutRule α} {text : Text} {c : Cutting α} (h : rule.Cuts text c) :
    c.text rule.write = text := by
  induction h with
  | last h => rfl
  | part h hrest ih => rw [Cutting.text_cons, ih]

end CutRule

/-! ## Cutters that follow a rule -/

namespace Cutter

variable {α : Type} {cutter : Cutter α}

/-- What follows the piece that is found is shorter than the text. -/
theorem length_lt_of_find? {text front back : Text} {piece : α}
    (h : cutter.find? text = some (front, piece, back)) : back.length < text.length := by
  obtain ⟨tail, rfl, hread⟩ := exists_of_find? h
  have hlength := cutter.shorter hread
  rw [List.length_append]
  omega

/-- The text cut up at every piece that is found. -/
def cutting (cutter : Cutter α) (text : Text) : Cutting α :=
  match h : cutter.find? text with
  | none => ⟨[], text⟩
  | some (front, piece, back) =>
    have : back.length < text.length := length_lt_of_find? h
    (cutter.cutting back).cons front piece
termination_by text.length

/-- A text without a piece is the last stretch. -/
theorem cutting_of_find?_eq_none {text : Text} (h : cutter.find? text = none) :
    cutter.cutting text = ⟨[], text⟩ := by
  rw [cutting]
  split <;> simp_all

/-- What follows the piece found first is cut up on its own. -/
theorem cutting_of_find? {text front back : Text} {piece : α}
    (h : cutter.find? text = some (front, piece, back)) :
    cutter.cutting text = (cutter.cutting back).cons front piece := by
  rw [cutting]
  split <;> simp_all

/-- Cutting pieces out leaves the stretches of the text cut up. -/
theorem cut_eq (cutter : Cutter α) (text : Text) :
    cutter.cut text = ((cutter.cutting text).kept, (cutter.cutting text).pieces) := by
  induction text using cutting.induct cutter with
  | case1 text h =>
    rw [cut_of_find?_eq_none h, cutting_of_find?_eq_none h]
    rfl
  | case2 text front piece back h _ ih =>
    rw [cut_of_find? h, cutting_of_find? h, ih, Cutting.kept_cons, Cutting.pieces_cons]

/-- The piece found first is the only one that the rule allows. -/
structure Follows (cutter : Cutter α) (rule : CutRule α) : Prop where
  /-- No piece is found in what may be a last stretch. -/
  find?_eq_none : ∀ {text}, cutter.find? text = none ↔ rule.IsLast text
  /-- A piece is found where it may stand. -/
  find?_eq_some : ∀ {text stretch piece rest},
    cutter.find? text = some (stretch, piece, rest) ↔
      text = stretch ++ (rule.write piece ++ rest) ∧ rule.IsPart stretch piece rest

/-- The one cutting of a text by a rule that is followed. -/
theorem Follows.cuts_iff {rule : CutRule α} (h : cutter.Follows rule) {text : Text}
    {c : Cutting α} : rule.Cuts text c ↔ c = cutter.cutting text := by
  constructor
  · intro hc
    induction hc with
    | last hlast => rw [cutting_of_find?_eq_none (h.find?_eq_none.2 hlast)]
    | part hpart _ ih => rw [cutting_of_find? (h.find?_eq_some.2 ⟨rfl, hpart⟩), ih]
  · rintro rfl
    induction text using cutting.induct cutter with
    | case1 text hf =>
      rw [cutting_of_find?_eq_none hf]
      exact .last (h.find?_eq_none.1 hf)
    | case2 text front piece back hf _ ih =>
      obtain ⟨rfl, hpart⟩ := h.find?_eq_some.1 hf
      rw [cutting_of_find? hf]
      exact .part hpart ih

/-- Cutting pieces out by a rule cuts the text up in the one way that the rule allows. -/
theorem Follows.exists_unique {rule : CutRule α} (h : cutter.Follows rule) (text : Text) :
    ∃ c, rule.Cuts text c ∧ cutter.cut text = (c.kept, c.pieces) ∧
      ∀ other, rule.Cuts text other → other = c :=
  ⟨cutter.cutting text, h.cuts_iff.2 rfl, cutter.cut_eq text, fun _ => h.cuts_iff.1⟩

end Cutter

end VueSfc.Text
