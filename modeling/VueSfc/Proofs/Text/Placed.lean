import Mathlib.Data.List.Chain
import VueSfc.Text.Cutter

/-!
# Characters with their places

A text that is cut out of another one keeps, for every character, the place where it stood. A
stretch of characters is unbroken where their places follow one upon the other, so a stretch that
came together only because something between its characters was removed is not unbroken. An
unbroken stretch of what was cut out of a text is a stretch of that text.
-/

namespace VueSfc.Text

/-- Characters, each with the place where it stood. -/
abbrev Placed := List (Char × Nat)

namespace Placed

/-- The characters alone. -/
def letters (t : Placed) : Text := t.map Prod.fst

/-- The characters of a text at the places where they stand. -/
def ofText (text : Text) : Placed := text.zipIdx

/-- Places increase from each character to all later ones. -/
def IsOrdered (t : Placed) : Prop := t.Pairwise fun x y => x.2 < y.2

/-- The characters stood next to each other. -/
def IsUnbroken (t : Placed) : Prop := t.IsChain fun x y => y.2 = x.2 + 1

instance (t : Placed) : Decidable t.IsUnbroken := inferInstanceAs (Decidable (t.IsChain _))

@[simp] theorem letters_nil : letters [] = [] := rfl

@[simp] theorem letters_cons (x : Char × Nat) (t : Placed) : letters (x :: t) = x.1 :: t.letters :=
  rfl

@[simp] theorem letters_append (t u : Placed) : letters (t ++ u) = t.letters ++ u.letters :=
  List.map_append

@[simp] theorem letters_reverse (t : Placed) : letters t.reverse = t.letters.reverse :=
  List.map_reverse

@[simp] theorem letters_take (n : Nat) (t : Placed) : letters (t.take n) = t.letters.take n :=
  List.map_take

@[simp] theorem letters_drop (n : Nat) (t : Placed) : letters (t.drop n) = t.letters.drop n :=
  List.map_drop

@[simp] theorem length_letters (t : Placed) : t.letters.length = t.length := List.length_map _

@[simp] theorem letters_takeWhile (test : Char → Bool) (t : Placed) :
    letters (t.takeWhile fun x => test x.1) = t.letters.takeWhile test :=
  List.takeWhile_map.symm

@[simp] theorem letters_dropWhile (test : Char → Bool) (t : Placed) :
    letters (t.dropWhile fun x => test x.1) = t.letters.dropWhile test :=
  List.dropWhile_map.symm

@[simp] theorem letters_filter (test : Char → Bool) (t : Placed) :
    letters (t.filter fun x => test x.1) = t.letters.filter test :=
  List.filter_map.symm

/-- The characters of a text are those of the text. -/
theorem letters_ofText (text : Text) : (ofText text).letters = text := List.zipIdx_map_fst 0 text

/-- Where the characters are cut in two, so are the placed ones. -/
theorem exists_append_of_letters {t : Placed} {front back : Text}
    (h : t.letters = front ++ back) :
    ∃ u v, t = u ++ v ∧ u.letters = front ∧ v.letters = back :=
  List.map_eq_append_iff.1 h

/-- The places in a text increase. -/
theorem isOrdered_ofText (text : Text) : (ofText text).IsOrdered := by
  have hp : ((ofText text).map Prod.snd).Pairwise (· < ·) := by
    rw [ofText, List.zipIdx_map_snd]
    exact List.pairwise_lt_range'
  exact List.pairwise_map.1 hp

/-- What is cut out of a text in order is in order. -/
theorem IsOrdered.of_sublist {t u : Placed} (hu : u.IsOrdered) (h : t.Sublist u) : t.IsOrdered :=
  List.Pairwise.sublist h hu

/-- Unbroken characters that follow a character in what was cut out of a text follow it in the
text too. -/
theorem IsUnbroken.exists_eq_append {x : Char × Nat} {word rest u : Placed}
    (hw : IsUnbroken (x :: word)) (hu : IsOrdered (x :: u)) (h : (word ++ rest).Sublist u) :
    ∃ rest', u = word ++ rest' ∧ rest.Sublist rest' := by
  induction word generalizing x u with
  | nil => exact ⟨u, rfl, h⟩
  | cons y word ih =>
    have hxy : y.2 = x.2 + 1 := (List.isChain_cons_cons.1 hw).1
    have hword : IsUnbroken (y :: word) := (List.isChain_cons_cons.1 hw).2
    cases u with
    | nil => simp at h
    | cons z u =>
      have hxz : x.2 < z.2 := (List.pairwise_cons.1 hu).1 z List.mem_cons_self
      have hzu : IsOrdered (z :: u) := (List.pairwise_cons.1 hu).2
      cases h with
      | cons _ h =>
        -- The character would stand behind another one that is behind its neighbour.
        have hm : y ∈ u := h.subset List.mem_cons_self
        have hzy : z.2 < y.2 := (List.pairwise_cons.1 hzu).1 y hm
        omega
      | cons_cons _ h =>
        obtain ⟨rest', rfl, hr⟩ := ih hword hzu h
        exact ⟨rest', rfl, hr⟩

/-- An unbroken stretch of what was cut out of a text is a stretch of the text. -/
theorem exists_append_of_sublist {word rest u : Placed} (hne : word ≠ []) (hw : word.IsUnbroken)
    (hu : u.IsOrdered) (h : (word ++ rest).Sublist u) :
    ∃ front rest', u = front ++ (word ++ rest') ∧ rest.Sublist rest' := by
  cases word with
  | nil => contradiction
  | cons x word =>
    obtain ⟨u₁, u₂, rfl, hx, hs⟩ := List.cons_sublist_iff.1 h
    obtain ⟨front, u₁, rfl⟩ := List.append_of_mem hx
    have hback : IsOrdered (x :: (u₁ ++ u₂)) := by
      apply hu.of_sublist
      rw [List.append_assoc]
      exact List.sublist_append_right _ _
    obtain ⟨rest', he, hr⟩ :=
      hw.exists_eq_append hback (hs.trans (List.sublist_append_right _ _))
    refine ⟨front, rest', ?_, hr⟩
    rw [List.append_assoc, List.cons_append, he]
    rfl

/-- An unbroken stretch of what was cut out of a text is a stretch of its characters. -/
theorem IsUnbroken.letters_isInfix {t middle : Placed} {text : Text} (hu : middle.IsUnbroken)
    (hm : middle <:+: t) (ht : t.Sublist (ofText text)) : middle.letters <:+: text := by
  by_cases hn : middle = []
  · rw [hn]
    exact List.nil_infix
  · obtain ⟨front, back, rfl⟩ := hm
    rw [List.append_assoc] at ht
    obtain ⟨front', back', he, -⟩ := exists_append_of_sublist hn hu (isOrdered_ofText text)
      ((List.sublist_append_right _ _).trans ht)
    refine ⟨front'.letters, back'.letters, ?_⟩
    rw [← letters_append, ← letters_append, List.append_assoc, ← he, letters_ofText]

end Placed

/-- What is cut out of each of several stretches, put together, is cut out of the whole. -/
theorem flatMap_sublist_flatten {α : Type} {change : List α → List α}
    (h : ∀ l, (change l).Sublist l) (ls : List (List α)) :
    (ls.flatMap change).Sublist ls.flatten := by
  induction ls with
  | nil => exact List.Sublist.refl _
  | cons l ls ih =>
    rw [List.flatMap_cons, List.flatten_cons]
    exact (h l).append ih

/-! ## Cutting -/

namespace Cutter

variable {α : Type}

/-- Reading splits off a part at the front. -/
def Splits (cutter : Cutter α) : Prop :=
  ∀ {text piece rest}, cutter.read? text = some (piece, rest) → rest <:+ text

/-- The characters that are left, with their places, when every piece is cut out. -/
def leave (cutter : Cutter α) : Placed → Placed
  | [] => []
  | x :: t =>
    match _h : cutter.read? (Placed.letters (x :: t)) with
    | some (_, rest) => cutter.leave ((x :: t).drop ((x :: t).length - rest.length))
    | none => x :: cutter.leave t
termination_by t => t.length
decreasing_by
  · have hs := cutter.shorter _h
    rw [Placed.length_letters] at hs
    rw [List.length_drop]
    omega
  · exact Nat.lt_succ_self _

/-- Nothing is left of nothing. -/
theorem leave_nil (cutter : Cutter α) : cutter.leave [] = [] := by
  rw [leave]

/-- A piece at the front is cut out. -/
theorem leave_of_read? {cutter : Cutter α} {t : Placed} {piece : α} {rest : Text}
    (h : cutter.read? t.letters = some (piece, rest)) :
    cutter.leave t = cutter.leave (t.drop (t.length - rest.length)) := by
  cases t with
  | nil => exact absurd (cutter.shorter h) (Nat.not_lt_zero _)
  | cons x t => rw [leave]; split <;> simp_all

/-- A character at which no piece begins is left. -/
theorem leave_cons_of_read?_eq_none {cutter : Cutter α} {x : Char × Nat} {t : Placed}
    (h : cutter.read? (Placed.letters (x :: t)) = none) :
    cutter.leave (x :: t) = x :: cutter.leave t := by
  rw [leave]; split <;> simp_all

/-- Cutting keeps the order and adds nothing. -/
theorem leave_sublist (cutter : Cutter α) (t : Placed) : (cutter.leave t).Sublist t := by
  induction t using leave.induct cutter with
  | case1 => rw [leave_nil]
  | case2 x t piece rest h ih =>
    rw [leave_of_read? h]
    exact ih.trans (List.drop_sublist _ _)
  | case3 x t h ih =>
    rw [leave_cons_of_read?_eq_none h]
    exact ih.cons_cons x

/-- The characters left are those of the text that is left. -/
theorem letters_leave {cutter : Cutter α} (hc : cutter.Splits) (t : Placed) :
    (cutter.leave t).letters = cutter.remove t.letters := by
  induction t using leave.induct cutter with
  | case1 => rw [leave_nil, Placed.letters_nil, remove, cut_nil]
  | case2 x t piece rest h ih =>
    have hs := List.suffix_iff_eq_drop.1 (hc h)
    rw [Placed.length_letters] at hs
    rw [leave_of_read? h, ih, Placed.letters_drop, ← hs, remove, remove, cut_of_read? h]
  | case3 x t h ih =>
    rw [leave_cons_of_read?_eq_none h, Placed.letters_cons, ih]
    rw [Placed.letters_cons] at h ⊢
    rw [remove, remove, cut_cons_of_read?_eq_none h]

/-- Every piece that is cut out was read somewhere. -/
theorem exists_read?_of_mem_cut {cutter : Cutter α} {piece : α} {text : Text}
    (h : piece ∈ (cutter.cut text).2) :
    ∃ tail rest, cutter.read? tail = some (piece, rest) := by
  induction text using cut.induct cutter with
  | case1 =>
    rw [cut_nil] at h
    contradiction
  | case2 c r first rest hr _ _ _ ih =>
    rw [cut_of_read? hr] at h
    rcases List.mem_cons.1 h with rfl | h
    · exact ⟨_, rest, hr⟩
    · exact ih h
  | case3 c r hr _ _ _ ih =>
    rw [cut_cons_of_read?_eq_none hr] at h
    exact ih h

/-- The pieces that are cut out, one after another, are cut out of the text in order, if each of
them is cut out of its text in front of what follows. -/
theorem flatMap_pieces_sublist {cutter : Cutter α} {part : α → Text}
    (h : ∀ {text piece rest}, cutter.read? text = some (piece, rest) →
      (part piece ++ rest).Sublist text) (text : Text) :
    ((cutter.cut text).2.flatMap part).Sublist text := by
  induction text using cut.induct cutter with
  | case1 =>
    rw [cut_nil]
    exact List.nil_sublist _
  | case2 c r piece rest hr _ _ _ ih =>
    rw [cut_of_read? hr, List.flatMap_cons]
    exact ((List.Sublist.refl _).append ih).trans (h hr)
  | case3 c r hr _ _ _ ih =>
    rw [cut_cons_of_read?_eq_none hr]
    exact ih.cons c

end Cutter

end VueSfc.Text
