import VueSfc.Offset.Slice
import VueSfc.Proofs.Text.Occurrence

/-!
# Ranges that keep to the rules

A step on byte offsets keeps to the rules just when the text can be divided at its offsets, and then
it gives what lies between them. A search gives the size of what stands in front of the first or the
last place that passes.
-/

namespace VueSfc.Offset

open Text

/-- A difference keeps to the rules where it is not negative. -/
theorem minus_eq_ok {whole part : Nat} (h : part ≤ whole) : minus whole part = .ok (whole - part) :=
  if_pos h

/-- A range of bytes keeps to the rules where it starts before it stops and stops before the end. -/
theorem byteSlice_eq_ok {bytes : List UInt8} {start size : Nat} (h : start + size ≤ bytes.length) :
    byteSlice bytes start (start + size) = .ok ((bytes.drop start).take size) := by
  have hs : ¬ start + size < start := by omega
  have hl : ¬ bytes.length < start + size := by omega
  rw [byteSlice, if_neg hs, if_neg hl, List.drop_take, Nat.add_sub_cancel_left]

/-- The bytes from an offset on. -/
theorem byteSlice_eq_drop {bytes : List UInt8} {start : Nat} (h : start ≤ bytes.length) :
    byteSlice bytes start bytes.length = .ok (bytes.drop start) := by
  rw [byteSlice, if_neg (Nat.not_lt.2 h), if_neg (Nat.lt_irrefl _), List.take_length]

/-- The bytes up to an offset. -/
theorem byteSlice_eq_take {bytes : List UInt8} {stop : Nat} (h : stop ≤ bytes.length) :
    byteSlice bytes 0 stop = .ok (bytes.take stop) := by
  rw [byteSlice, if_neg (Nat.not_lt_zero _), if_neg (Nat.not_lt.2 h), List.drop_zero]

/-! ## Ranges of a text -/

@[simp] theorem byteSize_nil : byteSize [] = 0 := rfl

@[simp] theorem byteSize_cons (c : Char) (text : Text) :
    byteSize (c :: text) = c.utf8Size + byteSize text := rfl

/-- Characters that are taken out of a text take bytes with them. -/
theorem byteSize_le_of_sublist {part whole : Text} (h : part.Sublist whole) :
    byteSize part ≤ byteSize whole := by
  induction h with
  | slnil => exact Nat.le_refl 0
  | cons c h ih =>
    rw [byteSize_cons]
    omega
  | cons_cons c h ih =>
    rw [byteSize_cons, byteSize_cons]
    omega

/-- At the size of a front a text is cut behind that front. -/
theorem cutAtByte?_append (front back : Text) :
    cutAtByte? (byteSize front) (front ++ back) = some (front, back) := by
  induction front with
  | nil => cases back <;> rfl
  | cons c front ih =>
    have hc : byteSize (c :: front) = (c.utf8Size - 1 + byteSize front) + 1 := by
      have hpos := c.utf8Size_pos
      rw [byteSize_cons]
      omega
    have hrest : c.utf8Size - 1 + byteSize front + 1 - c.utf8Size = byteSize front := by
      have hpos := c.utf8Size_pos
      omega
    rw [hc, List.cons_append, cutAtByte?, hrest, ih]
    rfl

/-- An offset is where a text can be cut just when it is the size of a front. -/
theorem cutAt_eq_ok_iff {text front back : Text} {offset : Nat} :
    cutAt text offset = .ok (front, back) ↔ text = front ++ back ∧ offset = byteSize front := by
  unfold cutAt
  constructor
  · intro h
    split at h
    · contradiction
    · rename_i left right hc
      split at h
      · rename_i hs
        obtain ⟨rfl, rfl⟩ := Prod.mk.inj (Except.ok.inj h)
        exact ⟨append_of_cutAtByte? hc, hs.symm⟩
      · contradiction
  · rintro ⟨rfl, rfl⟩
    rw [cutAtByte?_append]
    exact if_pos rfl

/-- Two fronts of a text that have the same size are the same. -/
theorem append_inj_of_byteSize {front back front' back' : Text}
    (h : front ++ back = front' ++ back') (hs : byteSize front = byteSize front') :
    front = front' ∧ back = back' := by
  have hcut : cutAt (front ++ back) (byteSize front) = .ok (front, back) :=
    cutAt_eq_ok_iff.2 ⟨rfl, rfl⟩
  have hcut' : cutAt (front ++ back) (byteSize front) = .ok (front', back') :=
    cutAt_eq_ok_iff.2 ⟨h, hs⟩
  exact Prod.mk.inj (Except.ok.inj (hcut.symm.trans hcut'))

/-- A range keeps to the rules just when the text can be divided at its two ends: then the start is
not behind the stop, the stop is not behind the end, and both are boundaries between characters. -/
theorem slice_eq_ok_iff {text piece : Text} {start stop : Nat} :
    slice text start stop = .ok piece ↔ ∃ front back, text = front ++ piece ++ back ∧
      start = byteSize front ∧ stop = start + byteSize piece := by
  unfold slice
  constructor
  · intro h
    split at h
    · contradiction
    · cases hstop : cutAt text stop with
      | error breach =>
        rw [hstop] at h
        contradiction
      | ok parts =>
        obtain ⟨left, back⟩ := parts
        rw [hstop, ok_bind] at h
        dsimp only at h
        cases hstart : cutAt left start with
        | error breach =>
          rw [hstart] at h
          contradiction
        | ok parts =>
          obtain ⟨front, middle⟩ := parts
          rw [hstart, ok_bind] at h
          obtain rfl := Except.ok.inj h
          obtain ⟨rfl, rfl⟩ := cutAt_eq_ok_iff.1 hstop
          obtain ⟨rfl, rfl⟩ := cutAt_eq_ok_iff.1 hstart
          exact ⟨front, back, rfl, rfl, byteSize_append _ _⟩
  · rintro ⟨front, back, rfl, rfl, rfl⟩
    have hs : ¬ byteSize front + byteSize piece < byteSize front := by omega
    have hstop : cutAt (front ++ piece ++ back) (byteSize front + byteSize piece) =
        .ok (front ++ piece, back) :=
      cutAt_eq_ok_iff.2 ⟨rfl, (byteSize_append _ _).symm⟩
    have hstart : cutAt (front ++ piece) (byteSize front) = .ok (front, piece) :=
      cutAt_eq_ok_iff.2 ⟨rfl, rfl⟩
    rw [if_neg hs, hstop, ok_bind, hstart, ok_bind, pure_eq_ok]

example : slice "aé" 0 2 = .error (.insideChar 2) := by decide

/-- The range between a front and a back. -/
theorem slice_eq {text front piece back : Text} {start stop : Nat}
    (h : text = front ++ piece ++ back) (hs : start = byteSize front)
    (he : stop = start + byteSize piece) : slice text start stop = .ok piece :=
  slice_eq_ok_iff.2 ⟨front, back, h, hs, he⟩

/-- The range behind a front. -/
theorem sliceFrom_eq {text front back : Text} {start : Nat} (h : text = front ++ back)
    (hs : start = byteSize front) : sliceFrom text start = .ok back := by
  refine slice_eq (h.trans (List.append_nil _).symm) hs ?_
  rw [h, hs, byteSize_append]

/-- The range before a back. -/
theorem sliceTo_eq {text front back : Text} {stop : Nat} (h : text = front ++ back)
    (hs : stop = byteSize front) : sliceTo text stop = .ok front :=
  slice_eq_ok_iff.2 ⟨[], back, h, rfl, by rw [hs, Nat.zero_add]⟩

/-! ## Searches -/

/-- A search for a character fails where no character passes. -/
theorem seekChar_eq_none {test : Char → Bool} {text : Text} (h : ∀ c ∈ text, test c = false) :
    seekChar test text = none := by
  unfold seekChar seek
  rw [Option.map_eq_none_iff, cutBefore?_eq_none_iff]
  intro s hs
  cases s with
  | nil => rfl
  | cons c r => exact h c (hs.subset List.mem_cons_self)

/-- A search for a character finds the first one that passes. -/
theorem seekChar_eq_some {test : Char → Bool} {front back : Text} {c : Char}
    (hf : ∀ d ∈ front, test d = false) (hc : test c = true) :
    seekChar test (front ++ c :: back) = some (byteSize front) := by
  have hcut : cutBefore? (fun rest => rest.head?.any test) (front ++ c :: back) =
      some (front, c :: back) := by
    refine cutBefore?_append hc fun s hs hn => ?_
    cases s with
    | nil => exact absurd rfl hn
    | cons d r => exact hf d (hs.subset List.mem_cons_self)
  rw [seekChar, seek, hcut]
  rfl

/-- Either no character passes or there is a first one that does. -/
theorem exists_first (test : Char → Bool) (text : Text) :
    (∀ c ∈ text, test c = false) ∨ ∃ front c back, text = front ++ c :: back ∧
      (∀ d ∈ front, test d = false) ∧ test c = true := by
  induction text with
  | nil => exact .inl fun c hc => absurd hc List.not_mem_nil
  | cons c text ih =>
    by_cases hc : test c = true
    · exact .inr ⟨[], c, text, rfl, fun d hd => absurd hd List.not_mem_nil, hc⟩
    · rw [Bool.not_eq_true] at hc
      rcases ih with h | ⟨front, d, back, rfl, hf, hd⟩
      · exact .inl (List.forall_mem_cons.2 ⟨hc, h⟩)
      · exact .inr ⟨c :: front, d, back, rfl, List.forall_mem_cons.2 ⟨hc, hf⟩, hd⟩

/-- A search from the end finds the last character that passes. -/
theorem seekLast_eq_some {test : Char → Bool} {front back : Text} {c : Char}
    (hb : ∀ d ∈ back, test d = false) (hc : test c = true) :
    seekLast test (front ++ c :: back) = some (byteSize front) := by
  induction front with
  | nil =>
    have hnone : ∀ text : Text, (∀ d ∈ text, test d = false) → seekLast test text = none := by
      intro text h
      induction text with
      | nil => rfl
      | cons d text ih =>
        rw [List.forall_mem_cons] at h
        rw [seekLast, ih h.2, h.1]
        rfl
    rw [List.nil_append, seekLast, hnone back hb]
    exact if_pos hc
  | cons d front ih =>
    rw [List.cons_append, seekLast, ih]
    rfl

end VueSfc.Offset
