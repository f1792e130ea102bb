import Mathlib.Data.List.Infix
import VueSfc.Text.Search
import VueSfc.Text.Cutter

/-!
# Occurrences of a word

A word occurs in a text when some stretch of the text agrees with it up to the case of ASCII
letters. Tag words start with `<` and have no second one, so an occurrence of a tag word never
runs across a `<` of the text: putting texts together at such a place makes no new occurrence.
A cutter that finds nothing in the front of a text keeps that front as it is.
-/

namespace VueSfc.Text

/-! ## Letter case -/

private theorem isAlpha_of_code {c : Char}
    (h : 65 ≤ c.val.toNat ∧ c.val.toNat ≤ 90 ∨ 97 ≤ c.val.toNat ∧ c.val.toNat ≤ 122) :
    c.isAlpha = true := by
  rcases h with ⟨hl, hu⟩ | ⟨hl, hu⟩
  · have hc : c.isUpper = true := decide_eq_true ⟨hl, hu⟩
    exact Bool.or_eq_true_iff.2 (Or.inl hc)
  · have hc : c.isLower = true :=
      Bool.and_eq_true_iff.2 ⟨decide_eq_true hl, decide_eq_true hu⟩
    exact Bool.or_eq_true_iff.2 (Or.inr hc)

/-- A character that is no letter has no other case. -/
theorem toLower_eq_self {c : Char} (hc : c.isAlpha = false) : c.toLower = c := by
  apply dif_neg
  intro h
  have ha := isAlpha_of_code (c := c) (Or.inl h)
  rw [hc] at ha
  contradiction

/-- A character that is no letter is the lower case of no other one. -/
theorem eq_of_toLower_eq {c d : Char} (hc : c.isAlpha = false) (h : d.toLower = c) : d = c := by
  by_cases hd : d.val ≥ 'A'.val ∧ d.val ≤ 'Z'.val
  · have hl : 65 ≤ d.val.toNat := hd.1
    have hu : d.val.toNat ≤ 90 := hd.2
    have hv : d.toLower.val = d.val + 32 := congrArg Char.val (dif_pos hd)
    have hn : c.val.toNat = d.val.toNat + 32 := by
      rw [← h, hv, UInt32.toNat_add]
      change (d.val.toNat + 32) % 2 ^ 32 = _
      omega
    have ha := isAlpha_of_code (c := c) (Or.inr (by omega))
    rw [hc] at ha
    contradiction
  · have hd' : d.toLower = d := dif_neg hd
    rw [← hd', h]

/-- A character that is no letter agrees only with itself. -/
theorem sameFold_iff {c d : Char} (hc : c.isAlpha = false) : sameFold c d = true ↔ c = d := by
  rw [sameFold, beq_iff_eq, toLower_eq_self hc]
  constructor
  · intro h
    exact (eq_of_toLower_eq hc h.symm).symm
  · rintro rfl
    exact (toLower_eq_self hc).symm

/-- Texts agree just when they are the same in lower case. -/
theorem eqFold_iff {word text : Text} :
    eqFold word text = true ↔ lowerAscii word = lowerAscii text := beq_iff_eq

/-- Agreement of whole texts is agreement of their first characters and of what follows. -/
theorem eqFold_cons (p c : Char) (word text : Text) :
    eqFold (p :: word) (c :: text) = (sameFold p c && eqFold word text) := rfl

/-- A text that agrees with two words, one behind the other, is two texts that agree with them. -/
theorem exists_of_eqFold_append {u v text : Text} (h : eqFold (u ++ v) text = true) :
    ∃ front back, text = front ++ back ∧ eqFold u front = true ∧ eqFold v back = true := by
  rw [eqFold_iff, lowerAscii, List.map_append] at h
  obtain ⟨front, back, rfl, hf, hb⟩ := List.map_eq_append_iff.1 h.symm
  exact ⟨front, back, rfl, eqFold_iff.2 hf.symm, eqFold_iff.2 hb.symm⟩

/-- Texts that agree have the same length. -/
theorem length_eq_of_eqFold {word text : Text} (h : eqFold word text = true) :
    text.length = word.length := by
  have hl := congrArg List.length (beq_iff_eq.1 h)
  simpa only [List.length_map] using hl.symm

/-- A text in lower case holds the same characters other than letters. -/
theorem mem_lowerAscii {c : Char} (hc : c.isAlpha = false) (text : Text) :
    c ∈ lowerAscii text ↔ c ∈ text := by
  constructor
  · intro hm
    obtain ⟨d, hd, he⟩ := List.mem_map.1 hm
    exact eq_of_toLower_eq hc he ▸ hd
  · intro hm
    exact List.mem_map.2 ⟨c, hm, toLower_eq_self hc⟩

/-- Texts that agree hold the same characters other than letters. -/
theorem mem_iff_of_eqFold {word text : Text} {c : Char} (hc : c.isAlpha = false)
    (h : eqFold word text = true) : c ∈ text ↔ c ∈ word := by
  rw [← mem_lowerAscii hc text, ← eqFold_iff.1 h, mem_lowerAscii hc word]

/-! ## Words at the front of a text -/

/-- A word stands at the front of a text when the text begins with something that agrees. -/
theorem startsFold_iff {word text : Text} :
    startsFold word text = true ↔
      ∃ middle back, text = middle ++ back ∧ eqFold word middle = true := by
  induction word generalizing text with
  | nil =>
    constructor
    · intro _
      exact ⟨[], text, rfl, rfl⟩
    · intro _
      rfl
  | cons p word ih =>
    cases text with
    | nil =>
      constructor
      · intro h
        simp [startsFold] at h
      · rintro ⟨middle, back, he, hm⟩
        obtain ⟨rfl, -⟩ := List.append_eq_nil_iff.1 he.symm
        simp [eqFold] at hm
    | cons c text =>
      rw [startsFold, Bool.and_eq_true, ih]
      constructor
      · rintro ⟨hp, middle, back, rfl, hm⟩
        exact ⟨c :: middle, back, rfl, by rw [eqFold_cons, hp, hm]; rfl⟩
      · rintro ⟨middle, back, he, hm⟩
        cases middle with
        | nil => simp [eqFold] at hm
        | cons d middle =>
          obtain ⟨rfl, rfl⟩ := List.cons.inj he
          rw [eqFold_cons, Bool.and_eq_true] at hm
          exact ⟨hm.1, middle, back, rfl, hm.2⟩

/-- What agrees with a word stands at the front of itself continued. -/
theorem startsFold_append_of_eqFold {word middle : Text} (h : eqFold word middle = true)
    (back : Text) : startsFold word (middle ++ back) = true :=
  startsFold_iff.2 ⟨middle, back, rfl, h⟩

/-- A word at the front stays there when the text is continued. -/
theorem startsFold_append {word text : Text} (h : startsFold word text = true) (back : Text) :
    startsFold word (text ++ back) = true := by
  obtain ⟨middle, rest, rfl, hm⟩ := startsFold_iff.1 h
  rw [List.append_assoc]
  exact startsFold_append_of_eqFold hm _

/-- Texts that agree begin with the same words. -/
theorem startsFold_congr {word u v : Text} (h : eqFold u v = true) (back : Text) :
    startsFold word (v ++ back) = startsFold word (u ++ back) := by
  induction u generalizing v word with
  | nil =>
    cases v with
    | nil => rfl
    | cons c v => simp [eqFold] at h
  | cons d u ih =>
    cases v with
    | nil => simp [eqFold] at h
    | cons c v =>
      rw [eqFold_cons, Bool.and_eq_true] at h
      cases word with
      | nil => rfl
      | cons p word =>
        have hp : sameFold p c = sameFold p d := by
          rw [sameFold, sameFold, beq_iff_eq.1 h.1]
        rw [List.cons_append, List.cons_append, startsFold, startsFold, hp, ih h.2]

/-- A word cannot run across a character that none of its own agrees with. -/
theorem startsFold_of_startsFold_append_cons {word text back : Text} {x : Char}
    (hx : x ∉ word) (ha : x.isAlpha = false) (h : startsFold word (text ++ x :: back) = true) :
    startsFold word text = true := by
  induction word generalizing text with
  | nil => rfl
  | cons p word ih =>
    cases text with
    | nil =>
      rw [List.nil_append, startsFold, Bool.and_eq_true, sameFold, Bool.beq_comm] at h
      have he : x = p := (sameFold_iff ha).1 h.1
      exact absurd (he ▸ List.mem_cons_self) hx
    | cons c text =>
      rw [List.cons_append, startsFold, Bool.and_eq_true] at h
      rw [startsFold, h.1, ih (fun hm => hx (List.mem_cons_of_mem _ hm)) h.2]
      rfl

/-! ## Occurrences -/

/-- The word stands somewhere in the text, up to the case of ASCII letters. -/
def OccursFold (word text : Text) : Prop :=
  ∃ front middle back, text = front ++ middle ++ back ∧ eqFold word middle = true

/-- A word occurs where it stands at the front of some end of the text. -/
theorem occursFold_iff {word text : Text} :
    OccursFold word text ↔ ∃ front back, text = front ++ back ∧ startsFold word back = true := by
  constructor
  · rintro ⟨front, middle, back, rfl, hm⟩
    exact ⟨front, middle ++ back, List.append_assoc .., startsFold_append_of_eqFold hm back⟩
  · rintro ⟨front, back, rfl, h⟩
    obtain ⟨middle, rest, rfl, hm⟩ := startsFold_iff.1 h
    exact ⟨front, middle, rest, (List.append_assoc ..).symm, hm⟩

/-- The ends of a text can be searched one by one. -/
theorem occursFold_iff_any {word text : Text} :
    OccursFold word text ↔ text.tails.any (startsFold word) = true := by
  rw [occursFold_iff, List.any_eq_true]
  constructor
  · rintro ⟨front, back, rfl, h⟩
    exact ⟨back, (List.mem_tails ..).2 ⟨front, rfl⟩, h⟩
  · rintro ⟨back, hm, h⟩
    obtain ⟨front, he⟩ := (List.mem_tails ..).1 hm
    exact ⟨front, back, he.symm, h⟩

instance (word text : Text) : Decidable (OccursFold word text) :=
  decidable_of_iff _ occursFold_iff_any.symm

/-- An occurrence begins at the first character or behind it. -/
theorem occursFold_cons {word r : Text} {c : Char} :
    OccursFold word (c :: r) ↔ startsFold word (c :: r) = true ∨ OccursFold word r := by
  simp only [occursFold_iff]
  constructor
  · rintro ⟨front, back, he, h⟩
    cases front with
    | nil => exact Or.inl (he ▸ h)
    | cons d front => exact Or.inr ⟨front, back, (List.cons.inj he).2, h⟩
  · rintro (h | ⟨front, back, rfl, h⟩)
    · exact ⟨[], c :: r, rfl, h⟩
    · exact ⟨c :: front, back, rfl, h⟩

/-- An occurrence stays one when the text is continued at its ends. -/
theorem OccursFold.append {word text : Text} (h : OccursFold word text) (u v : Text) :
    OccursFold word (u ++ text ++ v) := by
  obtain ⟨front, middle, back, rfl, hm⟩ := h
  exact ⟨u ++ front, middle, back ++ v, by simp only [List.append_assoc], hm⟩

/-- An occurrence in the end of a text. -/
theorem OccursFold.of_append_right {word text : Text} (h : OccursFold word text) (u : Text) :
    OccursFold word (u ++ text) := by
  simpa only [List.append_nil] using h.append u []

/-- An occurrence in the front of a text. -/
theorem OccursFold.of_append_left {word text : Text} (h : OccursFold word text) (v : Text) :
    OccursFold word (text ++ v) := by
  simpa only [List.nil_append] using h.append [] v

/-- The front of a word stands where the word does. -/
theorem OccursFold.of_word_append {word more text : Text} (h : OccursFold (word ++ more) text) :
    OccursFold word text := by
  obtain ⟨front, middle, back, rfl, hm⟩ := h
  obtain ⟨u, v, rfl, hu, -⟩ := exists_of_eqFold_append hm
  exact ⟨front, u, v ++ back, by simp only [List.append_assoc], hu⟩

/-! ## Tag words -/

/-- A word that starts with `<` and has no second one. -/
def IsTagWord (word : Text) : Prop := word.head? = some '<' ∧ '<' ∉ word.tail

instance (word : Text) : Decidable (IsTagWord word) := inferInstanceAs (Decidable (_ ∧ _))

/-- Only a `<` begins a tag word. -/
theorem IsTagWord.head_eq {word r : Text} {c : Char} (hw : IsTagWord word)
    (h : startsFold word (c :: r) = true) : c = '<' := by
  cases word with
  | nil => simp [IsTagWord] at hw
  | cons p word =>
    rw [startsFold, Bool.and_eq_true] at h
    have hp : p = '<' := Option.some.inj hw.1
    exact ((sameFold_iff (hp ▸ rfl)).1 h.1).symm.trans hp

/-- What agrees with a tag word is one itself. -/
theorem IsTagWord.exists_cons {word text : Text} (hw : IsTagWord word)
    (h : eqFold word text = true) : ∃ tail, text = '<' :: tail ∧ '<' ∉ tail := by
  cases word with
  | nil => simp [IsTagWord] at hw
  | cons p word =>
    cases text with
    | nil => simp [eqFold] at h
    | cons c text =>
      rw [eqFold_cons, Bool.and_eq_true] at h
      have hp : p = '<' := Option.some.inj hw.1
      refine ⟨text, ?_, ?_⟩
      · rw [← (sameFold_iff (hp ▸ rfl)).1 h.1, hp]
      · rw [mem_iff_of_eqFold rfl h.2]
        exact hw.2

/-- A text without `<` in front holds no occurrence and begins none. -/
theorem IsTagWord.occursFold_of_append {word u text : Text} (hw : IsTagWord word)
    (hu : '<' ∉ u) (h : OccursFold word (u ++ text)) : OccursFold word text := by
  induction u with
  | nil => exact h
  | cons c u ih =>
    rw [List.cons_append, occursFold_cons] at h
    rcases h with h | h
    · exact absurd (hw.head_eq h ▸ List.mem_cons_self) hu
    · exact ih (fun hm => hu (List.mem_cons_of_mem _ hm)) h

/-- A tag word at the front of a text does not run across a later `<`. -/
theorem IsTagWord.startsFold_of_append {word text back : Text} (hw : IsTagWord word)
    (ht : text ≠ []) (h : startsFold word (text ++ '<' :: back) = true) :
    startsFold word text = true := by
  cases word with
  | nil => rfl
  | cons p word =>
    cases text with
    | nil => exact absurd rfl ht
    | cons c text =>
      rw [List.cons_append, startsFold, Bool.and_eq_true] at h
      rw [startsFold, Bool.and_eq_true]
      exact ⟨h.1, startsFold_of_startsFold_append_cons hw.2 rfl h.2⟩

/-- Putting texts together at a `<` makes no new occurrence of a tag word. -/
theorem IsTagWord.occursFold_append_cons {word text back : Text} (hw : IsTagWord word)
    (h : OccursFold word (text ++ '<' :: back)) :
    OccursFold word text ∨ OccursFold word ('<' :: back) := by
  induction text with
  | nil => exact Or.inr h
  | cons c text ih =>
    rw [List.cons_append, occursFold_cons] at h
    rcases h with h | h
    · exact Or.inl (occursFold_cons.2 (Or.inl (hw.startsFold_of_append (by simp) h)))
    · rcases ih h with h | h
      · exact Or.inl (occursFold_cons.2 (Or.inr h))
      · exact Or.inr h

/-! ## Cuts -/

/-- A text is cut behind the first occurrence of a character. -/
theorem cutAfter?_append {c : Char} {front : Text} (h : c ∉ front) (back : Text) :
    cutAfter? c (front ++ c :: back) = some (front ++ [c], back) := by
  induction front with
  | nil => simp [cutAfter?]
  | cons d front ih =>
    have hd : d ≠ c := by
      rintro rfl
      exact h List.mem_cons_self
    rw [List.cons_append, cutAfter?, ite_cond_eq_false _ _ (eq_false hd),
      ih fun hm => h (List.mem_cons_of_mem _ hm)]
    rfl

/-- A text is cut before the first end of it that passes the test. -/
theorem cutBefore?_append {test : Text → Bool} {front back : Text} (hb : test back = true)
    (h : ∀ s, s <:+ front → s ≠ [] → test (s ++ back) = false) :
    cutBefore? test (front ++ back) = some (front, back) := by
  induction front with
  | nil => cases back <;> simp [cutBefore?, hb]
  | cons c front ih =>
    have hc := h (c :: front) List.suffix_rfl (by simp)
    rw [List.cons_append] at hc
    rw [List.cons_append, cutBefore?, hc, ih fun s hs => h s (hs.trans (List.suffix_cons c front))]
    rfl

/-- A cut behind a character is a cut behind its first occurrence. -/
theorem eq_of_cutAfter? {c : Char} {text front back : Text}
    (h : cutAfter? c text = some (front, back)) : ∃ u, front = u ++ [c] ∧ c ∉ u := by
  induction text generalizing front with
  | nil => simp [cutAfter?] at h
  | cons d r ih =>
    rw [cutAfter?] at h
    split at h
    · rename_i hd
      simp only [Option.some.injEq, Prod.mk.injEq] at h
      exact ⟨[], by rw [← h.1, hd]; rfl, List.not_mem_nil⟩
    · rename_i hd
      obtain ⟨⟨f, b⟩, hf, he⟩ := Option.map_eq_some_iff.1 h
      obtain ⟨u, rfl, hu⟩ := ih (show cutAfter? c r = some (f, back) from (Prod.mk.inj he).2 ▸ hf)
      refine ⟨d :: u, (Prod.mk.inj he).1.symm, ?_⟩
      simp [Ne.symm hd, hu]

/-- What follows the first occurrence of a character in an end of a text lies behind the first one
in the text. -/
theorem suffix_of_cutAfter? {c : Char} {text front back s front' back' : Text}
    (h : cutAfter? c text = some (front, back)) (hs : s <:+ text)
    (hc : cutAfter? c s = some (front', back')) : back' <:+ back := by
  induction text generalizing front with
  | nil => simp [cutAfter?] at h
  | cons d r ih =>
    rcases List.suffix_cons_iff.1 hs with rfl | hs
    · obtain ⟨-, rfl⟩ := Prod.mk.inj (Option.some.inj (hc.symm.trans h))
      exact List.suffix_rfl
    · rw [cutAfter?] at h
      split at h
      · obtain ⟨-, rfl⟩ := Prod.mk.inj (Option.some.inj h)
        exact (append_of_cutAfter? hc ▸ List.suffix_append front' back').trans hs
      · obtain ⟨⟨f, b⟩, hf, he⟩ := Option.map_eq_some_iff.1 h
        obtain ⟨-, rfl⟩ := Prod.mk.inj he
        exact ih hf hs

/-- There is no cut behind a character just when the text does not have it. -/
theorem cutAfter?_eq_none_iff {c : Char} {text : Text} : cutAfter? c text = none ↔ c ∉ text := by
  induction text with
  | nil => simp [cutAfter?]
  | cons d r ih =>
    rw [cutAfter?]
    split
    · rename_i hd
      simp [hd]
    · rename_i hd
      rw [Option.map_eq_none_iff, ih, List.mem_cons, not_or]
      exact ⟨fun h => ⟨Ne.symm hd, h⟩, fun h => h.2⟩

/-- No end of the text that begins before the cut passes the test. -/
theorem not_test_of_cutBefore? {test : Text → Bool} {text front back s : Text}
    (h : cutBefore? test text = some (front, back)) (hs : s <:+ front) (hne : s ≠ []) :
    test (s ++ back) = false := by
  induction text generalizing front with
  | nil =>
    simp only [cutBefore?] at h
    split at h
    · simp only [Option.some.injEq, Prod.mk.injEq] at h
      rw [← h.1] at hs
      exact absurd (List.suffix_nil.1 hs) hne
    · simp at h
  | cons c r ih =>
    rw [cutBefore?] at h
    split at h
    · simp only [Option.some.injEq, Prod.mk.injEq] at h
      rw [← h.1] at hs
      exact absurd (List.suffix_nil.1 hs) hne
    · rename_i ht
      obtain ⟨⟨f, b⟩, hf, he⟩ := Option.map_eq_some_iff.1 h
      obtain ⟨rfl, rfl⟩ := Prod.mk.inj he
      rcases List.suffix_cons_iff.1 hs with rfl | hs
      · rw [List.cons_append, ← append_of_cutBefore? hf]
        simpa using ht
      · exact ih hf hs

/-- There is no cut just when no end of the text passes the test. -/
theorem cutBefore?_eq_none_iff {test : Text → Bool} {text : Text} :
    cutBefore? test text = none ↔ ∀ s, s <:+ text → test s = false := by
  induction text with
  | nil => simp [cutBefore?]
  | cons c r ih =>
    rw [cutBefore?]
    split
    · rename_i ht
      simp only [reduceCtorEq, false_iff]
      intro h
      rw [h _ List.suffix_rfl] at ht
      contradiction
    · rename_i ht
      rw [Option.map_eq_none_iff, ih]
      constructor
      · intro h s hs
        rcases List.suffix_cons_iff.1 hs with rfl | hs
        · simpa using ht
        · exact h s hs
      · intro h s hs
        exact h s (hs.trans (List.suffix_cons c r))

/-- The size of a text is that of its parts. -/
theorem byteSize_append (front back : Text) :
    byteSize (front ++ back) = byteSize front + byteSize back := by
  induction front with
  | nil => rw [List.nil_append, byteSize, Nat.zero_add]
  | cons c front ih => rw [List.cons_append, byteSize, byteSize, ih, Nat.add_assoc]

/-- Cutting a text at an offset loses nothing. -/
theorem append_of_cutAtByte? {n : Nat} {text front back : Text}
    (h : cutAtByte? n text = some (front, back)) : text = front ++ back := by
  induction text generalizing n front with
  | nil =>
    cases n with
    | zero =>
      simp only [cutAtByte?, Option.some.injEq, Prod.mk.injEq] at h
      rw [← h.1, ← h.2]
      rfl
    | succ n => simp [cutAtByte?] at h
  | cons c text ih =>
    cases n with
    | zero =>
      simp only [cutAtByte?, Option.some.injEq, Prod.mk.injEq] at h
      rw [← h.1, ← h.2]
      rfl
    | succ n =>
      rw [cutAtByte?] at h
      obtain ⟨⟨front', back'⟩, hf, he⟩ := Option.map_eq_some_iff.1 h
      simp only [Prod.mk.injEq] at he
      obtain ⟨rfl, rfl⟩ := he
      rw [ih hf]
      rfl

/-- Nothing is read from nothing. -/
theorem Cutter.read?_nil {α : Type} (cutter : Cutter α) : cutter.read? [] = none := by
  cases h : cutter.read? [] with
  | none => rfl
  | some found => exact absurd (cutter.shorter h) (Nat.not_lt_zero _)

/-- No piece is found where none is read at any end of the text. -/
theorem Cutter.find?_eq_none_iff {α : Type} {cutter : Cutter α} {text : Text} :
    cutter.find? text = none ↔ ∀ s, s <:+ text → cutter.read? s = none := by
  induction text with
  | nil => simp [find?, read?_nil]
  | cons c text ih =>
    simp only [List.suffix_cons_iff, forall_eq_or_imp, ← ih]
    rw [find?]
    cases cutter.read? (c :: text) with
    | none => simp
    | some found => simp

/-- The piece that is found is the first one that is read. -/
theorem Cutter.find?_eq_some_iff {α : Type} {cutter : Cutter α} {text front back : Text}
    {piece : α} :
    cutter.find? text = some (front, piece, back) ↔
      ∃ tail, text = front ++ tail ∧ cutter.read? tail = some (piece, back) ∧
        ∀ s, s <:+ front → s ≠ [] → cutter.read? (s ++ tail) = none := by
  constructor
  · intro h
    induction text generalizing front with
    | nil => simp [find?] at h
    | cons c text ih =>
      rw [find?] at h
      split at h
      · rename_i hr
        simp only [Option.some.injEq, Prod.mk.injEq] at h
        obtain ⟨rfl, rfl, rfl⟩ := h
        exact ⟨c :: text, rfl, hr, fun s hs hne => absurd (List.suffix_nil.1 hs) hne⟩
      · rename_i hr
        obtain ⟨⟨front', found⟩, hf, he⟩ := Option.map_eq_some_iff.1 h
        simp only [Prod.mk.injEq] at he
        obtain ⟨rfl, rfl⟩ := he
        obtain ⟨tail, rfl, hread, hnone⟩ := ih hf
        refine ⟨tail, rfl, hread, fun s hs hne => ?_⟩
        rcases List.suffix_cons_iff.1 hs with rfl | hs
        · exact hr
        · exact hnone s hs hne
  · rintro ⟨tail, rfl, hread, hnone⟩
    induction front with
    | nil =>
      cases tail with
      | nil => simp [read?_nil] at hread
      | cons c tail => rw [List.nil_append, find?, hread]
    | cons c front ih =>
      have hc := hnone (c :: front) List.suffix_rfl (List.cons_ne_nil _ _)
      rw [List.cons_append] at hc
      rw [List.cons_append, find?, hc,
        ih fun s hs => hnone s (hs.trans (List.suffix_cons c front))]
      rfl

/-- The leftmost piece is read off the text behind what precedes it. -/
theorem Cutter.exists_of_find? {α : Type} {cutter : Cutter α} {text front back : Text}
    {piece : α} (h : cutter.find? text = some (front, piece, back)) :
    ∃ tail, text = front ++ tail ∧ cutter.read? tail = some (piece, back) := by
  obtain ⟨tail, htext, hread, -⟩ := find?_eq_some_iff.1 h
  exact ⟨tail, htext, hread⟩

/-- A front at none of whose characters a piece begins is kept. -/
theorem Cutter.cut_append {α : Type} (cutter : Cutter α) {front : Text} (back : Text)
    (h : ∀ s, s <:+ front → s ≠ [] → cutter.read? (s ++ back) = none) :
    cutter.cut (front ++ back) = (front ++ (cutter.cut back).1, (cutter.cut back).2) := by
  induction front with
  | nil => rfl
  | cons c front ih =>
    have hc := h (c :: front) List.suffix_rfl (by simp)
    rw [List.cons_append] at hc ⊢
    rw [cut_cons_of_read?_eq_none hc, ih fun s hs => h s (hs.trans (List.suffix_cons c front))]
    rfl

/-- A text at none of whose characters a piece begins is kept. -/
theorem Cutter.cut_eq_self {α : Type} {cutter : Cutter α} {text : Text}
    (h : ∀ s, s <:+ text → s ≠ [] → cutter.read? s = none) : cutter.cut text = (text, []) := by
  have hnone : ∀ s, s <:+ text → s ≠ [] → cutter.read? (s ++ []) = none := by simpa using h
  have hcut := cut_append cutter [] hnone
  rwa [List.append_nil, cut_nil, List.append_nil] at hcut

/-- There are no more pieces than characters. -/
theorem Cutter.length_pieces_le {α : Type} (cutter : Cutter α) (text : Text) :
    (cutter.cut text).2.length ≤ text.length := by
  induction text using cut.induct cutter with
  | case1 =>
    rw [cut_nil]
    exact Nat.le_refl 0
  | case2 c r piece rest hr _ _ _ ih =>
    rw [cut_of_read? hr]
    exact Nat.succ_le_of_lt (Nat.lt_of_le_of_lt ih (cutter.shorter hr))
  | case3 c r hr _ _ _ ih =>
    rw [cut_cons_of_read?_eq_none hr]
    exact Nat.le_succ_of_le ih

/-- What precedes the leftmost piece is kept, and what follows it is cut on its own. -/
theorem Cutter.cut_of_find? {α : Type} {cutter : Cutter α} {text front back : Text} {piece : α}
    (h : cutter.find? text = some (front, piece, back)) :
    cutter.cut text = (front ++ (cutter.cut back).1, piece :: (cutter.cut back).2) := by
  obtain ⟨tail, rfl, hread, hnone⟩ := find?_eq_some_iff.1 h
  rw [cut_append cutter tail hnone, cut_of_read? hread]

/-- A text without a piece is kept. -/
theorem Cutter.cut_of_find?_eq_none {α : Type} {cutter : Cutter α} {text : Text}
    (h : cutter.find? text = none) : cutter.cut text = (text, []) :=
  cut_eq_self fun s hs _ => find?_eq_none_iff.1 h s hs

end VueSfc.Text
