import Mathlib.Data.List.Infix
import VueSfc.Offset.Markup
import VueSfc.Proofs.Offset.Slice

/-!
# Comparing bytes

A word of ASCII characters can be looked for in the bytes of a text without regard to where its
characters begin. A byte of ASCII is a character, and every other byte is above ASCII, so the word
stands at no offset inside of a character, and where it stands both of its ends are boundaries.
-/

namespace VueSfc.Offset

open Text Markup

@[simp] theorem utf8_nil : utf8 [] = [] := rfl

@[simp] theorem utf8_cons (c : Char) (text : Text) :
    utf8 (c :: text) = String.utf8EncodeChar c ++ utf8 text := rfl

@[simp] theorem length_utf8 (text : Text) : (utf8 text).length = byteSize text := by
  induction text with
  | nil => rfl
  | cons c text ih =>
    rw [utf8_cons, List.length_append, String.length_utf8EncodeChar, ih, byteSize_cons]

/-- A character of ASCII. -/
def isAscii (c : Char) : Bool := c.toNat < 128

/-- A text of ASCII characters. -/
def IsAscii (text : Text) : Prop := text.all isAscii = true

instance (text : Text) : Decidable (IsAscii text) := inferInstanceAs (Decidable (_ = true))

theorem isAscii_cons {c : Char} {text : Text} :
    IsAscii (c :: text) ↔ isAscii c = true ∧ IsAscii text := by
  simp only [IsAscii, List.all_cons, Bool.and_eq_true]

/-- What holds of each of the first 128 characters holds of every character of ASCII. -/
theorem forall_of_isAscii {P : Char → Prop} (h : ∀ n < 128, P (Char.ofNat n)) {c : Char}
    (hc : isAscii c = true) : P c := by
  have hn := h c.toNat (of_decide_eq_true hc)
  rwa [Char.ofNat_toNat] at hn

/-- The byte of a character of ASCII has its number. -/
theorem toNat_byte {c : Char} (hc : c.toNat < 128) : (UInt8.ofNat c.toNat).toNat = c.toNat := by
  rw [UInt8.toNat_ofNat', Nat.mod_eq_of_lt (by omega)]

/-- Characters of ASCII are told by their bytes. -/
theorem eq_of_byte_eq {c d : Char} (hc : c.toNat < 128) (hd : d.toNat < 128)
    (h : UInt8.ofNat c.toNat = UInt8.ofNat d.toNat) : c = d := by
  rw [← Char.ofNat_toNat c, ← Char.ofNat_toNat d, ← toNat_byte hc, ← toNat_byte hd, h]

/-- Every letter is of ASCII. -/
theorem isAlpha_eq_false {c : Char} (h : isAscii c = false) : c.isAlpha = false := by
  have hn : ¬ c.toNat < 128 := of_decide_eq_false h
  rw [Bool.eq_false_iff]
  intro ha
  have hcases : c.isUpper = true ∨ c.isLower = true := Bool.or_eq_true_iff.1 ha
  rcases hcases with hu | hl
  · have hle : c.val ≤ 'Z'.val := (of_decide_eq_true hu).2
    exact hn (Nat.lt_of_le_of_lt (UInt32.le_iff_toNat_le.1 hle) (by decide))
  · have hle : c.val ≤ 'z'.val := of_decide_eq_true (Bool.and_eq_true_iff.1 hl).2
    exact hn (Nat.lt_of_le_of_lt (UInt32.le_iff_toNat_le.1 hle) (by decide))

/-- A character of ASCII is its own byte. -/
theorem utf8EncodeChar_of_isAscii {c : Char} (h : isAscii c = true) :
    String.utf8EncodeChar c = [UInt8.ofNat c.toNat] := by
  have hc : c.val.toNat ≤ 127 := Nat.le_of_lt_succ (of_decide_eq_true h)
  unfold String.utf8EncodeChar
  exact if_pos hc

/-- The bytes of any other character are above ASCII. -/
theorem le_toNat_of_mem_utf8EncodeChar {c : Char} (h : isAscii c = false) {b : UInt8}
    (hb : b ∈ String.utf8EncodeChar c) : 128 ≤ b.toNat := by
  have hc : ¬ c.val.toNat ≤ 127 := fun hle =>
    of_decide_eq_false h (Nat.lt_succ_of_le hle)
  unfold String.utf8EncodeChar at hb
  dsimp only at hb
  rw [if_neg hc] at hb
  split at hb
  · simp only [List.mem_cons, List.not_mem_nil, or_false] at hb
    rcases hb with rfl | rfl <;> rw [UInt8.toNat_ofNat'] <;> omega
  · split at hb
    · simp only [List.mem_cons, List.not_mem_nil, or_false] at hb
      rcases hb with rfl | rfl | rfl <;> rw [UInt8.toNat_ofNat'] <;> omega
    · simp only [List.mem_cons, List.not_mem_nil, or_false] at hb
      rcases hb with rfl | rfl | rfl | rfl <;> rw [UInt8.toNat_ofNat'] <;> omega

/-- The bytes of a character behind its first one are above ASCII. -/
theorem exists_utf8EncodeChar (c : Char) : ∃ first later, String.utf8EncodeChar c = first :: later ∧
    ∀ b ∈ later, 128 ≤ b.toNat := by
  cases hc : isAscii c with
  | true => exact ⟨_, [], utf8EncodeChar_of_isAscii hc, fun b hb => absurd hb List.not_mem_nil⟩
  | false =>
    cases he : String.utf8EncodeChar c with
    | nil => exact absurd he (String.utf8EncodeChar_ne_nil)
    | cons first later =>
      refine ⟨first, later, rfl, fun b hb => le_toNat_of_mem_utf8EncodeChar hc ?_⟩
      rw [he]
      exact List.mem_cons_of_mem first hb

/-! ## Letter case of bytes -/

/-- A word stands at the front of some bytes, up to the case of ASCII letters. -/
def standsAt (word bytes : List UInt8) : Bool := eqFoldBytes (bytes.take word.length) word

/-- Lower case of bytes is lower case of characters. -/
theorem lowerByte_of_isAscii {c : Char} (h : isAscii c = true) :
    lowerByte (UInt8.ofNat c.toNat) = UInt8.ofNat c.toLower.toNat ∧ c.toLower.toNat < 128 := by
  refine forall_of_isAscii (P := fun c => lowerByte (UInt8.ofNat c.toNat) =
    UInt8.ofNat c.toLower.toNat ∧ c.toLower.toNat < 128) ?_ h
  decide

/-- A byte above ASCII is no letter. -/
theorem lowerByte_of_le {b : UInt8} (h : 128 ≤ b.toNat) : lowerByte b = b := by
  have hb : ¬ (65 ≤ b.toNat ∧ b.toNat ≤ 90) := by omega
  exact if_neg hb

/-- Two characters of ASCII agree just when their bytes do. -/
theorem sameFold_eq {p c : Char} (hp : isAscii p = true) (hc : isAscii c = true) :
    (lowerByte (UInt8.ofNat c.toNat) == lowerByte (UInt8.ofNat p.toNat)) = sameFold p c := by
  obtain ⟨hp, hpn⟩ := lowerByte_of_isAscii hp
  obtain ⟨hc, hcn⟩ := lowerByte_of_isAscii hc
  rw [hp, hc, sameFold, Bool.eq_iff_iff, beq_iff_eq, beq_iff_eq]
  constructor
  · intro h
    exact (eq_of_byte_eq hcn hpn h).symm
  · intro h
    rw [h]

/-- A byte above ASCII agrees with no character of ASCII. -/
theorem lowerByte_beq_eq_false {p : Char} {b : UInt8} (hp : isAscii p = true)
    (hb : 128 ≤ b.toNat) : (lowerByte b == lowerByte (UInt8.ofNat p.toNat)) = false := by
  obtain ⟨hp, hpn⟩ := lowerByte_of_isAscii hp
  rw [hp, lowerByte_of_le hb, beq_eq_false_iff_ne]
  rintro rfl
  rw [toNat_byte hpn] at hb
  omega

/-- A character above ASCII agrees with no character of ASCII. -/
theorem sameFold_eq_false {p c : Char} (hp : isAscii p = true) (hc : isAscii c = false) :
    sameFold p c = false := by
  rw [sameFold, toLower_eq_self (isAlpha_eq_false hc), beq_eq_false_iff_ne]
  rintro rfl
  exact of_decide_eq_false hc (lowerByte_of_isAscii hp).2

theorem standsAt_cons (b d : UInt8) (word bytes : List UInt8) :
    standsAt (b :: word) (d :: bytes) = (lowerByte d == lowerByte b && standsAt word bytes) := rfl

/-- A word that is not empty does not stand before nothing. -/
theorem standsAt_nil {word : List UInt8} (hn : word ≠ []) : standsAt word [] = false := by
  cases word with
  | nil => exact absurd rfl hn
  | cons b word => rfl

/-- A word of ASCII characters stands at no byte above ASCII. -/
theorem standsAt_of_le {word : Text} (hw : IsAscii word) (hn : word ≠ []) {b : UInt8}
    (hb : 128 ≤ b.toNat) (bytes : List UInt8) : standsAt (utf8 word) (b :: bytes) = false := by
  cases word with
  | nil => exact absurd rfl hn
  | cons p word =>
    obtain ⟨hp, -⟩ := isAscii_cons.1 hw
    rw [utf8_cons, utf8EncodeChar_of_isAscii hp, List.singleton_append, standsAt_cons,
      lowerByte_beq_eq_false hp hb, Bool.false_and]

theorem utf8_eq_nil_iff {text : Text} : utf8 text = [] ↔ text = [] := by
  cases text with
  | nil => simp
  | cons c text => simp [String.utf8EncodeChar_ne_nil]

/-- A word of ASCII characters stands at the front of a text just when its bytes stand at the front
of the bytes of the text. -/
theorem standsAt_utf8 {word : Text} (hw : IsAscii word) (text : Text) :
    standsAt (utf8 word) (utf8 text) = startsFold word text := by
  induction word generalizing text with
  | nil => rfl
  | cons p word ih =>
    obtain ⟨hp, hword⟩ := isAscii_cons.1 hw
    cases text with
    | nil => exact standsAt_nil (mt utf8_eq_nil_iff.1 (List.cons_ne_nil p word))
    | cons c text =>
      rw [startsFold]
      cases hc : isAscii c with
      | true =>
        rw [utf8_cons, utf8_cons, utf8EncodeChar_of_isAscii hp, utf8EncodeChar_of_isAscii hc,
          List.singleton_append, List.singleton_append, standsAt_cons, sameFold_eq hp hc,
          ih hword]
      | false =>
        obtain ⟨first, later, he, -⟩ := exists_utf8EncodeChar c
        have hfirst : 128 ≤ first.toNat := by
          refine le_toNat_of_mem_utf8EncodeChar hc ?_
          rw [he]
          exact List.mem_cons_self
        rw [utf8_cons c, he, List.cons_append, standsAt_of_le hw (List.cons_ne_nil p word) hfirst,
          sameFold_eq_false hp hc, Bool.false_and]

/-! ## Searching in bytes -/

/-- A word does not stand where it has no room. -/
theorem standsAt_of_length_lt {word bytes : List UInt8} (h : bytes.length < word.length) :
    standsAt word bytes = false := by
  rw [standsAt, eqFoldBytes, beq_eq_false_iff_ne]
  intro he
  have hl := congrArg List.length he
  rw [List.length_map, List.length_map, List.length_take] at hl
  omega

/-- The comparisons at all offsets that leave room for a word find it where it stands first. -/
theorem firstMatch_eq {word bytes : List UInt8} {rounds start : Nat} (hn : word ≠ [])
    (h : rounds = bytes.length + 1 - word.length - start) :
    firstMatch word bytes rounds start =
      .ok (((bytes.drop start).tails.findIdx? (standsAt word)).map (start + ·)) := by
  have hw : 0 < word.length := List.length_pos_iff.2 hn
  induction rounds generalizing start with
  | zero =>
    have hnone : (bytes.drop start).tails.findIdx? (standsAt word) = none := by
      rw [List.findIdx?_eq_none_iff]
      intro rest hrest
      apply standsAt_of_length_lt
      have hl := ((List.mem_tails _ _).1 hrest).length_le
      rw [List.length_drop] at hl
      omega
    rw [hnone]
    rfl
  | succ rounds ih =>
    have hroom : start + word.length ≤ bytes.length := by omega
    have hstart : start < bytes.length := by omega
    have htails : (bytes.drop start).tails =
        bytes.drop start :: (bytes.drop (start + 1)).tails := by
      rw [List.drop_eq_getElem_cons hstart, List.tails]
    rw [firstMatch, byteSlice_eq_ok hroom, ok_bind, ih (by omega), htails, List.findIdx?_cons]
    change (if standsAt word (bytes.drop start) = true then _ else _) = _
    split
    · rfl
    · rw [Option.map_map]
      congr 2
      funext offset
      exact (Nat.add_right_comm start 1 offset).trans (Nat.add_assoc start offset 1)

/-- Bytes above ASCII are passed over. -/
theorem findIdx?_append_of_le {word : Text} (hw : IsAscii word) (hn : word ≠ [])
    {front : List UInt8} (hf : ∀ b ∈ front, 128 ≤ b.toNat) (bytes : List UInt8) :
    (front ++ bytes).tails.findIdx? (standsAt (utf8 word)) =
      (bytes.tails.findIdx? (standsAt (utf8 word))).map (front.length + ·) := by
  induction front with
  | nil => simp
  | cons b front ih =>
    rw [List.forall_mem_cons] at hf
    rw [List.cons_append, List.tails, List.findIdx?_cons, standsAt_of_le hw hn hf.1, ih hf.2,
      Option.map_map]
    simp only [Bool.false_eq_true, if_false]
    congr 1
    funext offset
    exact (Nat.add_right_comm front.length offset 1)

/-- The first place in the bytes of a text at which a word stands is the one in the text. -/
theorem findIdx?_utf8 {word : Text} (hw : IsAscii word) (hn : word ≠ []) (text : Text) :
    (utf8 text).tails.findIdx? (standsAt (utf8 word)) = seek (startsFold word) text := by
  unfold seek
  induction text with
  | nil =>
    have hnil : startsFold word [] = false := by
      cases word with
      | nil => exact absurd rfl hn
      | cons p word => rfl
    have hbytes : standsAt (utf8 word) [] = false := standsAt_nil (mt utf8_eq_nil_iff.1 hn)
    rw [cutBefore?, hnil, utf8_nil, List.tails, List.findIdx?_cons, hbytes]
    rfl
  | cons c text ih =>
    obtain ⟨first, later, he, hlater⟩ := exists_utf8EncodeChar c
    have hsize : c.utf8Size = later.length + 1 := by
      rw [← String.length_utf8EncodeChar, he, List.length_cons]
    have hstands : standsAt (utf8 word) (first :: (later ++ utf8 text)) =
        startsFold word (c :: text) := by
      rw [← standsAt_utf8 hw, utf8_cons, he, List.cons_append]
    rw [utf8_cons, he, List.cons_append, List.tails, List.findIdx?_cons, hstands, cutBefore?]
    split
    · rfl
    · rw [findIdx?_append_of_le hw hn hlater, ih, Option.map_map, Option.map_map, Option.map_map]
      congr 1
      funext parts
      simp only [Function.comp_apply, byteSize_cons, hsize]
      omega

/-- Behind an offset come the rest of the bytes of the character that it lies in and then the text
behind that character. -/
theorem drop_utf8 {start : Nat} {text skipped rest : Text}
    (h : cutAtByte? start text = some (skipped, rest)) : ∃ later : List UInt8,
      (utf8 text).drop start = later ++ utf8 rest ∧ (∀ b ∈ later, 128 ≤ b.toNat) ∧
        start + later.length = byteSize skipped := by
  induction text generalizing start skipped with
  | nil =>
    cases start with
    | zero =>
      obtain ⟨rfl, rfl⟩ := Prod.mk.inj (Option.some.inj h)
      exact ⟨[], rfl, fun b hb => absurd hb List.not_mem_nil, rfl⟩
    | succ start => contradiction
  | cons c text ih =>
    cases start with
    | zero =>
      obtain ⟨rfl, rfl⟩ := Prod.mk.inj (Option.some.inj h)
      exact ⟨[], rfl, fun b hb => absurd hb List.not_mem_nil, rfl⟩
    | succ start =>
      obtain ⟨⟨front, back⟩, hc, he⟩ := Option.map_eq_some_iff.1 h
      obtain ⟨rfl, rfl⟩ := Prod.mk.inj he
      obtain ⟨first, tail, hbytes, htail⟩ := exists_utf8EncodeChar c
      have hsize : c.utf8Size = tail.length + 1 := by
        rw [← String.length_utf8EncodeChar, hbytes, List.length_cons]
      rw [utf8_cons, hbytes, List.cons_append, List.drop_succ_cons, byteSize_cons]
      by_cases hle : c.utf8Size ≤ start + 1
      · obtain ⟨later, hd, hlater, hl⟩ := ih hc
        refine ⟨later, ?_, hlater, by omega⟩
        rw [List.drop_append, List.drop_eq_nil_of_le (by omega), List.nil_append, ← hd]
        congr 1
        omega
      · have hzero : start + 1 - c.utf8Size = 0 := by omega
        rw [hzero, cutAtByte?] at hc
        obtain ⟨rfl, rfl⟩ := Prod.mk.inj (Option.some.inj hc)
        refine ⟨tail.drop start, ?_, fun b hb => htail b (List.mem_of_mem_drop hb), ?_⟩
        · rw [List.drop_append_of_le_length (by omega)]
        · rw [List.length_drop, byteSize_nil]
          omega

/-- There is nothing behind an offset just when it is behind the end. -/
theorem cutAtByte?_eq_none_iff {start : Nat} {text : Text} :
    cutAtByte? start text = none ↔ byteSize text < start := by
  induction text generalizing start with
  | nil => cases start <;> simp [cutAtByte?]
  | cons c text ih =>
    cases start with
    | zero => simp [cutAtByte?]
    | succ start =>
      rw [cutAtByte?, Option.map_eq_none_iff, ih, byteSize_cons]
      omega

/-- A search from an offset looks at what is behind the first boundary at or behind it. -/
theorem findFold?_of_cutAtByte? {word text skipped rest : Text} {start : Nat} (hn : word ≠ [])
    (h : cutAtByte? start text = some (skipped, rest)) :
    findFold? word text start =
      (cutBefore? (startsFold word) rest).map fun parts => byteSize skipped + byteSize parts.1 := by
  have hempty : ¬ word.isEmpty = true := mt List.isEmpty_iff.1 hn
  rw [findFold?, if_neg hempty, h]
  rfl

/-- A search from an offset finds the first offset at which the bytes of a word of ASCII characters
stand. -/
theorem findFold?_eq_findIdx? {word : Text} (hw : IsAscii word) (hn : word ≠ []) (text : Text)
    (start : Nat) : findFold? word text start =
      (((utf8 text).drop start).tails.findIdx? (standsAt (utf8 word))).map (start + ·) := by
  cases hcut : cutAtByte? start text with
  | none =>
    have hempty : ¬ word.isEmpty = true := mt List.isEmpty_iff.1 hn
    have hdrop : (utf8 text).drop start = [] := by
      rw [List.drop_eq_nil_iff, length_utf8]
      exact Nat.le_of_lt (cutAtByte?_eq_none_iff.1 hcut)
    have hnone : standsAt (utf8 word) [] = false := standsAt_nil (mt utf8_eq_nil_iff.1 hn)
    rw [findFold?, if_neg hempty, hcut, hdrop, List.tails, List.findIdx?_cons, hnone]
    rfl
  | some parts =>
    obtain ⟨skipped, rest⟩ := parts
    obtain ⟨later, hd, hlater, hl⟩ := drop_utf8 hcut
    rw [findFold?_of_cutAtByte? hn hcut, hd, findIdx?_append_of_le hw hn hlater,
      findIdx?_utf8 hw hn, seek, Option.map_map, Option.map_map]
    congr 1
    funext parts
    simp only [Function.comp_apply]
    omega

/-- A search for a word of ASCII characters keeps to the rules from any offset, be it inside of a
character or behind the end, and finds what the search by characters finds. -/
theorem findIgnoreCase_eq {word : Text} (hw : IsAscii word) (text : Text) (start : Nat) :
    findIgnoreCase word text start = .ok (findFold? word text start) := by
  unfold findIgnoreCase
  cases hn : word with
  | nil => rfl
  | cons p rest =>
    rw [← hn]
    have hne : word ≠ [] := hn ▸ List.cons_ne_nil p rest
    have hbytes : utf8 word ≠ [] := mt utf8_eq_nil_iff.1 hne
    have hnone (h : byteSize text < start + byteSize word) :
        ((utf8 text).drop start).tails.findIdx? (standsAt (utf8 word)) = none := by
      rw [List.findIdx?_eq_none_iff]
      intro bytes hmem
      apply standsAt_of_length_lt
      have hword := List.length_pos_iff.2 hbytes
      have hle := ((List.mem_tails _ _).1 hmem).length_le
      rw [length_utf8] at hword
      rw [List.length_drop, length_utf8] at hle
      rw [length_utf8]
      omega
    rw [List.isEmpty_eq_false_iff.2 hbytes, findFold?_eq_findIdx? hw hne]
    simp only [length_utf8, Bool.false_or, decide_eq_true_eq]
    split
    · rename_i hstart
      rw [hnone (Nat.lt_of_lt_of_le hstart (Nat.le_add_right _ _))]
      rfl
    · rename_i hstart
      have hstart := Nat.le_of_not_lt hstart
      rw [minus_eq_ok hstart, ok_bind]
      split
      · rename_i hroom
        rw [hnone (by omega)]
        rfl
      · rename_i hroom
        rw [minus_eq_ok (by omega), ok_bind]
        refine firstMatch_eq hbytes ?_
        rw [length_utf8, length_utf8]
        omega

/-- A comparison with the front of a text keeps to the rules, and says what the comparison by
characters says. -/
theorem startsIgnoreCase_eq {word : Text} (hw : IsAscii word) (text : Text) :
    startsIgnoreCase word text = .ok (startsFold word text) := by
  rw [startsIgnoreCase, ← standsAt_utf8 hw]
  split
  · rename_i h
    rw [standsAt_of_length_lt h]
    rfl
  · rename_i h
    rw [byteSlice_eq_take (Nat.le_of_not_lt h)]
    rfl

end VueSfc.Offset
