import VueSfc.FileTree
import VueSfc.Proofs.Offset.Bytes

/-!
# The order of bytes

Texts in the order of their characters are in the order of their bytes: of two characters the lower
one has the lower first byte, or the same first byte and then the lower one behind it, and so on, so
that what follows the characters does not matter.
-/

namespace VueSfc.Text

/-- Strings of bytes are in order if their first bytes are, or if these are the same and what
follows them is in order. -/
theorem byte_cons_lt {a b : Nat} (hb : b < 256) {s r : List UInt8} (h : a < b ∨ a = b ∧ s < r) :
    UInt8.ofNat a :: s < UInt8.ofNat b :: r := by
  rw [List.cons_lt_cons_iff]
  rcases h with h | ⟨rfl, h⟩
  · refine .inl (UInt8.lt_iff_toNat_lt.2 ?_)
    rw [UInt8.toNat_ofNat', UInt8.toNat_ofNat', Nat.mod_eq_of_lt (by omega),
      Nat.mod_eq_of_lt (by omega)]
    exact h
  · exact .inr ⟨rfl, h⟩

/-! ## Characters

Behind its first byte a character has its last six bits, the six bits before those and so on, in a
byte each. -/

section

variable {v w : Nat} (h : v < w) (s r : List UInt8)
include h

private theorem oneByte_lt (he : v / 64 = w / 64) :
    UInt8.ofNat (v % 64 + 128) :: s < UInt8.ofNat (w % 64 + 128) :: r :=
  byte_cons_lt (by omega) (.inl (by omega))

private theorem twoBytes_lt (he : v / 4096 = w / 4096) :
    UInt8.ofNat (v / 64 % 64 + 128) :: UInt8.ofNat (v % 64 + 128) :: s <
      UInt8.ofNat (w / 64 % 64 + 128) :: UInt8.ofNat (w % 64 + 128) :: r := by
  rcases Nat.lt_or_ge (v / 64) (w / 64) with hl | hl
  · exact byte_cons_lt (by omega) (.inl (by omega))
  · exact byte_cons_lt (by omega) (.inr ⟨by omega, oneByte_lt h s r (by omega)⟩)

private theorem threeBytes_lt (he : v / 262144 = w / 262144) :
    UInt8.ofNat (v / 4096 % 64 + 128) :: UInt8.ofNat (v / 64 % 64 + 128) ::
        UInt8.ofNat (v % 64 + 128) :: s <
      UInt8.ofNat (w / 4096 % 64 + 128) :: UInt8.ofNat (w / 64 % 64 + 128) ::
        UInt8.ofNat (w % 64 + 128) :: r := by
  rcases Nat.lt_or_ge (v / 4096) (w / 4096) with hl | hl
  · exact byte_cons_lt (by omega) (.inl (by omega))
  · exact byte_cons_lt (by omega) (.inr ⟨by omega, twoBytes_lt h s r (by omega)⟩)

end

/-- The bytes of a lower character come first, whatever follows them. -/
theorem utf8EncodeChar_append_lt {c d : Char} (h : c < d) (s r : List UInt8) :
    String.utf8EncodeChar c ++ s < String.utf8EncodeChar d ++ r := by
  have hlt : c.val.toNat < d.val.toNat := h
  have hmax : d.val.toNat < 0x110000 := by
    rcases d.valid with hv | ⟨-, hv⟩
    · exact Nat.lt_trans hv (by decide)
    · exact hv
  unfold String.utf8EncodeChar
  generalize c.val.toNat = v at hlt
  generalize d.val.toNat = w at hlt hmax
  dsimp only
  -- A lower character has as many bytes or fewer, and with fewer its first byte is lower.
  split
  · split
    · exact byte_cons_lt (by omega) (.inl hlt)
    · split
      · exact byte_cons_lt (by omega) (.inl (by omega))
      · split <;> exact byte_cons_lt (by omega) (.inl (by omega))
  · rw [if_neg (by omega : ¬ w ≤ 127)]
    split
    · split
      · rcases Nat.lt_or_ge (v / 64) (w / 64) with hl | hl
        · exact byte_cons_lt (by omega) (.inl (by omega))
        · exact byte_cons_lt (by omega) (.inr ⟨by omega, oneByte_lt hlt s r (by omega)⟩)
      · split <;> exact byte_cons_lt (by omega) (.inl (by omega))
    · rw [if_neg (by omega : ¬ w ≤ 2047)]
      split
      · split
        · rcases Nat.lt_or_ge (v / 4096) (w / 4096) with hl | hl
          · exact byte_cons_lt (by omega) (.inl (by omega))
          · exact byte_cons_lt (by omega) (.inr ⟨by omega, twoBytes_lt hlt s r (by omega)⟩)
        · exact byte_cons_lt (by omega) (.inl (by omega))
      · rw [if_neg (by omega : ¬ w ≤ 65535)]
        rcases Nat.lt_or_ge (v / 262144) (w / 262144) with hl | hl
        · exact byte_cons_lt (by omega) (.inl (by omega))
        · exact byte_cons_lt (by omega) (.inr ⟨by omega, threeBytes_lt hlt s r (by omega)⟩)

/-! ## Texts -/

/-- Texts in order have their bytes in order. -/
theorem encodeText_lt {a b : Text} (h : a < b) : encodeText a < encodeText b := by
  induction a generalizing b with
  | nil =>
    cases b with
    | nil => exact absurd h (List.lt_irrefl [])
    | cons d b =>
      obtain ⟨first, later, hd, -⟩ := Offset.exists_utf8EncodeChar d
      rw [encodeText, encodeText, List.flatMap_cons, hd]
      exact List.nil_lt_cons _ _
  | cons c a ih =>
    cases b with
    | nil => exact absurd h (List.not_lt_nil _)
    | cons d b =>
      rw [encodeText, encodeText, List.flatMap_cons, List.flatMap_cons]
      rcases List.cons_lt_cons_iff.1 h with hc | ⟨rfl, ha⟩
      · exact utf8EncodeChar_append_lt hc _ _
      · exact List.append_left_lt (ih ha)

/-- Texts are in order just when their bytes are. -/
theorem encodeText_lt_iff {a b : Text} : encodeText a < encodeText b ↔ a < b := by
  refine ⟨fun h => ?_, encodeText_lt⟩
  refine Decidable.byContradiction fun hn => ?_
  by_cases hgt : b < a
  · exact List.lt_irrefl _ (List.lt_trans h (encodeText_lt hgt))
  · rw [Std.Trichotomous.trichotomous (r := (· < ·)) a b hn hgt] at h
    exact List.lt_irrefl _ h

end VueSfc.Text
