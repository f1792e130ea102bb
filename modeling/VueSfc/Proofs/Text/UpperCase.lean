import VueSfc.Text.Letter
import VueSfc.Proofs.Offset.Bytes

/-!
# Upper case

The upper case of a letter can hold ASCII letters, which is what a dotless `ı` and a sharp `ß`
become, but it holds no other characters of ASCII: those stay what they are and come from nothing
else. So upper case neither brings in nor takes away a slash, a dot or an underscore.
-/

namespace VueSfc.Text

open Offset

/-- A code point that upper case brings in is behind ASCII or that of a letter. -/
def IsUpperPoint (n : Nat) : Prop := 128 ≤ n ∨ 65 ≤ n ∧ n ≤ 90

private theorem isUpperPoint_upperPoint {n : Nat} (h : 128 ≤ n) : IsUpperPoint (upperPoint n) := by
  have hall : ∀ r ∈ upperRanges, 128 ≤ (r.low : Int) + r.shift ∨
      65 ≤ (r.low : Int) + r.shift ∧ (r.high : Int) + r.shift ≤ 90 := by decide +kernel
  rw [upperPoint]
  split
  · rename_i r hr
    have hin := List.find?_some hr
    simp only [Bool.and_eq_true, decide_eq_true_eq] at hin
    have hr' := hall r (List.mem_of_find?_eq_some hr)
    rw [IsUpperPoint]
    omega
  · exact .inl h

private theorem isUpperPoint_of_lookup {n k : Nat} {points : List Nat}
    (h : upperSequences.lookup n = some points) (hk : k ∈ points) : IsUpperPoint k := by
  have hall : ∀ x ∈ upperSequences, ∀ k ∈ x.2, 128 ≤ k ∨ 65 ≤ k ∧ k ≤ 90 := by decide +kernel
  obtain ⟨front, back, hs, -⟩ := List.lookup_eq_some_iff.1 h
  have hm : (n, points) ∈ upperSequences := by
    rw [hs]
    exact List.mem_append_right _ List.mem_cons_self
  exact hall (n, points) hm k hk

private theorem ofNat_ne {n : Nat} (h : IsUpperPoint n) {d : Char} (h0 : 0 < d.toNat)
    (hd : isAscii d = true) (ha : d.isAlpha = false) : Char.ofNat n ≠ d := by
  rintro rfl
  by_cases hn : n.isValidChar
  · have hv : (Char.ofNat n).toNat = n :=
      congrArg Char.toNat (dif_pos hn : Char.ofNat n = Char.ofNatAux n hn)
    have hlt : n < 128 := by
      rw [← hv]
      exact of_decide_eq_true hd
    rcases h with h | h
    · omega
    · -- The code points of upper case letters are those from 65 to 90.
      have hall : ∀ k < 128, 65 ≤ k ∧ k ≤ 90 → (Char.ofNat k).isAlpha = true := by decide
      rw [hall n hlt h] at ha
      contradiction
  · have hv : (Char.ofNat n).val = 0 := congrArg Char.val (dif_neg hn)
    rw [Char.toNat, hv] at h0
    exact absurd h0 (by decide)

/-- A character of ASCII that is no letter is in the upper case of itself only. -/
theorem eq_of_mem_toUpper {c d : Char} (h0 : 0 < d.toNat) (hd : isAscii d = true)
    (ha : d.isAlpha = false) (h : d ∈ toUpper c) : c = d := by
  rw [toUpper] at h
  split at h
  · rename_i hc
    rw [List.mem_singleton] at h
    have hall : c.toUpper = c ∨ c.toUpper.isAlpha = true :=
      forall_of_isAscii (P := fun c => c.toUpper = c ∨ c.toUpper.isAlpha = true) (by decide)
        (decide_eq_true hc)
    rcases hall with hsame | hletter
    · rw [h, hsame]
    · rw [← h, ha] at hletter
      contradiction
  · rename_i hc
    split at h
    · rename_i points hp
      obtain ⟨k, hk, he⟩ := List.mem_map.1 h
      exact absurd he (ofNat_ne (isUpperPoint_of_lookup hp hk) h0 hd ha)
    · rw [List.mem_singleton] at h
      exact absurd h.symm (ofNat_ne (isUpperPoint_upperPoint (by omega)) h0 hd ha)

/-- The upper case of a character of ASCII is one. -/
theorem toUpper_of_isAscii {c : Char} (h : isAscii c = true) : toUpper c = [c.toUpper] :=
  if_pos (of_decide_eq_true h)

end VueSfc.Text
