import VueSfc.Proofs.Text.Occurrence
import VueSfc.Proofs.Text.Placed

/-!
# Passes that go piece by piece

A pass goes piece by piece when each cut through what it leaves of a text is made by a cut through
the text itself. Then every stretch of what it leaves is what it leaves of a stretch of the text.
Cutting pieces out is such a pass if what is read at the front of a text does not depend on what
follows the piece.
-/

namespace VueSfc.Text

/-! ## Cuts -/

/-- Each cut through what a pass leaves of a text is made by a cut through the text. What is taken
out at the cut can be had on either side of it. -/
structure IsPiecewise (pass : Text → Text) : Prop where
  /-- What is taken out at the cut stands before it. -/
  before : ∀ {text front back}, pass text = front ++ back →
    ∃ u v, text = u ++ v ∧ pass u = front ∧ pass v = back ∧ v.head? = back.head?
  /-- What is taken out at the cut stands behind it. -/
  behind : ∀ {text front back}, pass text = front ++ back →
    ∃ u v, text = u ++ v ∧ pass u = front ∧ pass v = back ∧ u.getLast? = front.getLast?

namespace IsPiecewise

variable {pass first second : Text → Text}

/-- One pass after another goes piece by piece. -/
theorem comp (hs : IsPiecewise second) (hf : IsPiecewise first) :
    IsPiecewise fun text => second (first text) where
  before h := by
    obtain ⟨u, v, hcut, hu, hv, hhead⟩ := hs.before h
    obtain ⟨u', v', rfl, rfl, rfl, hhead'⟩ := hf.before hcut
    exact ⟨u', v', rfl, hu, hv, hhead'.trans hhead⟩
  behind h := by
    obtain ⟨u, v, hcut, hu, hv, hlast⟩ := hs.behind h
    obtain ⟨u', v', rfl, rfl, rfl, hlast'⟩ := hf.behind hcut
    exact ⟨u', v', rfl, hu, hv, hlast'.trans hlast⟩

/-- A stretch of what is left is what is left of a stretch that begins and ends in the same way, and
so is what stands before it and behind it. -/
theorem exists_stretch (h : IsPiecewise pass) {text front middle back : Text}
    (hm : pass text = front ++ middle ++ back) :
    ∃ u stretch v, text = u ++ stretch ++ v ∧ pass u = front ∧ pass stretch = middle ∧
      pass v = back ∧ stretch.head? = middle.head? ∧ stretch.getLast? = middle.getLast? := by
  rw [List.append_assoc] at hm
  obtain ⟨u, w, rfl, hu, hw, hhead⟩ := h.before hm
  obtain ⟨stretch, v, rfl, hs, hv, hlast⟩ := h.behind hw
  refine ⟨u, stretch, v, (List.append_assoc _ _ _).symm, hu, hs, hv, ?_, hlast⟩
  cases stretch with
  | nil =>
    rw [List.getLast?_nil] at hlast
    rw [List.getLast?_eq_none_iff.1 hlast.symm]
  | cons c stretch =>
    have hne : middle ≠ [] := by
      rintro rfl
      exact List.cons_ne_nil _ _ (List.getLast?_eq_none_iff.1 hlast)
    rwa [List.head?_append_of_ne_nil _ (List.cons_ne_nil _ _), List.head?_append_of_ne_nil _ hne]
      at hhead

end IsPiecewise

/-! ## Cutting pieces out -/

namespace Cutter

variable {α : Type} {cutter : Cutter α}

/-- What is read at the front of a text does not depend on what follows it. -/
def IsLocal (cutter : Cutter α) : Prop :=
  ∀ {text piece rest}, cutter.read? text = some (piece, rest) →
    ∃ front, text = front ++ rest ∧ ∀ back, cutter.read? (front ++ back) = some (piece, back)

/-- Where nothing is read, nothing is read from the front alone. -/
theorem IsLocal.read?_eq_none (h : cutter.IsLocal) {front back : Text}
    (hn : cutter.read? (front ++ back) = none) : cutter.read? front = none := by
  cases hr : cutter.read? front with
  | none => rfl
  | some found =>
    obtain ⟨piece, rest⟩ := found
    obtain ⟨read, rfl, hread⟩ := h hr
    rw [List.append_assoc, hread] at hn
    contradiction

/-- A piece at the front is not left. -/
theorem remove_of_read? {text rest : Text} {piece : α}
    (h : cutter.read? text = some (piece, rest)) : cutter.remove text = cutter.remove rest := by
  rw [remove, remove, cut_of_read? h]

/-- A character at which no piece begins is left. -/
theorem remove_cons_of_read?_eq_none {c : Char} {r : Text} (h : cutter.read? (c :: r) = none) :
    cutter.remove (c :: r) = c :: cutter.remove r := by
  rw [remove, remove, cut_cons_of_read?_eq_none h]

/-- Every piece that is cut out was read at some place of the text. -/
theorem exists_suffix_of_mem_cut (hc : cutter.Splits) {piece : α} {text : Text}
    (h : piece ∈ (cutter.cut text).2) :
    ∃ tail rest, tail <:+ text ∧ cutter.read? tail = some (piece, rest) := by
  induction text using cut.induct cutter with
  | case1 =>
    rw [cut_nil] at h
    contradiction
  | case2 c r first rest hr _ _ _ ih =>
    rw [cut_of_read? hr] at h
    rcases List.mem_cons.1 h with rfl | h
    · exact ⟨_, rest, List.suffix_rfl, hr⟩
    · obtain ⟨tail, rest', ht, hread⟩ := ih h
      exact ⟨tail, rest', ht.trans (hc hr), hread⟩
  | case3 c r hr _ _ _ ih =>
    rw [cut_cons_of_read?_eq_none hr] at h
    obtain ⟨tail, rest, ht, hread⟩ := ih h
    exact ⟨tail, rest, ht.trans (List.suffix_cons c r), hread⟩

/-- Cutting goes piece by piece: what is read within a part of the text is read there alone. -/
theorem IsLocal.isPiecewise (h : cutter.IsLocal) : IsPiecewise cutter.remove where
  before {text front back} hcut := by
    induction text using cut.induct cutter generalizing front with
    | case1 =>
      rw [remove, cut_nil] at hcut
      obtain ⟨rfl, rfl⟩ := List.append_eq_nil_iff.1 hcut.symm
      exact ⟨[], [], rfl, by rw [remove, cut_nil], by rw [remove, cut_nil], rfl⟩
    | case2 c r piece rest hr _ _ _ ih =>
      rw [remove_of_read? hr] at hcut
      obtain ⟨u, v, rfl, hu, hv, hhead⟩ := ih hcut
      obtain ⟨read, he, hread⟩ := h hr
      refine ⟨read ++ u, v, by rw [he, List.append_assoc], ?_, hv, hhead⟩
      rw [remove_of_read? (hread u), hu]
    | case3 c r hr _ _ _ ih =>
      rw [remove_cons_of_read?_eq_none hr] at hcut
      cases front with
      | nil =>
        refine ⟨[], c :: r, rfl, by rw [remove, cut_nil], ?_, ?_⟩
        · rw [remove_cons_of_read?_eq_none hr, hcut, List.nil_append]
        · rw [← List.nil_append back, ← hcut]
          rfl
      | cons d front =>
        rw [List.cons_append, List.cons.injEq] at hcut
        obtain ⟨rfl, hcut⟩ := hcut
        obtain ⟨u, v, rfl, hu, hv, hhead⟩ := ih hcut
        refine ⟨c :: u, v, rfl, ?_, hv, hhead⟩
        rw [remove_cons_of_read?_eq_none (h.read?_eq_none hr), hu]
  behind {text front back} hcut := by
    induction text using cut.induct cutter generalizing front with
    | case1 =>
      rw [remove, cut_nil] at hcut
      obtain ⟨rfl, rfl⟩ := List.append_eq_nil_iff.1 hcut.symm
      exact ⟨[], [], rfl, by rw [remove, cut_nil], by rw [remove, cut_nil], rfl⟩
    | case2 c r piece rest hr _ _ _ ih =>
      cases front with
      | nil => exact ⟨[], c :: r, rfl, by rw [remove, cut_nil], hcut, rfl⟩
      | cons d front =>
        rw [remove_of_read? hr] at hcut
        obtain ⟨u, v, rfl, hu, hv, hlast⟩ := ih hcut
        obtain ⟨read, he, hread⟩ := h hr
        refine ⟨read ++ u, v, by rw [he, List.append_assoc], ?_, hv, ?_⟩
        · rw [remove_of_read? (hread u), hu]
        · have hne : u ≠ [] := by
            rintro rfl
            rw [remove, cut_nil] at hu
            contradiction
          rw [List.getLast?_append_of_ne_nil _ hne, hlast]
    | case3 c r hr _ _ _ ih =>
      cases front with
      | nil => exact ⟨[], c :: r, rfl, by rw [remove, cut_nil], hcut, rfl⟩
      | cons d front =>
        rw [remove_cons_of_read?_eq_none hr, List.cons_append, List.cons.injEq] at hcut
        obtain ⟨rfl, hcut⟩ := hcut
        obtain ⟨u, v, rfl, hu, hv, hlast⟩ := ih hcut
        refine ⟨c :: u, v, rfl, ?_, hv, ?_⟩
        · rw [remove_cons_of_read?_eq_none (h.read?_eq_none hr), hu]
        · rw [List.getLast?_cons, List.getLast?_cons, hlast]

end Cutter

end VueSfc.Text
