import Mathlib.Algebra.Order.BigOperators.Group.List
import Mathlib.Algebra.Order.Group.Nat
import Mathlib.Data.List.Sort
import VueSfc.Proofs.FileTree.Entries
import VueSfc.Proofs.Text.ByteOrder

/-!
# Walks through directories

A walk through a directory comes upon what stands in it in the order of the names' bytes, and upon
what stands in a directory right behind that directory itself. Every directory of a sound tree has
one such walk. It is in the order of places, so the files below a place, as a tree keeps them, are
those that the walk comes upon.
-/

namespace VueSfc.FileTree

open Text

/-- The names of what stands in a directory, in the order of their bytes. -/
structure Lists (t : FileTree) (place : Place) (names : List Text) : Prop where
  /-- Every name in the directory is listed. -/
  mem_iff : ∀ name, name ∈ names ↔ ∃ entry, t.entryAt? (place ++ [name]) = some entry
  /-- The bytes of each name come before those of the names behind it. -/
  sorted : names.Pairwise fun a b => encodeText a < encodeText b

/-- What a walk comes upon that goes through some of the names in a directory, by the names on the
way from there. -/
inductive Visits (t : FileTree) : Place → List Text → List Place → Prop
  /-- No name is left. -/
  | nil {place : Place} : Visits t place [] []
  /-- A file is come upon. -/
  | file {place : Place} {name : Text} {names : List Text} {others : List Place} {content : Bytes}
      (file : t.entryAt? (place ++ [name]) = some (.file content))
      (rest : Visits t place names others) : Visits t place (name :: names) ([name] :: others)
  /-- A directory is come upon, and then what a walk through it comes upon. -/
  | directory {place : Place} {name : Text} {names inner : List Text} {inside others : List Place}
      (directory : t.entryAt? (place ++ [name]) = some .directory)
      (lists : Lists t (place ++ [name]) inner) (below : Visits t (place ++ [name]) inner inside)
      (rest : Visits t place names others) :
      Visits t place (name :: names) ([name] :: inside.map (name :: ·) ++ others)

/-- What a walk through a directory comes upon. -/
def IsWalkOf (t : FileTree) (place : Place) (visited : List Place) : Prop :=
  ∃ names, Lists t place names ∧ Visits t place names visited

variable {t : FileTree} {place : Place} {names : List Text} {visited : List Place}

/-! ## What a walk comes upon -/

/-- Nothing stands below a file. -/
theorem IsSound.eq_nil_of_file (ht : t.IsSound) {rest : Place} {content : Bytes} {entry : Entry}
    (hf : t.entryAt? place = some (.file content)) (he : t.entryAt? (place ++ rest) = some entry) :
    rest = [] := by
  by_contra hrest
  have hne : place ≠ place ++ rest := by simpa using Ne.symm hrest
  rw [ht.entryAt?_prefix he (List.prefix_append _ _) hne] at hf
  exact absurd hf (by simp)

/-- What stands below a directory stands under one of the listed names. -/
theorem Lists.mem_of_entryAt? (h : Lists t place names) (ht : t.IsSound) {name : Text}
    {rest : Place} {entry : Entry} (he : t.entryAt? (place ++ name :: rest) = some entry) :
    name ∈ names := by
  refine (h.mem_iff name).2 ?_
  rw [List.append_cons] at he
  by_cases hrest : rest = []
  · rw [hrest, List.append_nil] at he
    exact ⟨entry, he⟩
  · have hne : place ++ [name] ≠ place ++ [name] ++ rest := by simpa using Ne.symm hrest
    exact ⟨_, ht.entryAt?_prefix he (List.prefix_append _ _) hne⟩

/-- A walk comes upon everything that stands in the directory under one of the names or below. -/
theorem Visits.mem_iff (h : Visits t place names visited) (ht : t.IsSound) (way : Place) :
    way ∈ visited ↔ (∃ name ∈ names, ∃ rest, way = name :: rest) ∧
      ∃ entry, t.entryAt? (place ++ way) = some entry := by
  induction h generalizing way with
  | nil => simp
  | @file place name names others content file rest ih =>
    rw [List.mem_cons, ih, List.exists_mem_cons_iff, or_and_right]
    refine or_congr_left ⟨?_, ?_⟩
    · rintro rfl
      exact ⟨⟨[], rfl⟩, _, file⟩
    · rintro ⟨⟨rest, rfl⟩, entry, he⟩
      rw [List.append_cons] at he
      rw [ht.eq_nil_of_file file he]
  | @directory place name names inner inside others directory lists below rest ihbelow ihrest =>
    rw [List.cons_append, List.mem_cons, List.mem_append, ihrest, List.exists_mem_cons_iff,
      or_and_right, ← or_assoc]
    refine or_congr_left ⟨?_, ?_⟩
    · rintro (rfl | hm)
      · exact ⟨⟨[], rfl⟩, _, directory⟩
      · obtain ⟨way, hway, rfl⟩ := List.mem_map.1 hm
        obtain ⟨-, entry, he⟩ := (ihbelow way).1 hway
        exact ⟨⟨way, rfl⟩, entry, by rwa [List.append_cons]⟩
    · rintro ⟨⟨way, rfl⟩, entry, he⟩
      rw [List.append_cons] at he
      cases way with
      | nil => exact .inl rfl
      | cons next way =>
        have hway := (ihbelow (next :: way)).2
          ⟨⟨next, lists.mem_of_entryAt? ht he, way, rfl⟩, entry, he⟩
        exact .inr (List.mem_map_of_mem hway)

/-- What stands under a name comes before everything that a walk through later names comes upon. -/
theorem Visits.cons_lt (h : Visits t place names visited) (ht : t.IsSound) {name : Text}
    (hn : ∀ next ∈ names, encodeText name < encodeText next) (rest : Place) {way : Place}
    (hw : way ∈ visited) : name :: rest < way := by
  obtain ⟨⟨next, hnext, later, rfl⟩, -⟩ := (h.mem_iff ht way).1 hw
  exact List.cons_lt_cons_iff.2 (.inl (encodeText_lt_iff.1 (hn next hnext)))

/-- A walk is in the order of places. -/
theorem Visits.pairwise (h : Visits t place names visited) (ht : t.IsSound)
    (hn : names.Pairwise fun a b => encodeText a < encodeText b) : visited.Pairwise (· < ·) := by
  induction h with
  | nil => exact .nil
  | @file place name names others content file rest ih =>
    obtain ⟨hfirst, hlater⟩ := List.pairwise_cons.1 hn
    exact List.pairwise_cons.2 ⟨fun way hway => rest.cons_lt ht hfirst [] hway, ih hlater⟩
  | @directory place name names inner inside others directory lists below rest ihbelow ihrest =>
    obtain ⟨hfirst, hlater⟩ := List.pairwise_cons.1 hn
    have hinside : (inside.map (name :: ·)).Pairwise (· < ·) :=
      (ihbelow lists.sorted).map _ fun _ _ hlt => List.cons_lt_cons_iff.2 (.inr ⟨rfl, hlt⟩)
    have hdirectory : ∀ x ∈ inside.map (name :: ·), [name] < x := by
      intro x hx
      obtain ⟨way, hway, rfl⟩ := List.mem_map.1 hx
      obtain ⟨⟨next, -, later, rfl⟩, -⟩ := (below.mem_iff ht way).1 hway
      exact List.cons_lt_cons_iff.2 (.inr ⟨rfl, List.nil_lt_cons _ _⟩)
    refine List.pairwise_append.2 ⟨List.pairwise_cons.2 ⟨hdirectory, hinside⟩, ihrest hlater, ?_⟩
    intro x hx y hy
    rcases List.mem_cons.1 hx with rfl | hx
    · exact rest.cons_lt ht hfirst [] hy
    · obtain ⟨way, -, rfl⟩ := List.mem_map.1 hx
      exact rest.cons_lt ht hfirst way hy

/-! ## Walks through a sound tree -/

/-- A walk through a directory comes upon everything that stands below it. -/
theorem IsWalkOf.mem_iff (h : IsWalkOf t place visited) (ht : t.IsSound) (way : Place) :
    way ∈ visited ↔ way ≠ [] ∧ ∃ entry, t.entryAt? (place ++ way) = some entry := by
  obtain ⟨names, hl, hv⟩ := h
  rw [hv.mem_iff ht]
  refine and_congr_left fun ⟨entry, he⟩ => ⟨?_, fun hne => ?_⟩
  · rintro ⟨name, -, rest, rfl⟩
    exact List.cons_ne_nil name rest
  · obtain ⟨name, rest, rfl⟩ := List.exists_cons_of_ne_nil hne
    exact ⟨name, hl.mem_of_entryAt? ht he, rest, rfl⟩

/-- A walk through a directory is in the order of places. -/
theorem IsWalkOf.pairwise (h : IsWalkOf t place visited) (ht : t.IsSound) :
    visited.Pairwise (· < ·) := by
  obtain ⟨names, hl, hv⟩ := h
  exact hv.pairwise ht hl.sorted

/-- Places in their order are known by which they are. -/
theorem eq_of_pairwise_lt {places others : List Place} (hp : places.Pairwise (· < ·))
    (ho : others.Pairwise (· < ·)) (h : ∀ place, place ∈ places ↔ place ∈ others) :
    places = others := by
  have : Std.Irrefl fun a b : Place => a < b := ⟨List.lt_irrefl⟩
  have : Std.Antisymm fun a b : Place => a < b :=
    ⟨fun a b hab hba => absurd (List.lt_trans hab hba) (List.lt_irrefl a)⟩
  exact hp.eq_of_mem_iff ho h

/-- Places below the same place are in the order of the ways from there. -/
theorem append_lt_append_iff {a b : Place} : place ++ a < place ++ b ↔ a < b := by
  induction place with
  | nil => rfl
  | cons name place ih =>
    rw [List.cons_append, List.cons_append, List.cons_lt_cons_iff, ih]
    constructor
    · intro h
      exact (h.resolve_left (List.lt_irrefl name)).2
    · intro h
      exact .inr ⟨rfl, h⟩

/-- The name of an entry, where that stands in the directory. -/
def childName? (place : Place) (x : Place × Entry) : Option Text :=
  match after? place x.1 with
  | some [name] => some name
  | _ => none

/-- An entry in the directory has the place of its name there. -/
theorem childName?_eq_some_iff {x : Place × Entry} {name : Text} :
    childName? place x = some name ↔ x.1 = place ++ [name] := by
  rw [childName?, ← after?_eq_some_iff]
  split
  · rename_i other ha
    rw [ha]
    simp
  · rename_i hnot
    constructor
    · intro h
      contradiction
    · intro h
      exact absurd h (hnot name)

/-- What stands in a directory can be listed. -/
theorem IsSound.exists_lists (ht : t.IsSound) (place : Place) : ∃ names, Lists t place names := by
  refine ⟨t.entries.filterMap (childName? place), fun name => ?_, ?_⟩
  · rw [List.mem_filterMap]
    constructor
    · rintro ⟨⟨p, entry⟩, hx, hname⟩
      obtain rfl : p = place ++ [name] := childName?_eq_some_iff.1 hname
      exact ⟨entry, (ht.mem_entries_iff.1 hx).2⟩
    · rintro ⟨entry, he⟩
      exact ⟨(place ++ [name], entry), ht.mem_entries_iff.2 ⟨by simp, he⟩,
        childName?_eq_some_iff.2 rfl⟩
  · refine List.pairwise_filterMap.2 (t.inOrder.imp ?_)
    intro x y hxy a ha b hb
    rw [childName?_eq_some_iff.1 ha, childName?_eq_some_iff.1 hb, append_lt_append_iff] at hxy
    refine encodeText_lt_iff.2 ((List.cons_lt_cons_iff.1 hxy).resolve_right fun hsame => ?_)
    exact List.lt_irrefl _ hsame.2

/-- Names in a directory can be gone through, if no entry stands deeper than some bound. -/
theorem IsSound.exists_visits (ht : t.IsSound) (depth : Nat)
    (hd : ∀ x ∈ t.entries, x.1.length ≤ place.length + depth)
    (hn : ∀ name ∈ names, ∃ entry, t.entryAt? (place ++ [name]) = some entry) :
    ∃ visited, Visits t place names visited := by
  induction depth generalizing place names with
  | zero =>
    cases names with
    | nil => exact ⟨[], .nil⟩
    | cons name names =>
      obtain ⟨entry, he⟩ := hn name List.mem_cons_self
      have hlong := hd (place ++ [name], entry) (ht.mem_entries_iff.2 ⟨by simp, he⟩)
      rw [List.length_append, List.length_singleton] at hlong
      omega
  | succ depth ih =>
    induction names with
    | nil => exact ⟨[], .nil⟩
    | cons name names ihnames =>
      obtain ⟨⟨entry, he⟩, hnames⟩ := List.forall_mem_cons.1 hn
      obtain ⟨others, hothers⟩ := ihnames hnames
      cases entry with
      | file content => exact ⟨_, .file he hothers⟩
      | directory =>
        obtain ⟨inner, hinner⟩ := ht.exists_lists (place ++ [name])
        have hdeep : ∀ x ∈ t.entries, x.1.length ≤ (place ++ [name]).length + depth := by
          intro x hx
          have hx' := hd x hx
          rw [List.length_append, List.length_singleton]
          omega
        obtain ⟨inside, hinside⟩ := ih hdeep fun next hnext => (hinner.mem_iff next).1 hnext
        exact ⟨_, .directory he hinner hinside hothers⟩

/-- There is a walk through every directory. -/
theorem IsSound.exists_isWalkOf (ht : t.IsSound) (place : Place) :
    ∃ visited, IsWalkOf t place visited := by
  obtain ⟨names, hnames⟩ := ht.exists_lists place
  have hdeep : ∀ x ∈ t.entries,
      x.1.length ≤ place.length + (t.entries.map fun x => x.1.length).sum := fun x hx =>
    Nat.le_add_left_of_le (List.le_sum_of_mem (List.mem_map_of_mem hx))
  obtain ⟨visited, hvisited⟩ := ht.exists_visits _ hdeep fun name hm => (hnames.mem_iff name).1 hm
  exact ⟨visited, names, hnames, hvisited⟩

/-! ## Files below a place -/

/-- The names that lead from a place to the files below it. -/
theorem IsSound.mem_filesBelow_iff (ht : t.IsSound) {way : Place} : way ∈ t.filesBelow place ↔
    way ≠ [] ∧ ∃ content, t.entryAt? (place ++ way) = some (.file content) := by
  rw [filesBelow_eq, List.mem_filterMap]
  constructor
  · rintro ⟨x, hx, hway⟩
    obtain ⟨hne, content, rfl⟩ := eq_of_fileBelow? hway
    exact ⟨hne, content, (ht.mem_entries_iff.1 hx).2⟩
  · rintro ⟨hne, content, he⟩
    refine ⟨(place ++ way, .file content), ht.mem_entries_iff.2 ⟨by simp [hne], he⟩, ?_⟩
    have hafter : after? place (place ++ way) = some way := after?_eq_some_iff.2 rfl
    simp [fileBelow?, hafter, hne]

/-- The files below a place are kept in the order of places. -/
theorem pairwise_filesBelow (t : FileTree) (place : Place) :
    (t.filesBelow place).Pairwise (· < ·) := by
  rw [filesBelow_eq]
  refine List.pairwise_filterMap.2 (t.inOrder.imp ?_)
  intro x y hxy a ha b hb
  obtain ⟨-, content, rfl⟩ := eq_of_fileBelow? ha
  obtain ⟨-, content, rfl⟩ := eq_of_fileBelow? hb
  exact append_lt_append_iff.1 hxy

/-- The files below a directory are those that a walk through it comes upon, in its order. -/
theorem IsWalkOf.filesBelow_sublist (h : IsWalkOf t place visited) (ht : t.IsSound) :
    (t.filesBelow place).Sublist visited := by
  have hfiles : t.filesBelow place = visited.filter (· ∈ t.filesBelow place) := by
    refine eq_of_pairwise_lt (t.pairwise_filesBelow place) ((h.pairwise ht).filter _) fun way => ?_
    rw [List.mem_filter, decide_eq_true_eq, h.mem_iff ht]
    refine ⟨fun hway => ⟨?_, hway⟩, And.right⟩
    obtain ⟨hne, content, he⟩ := ht.mem_filesBelow_iff.1 hway
    exact ⟨hne, _, he⟩
  rw [hfiles]
  exact List.filter_sublist

end VueSfc.FileTree
