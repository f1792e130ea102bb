import Mathlib.Data.List.Induction
import VueSfc.FileTree

/-!
# Entries of a file tree

A tree is known by what stands at each place. Putting an entry at a place changes nothing
elsewhere. In a sound tree every entry stands in a directory, so the way up from a directory leads
through directories, and nothing stands below a place that is empty or holds a file.
-/

namespace VueSfc

namespace FileTree

/-! ## Looking up -/

private theorem lookup_cons (p q : Place) (e : Entry) (es : List (Place × Entry)) :
    ((p, e) :: es).lookup q = if q = p then some e else es.lookup q := by
  rw [List.lookup_cons]
  by_cases hq : q = p
  · subst hq
    simp
  · have hb : (q == p) = false := beq_false_of_ne hq
    rw [hb, ite_cond_eq_false _ _ (eq_false hq)]

/-- An entry that was put in is found at its place, and every other entry where it was. -/
theorem lookup_insertEntry (place : Place) (entry : Entry) (es : List (Place × Entry)) (q : Place) :
    (insertEntry place entry es).lookup q = if q = place then some entry else es.lookup q := by
  induction es with
  | nil => rw [insertEntry, lookup_cons]
  | cons x es ih =>
    obtain ⟨p, e⟩ := x
    rw [insertEntry]
    by_cases hp : place = p
    · subst hp
      rw [ite_cond_eq_true _ _ (eq_true rfl), lookup_cons, lookup_cons]
      by_cases hq : q = place <;> simp [hq]
    · rw [ite_cond_eq_false _ _ (eq_false hp)]
      by_cases hl : place < p
      · rw [ite_cond_eq_true _ _ (eq_true hl), lookup_cons]
      · rw [ite_cond_eq_false _ _ (eq_false hl), lookup_cons, lookup_cons, ih]
        by_cases hq : q = p
        · subst hq
          simp [Ne.symm hp]
        · simp [hq]

/-- What stands at a place after an entry was put somewhere below the root. -/
theorem entryAt?_set (t : FileTree) {place : Place} (hp : place ≠ []) (entry : Entry) (q : Place) :
    (t.set place entry).entryAt? q = if q = place then some entry else t.entryAt? q := by
  rw [entryAt?, entryAt?, set]
  by_cases hq : q = []
  · subst hq
    simp [Ne.symm hp]
  · rw [ite_cond_eq_false _ _ (eq_false hq), ite_cond_eq_false _ _ (eq_false hq),
      lookup_insertEntry]

/-- The root is a directory. -/
theorem entryAt?_nil (t : FileTree) : t.entryAt? [] = some .directory := rfl

private theorem mem_of_lookup {es : List (Place × Entry)} {place : Place} {entry : Entry}
    (h : es.lookup place = some entry) : (place, entry) ∈ es := by
  induction es with
  | nil => simp at h
  | cons x es ih =>
    obtain ⟨p, e⟩ := x
    rw [lookup_cons] at h
    split at h
    · rename_i hp
      rw [hp, Option.some.inj h]
      exact List.mem_cons_self
    · exact List.mem_cons_of_mem _ (ih h)

private theorem lookup_of_mem {es : List (Place × Entry)} (h : InOrder es) {place : Place}
    {entry : Entry} (hm : (place, entry) ∈ es) : es.lookup place = some entry := by
  obtain ⟨front, back, rfl⟩ := List.append_of_mem hm
  refine List.lookup_eq_some_iff.2 ⟨front, back, rfl, fun x hx => ?_⟩
  have hlt := (List.pairwise_append.1 h).2.2 x hx _ List.mem_cons_self
  rw [bne_iff_ne]
  rintro rfl
  exact List.lt_irrefl _ hlt

private theorem lookup_head_lt {p q : Place} {e : Entry} {es : List (Place × Entry)}
    (h : InOrder ((p, e) :: es)) (hq : q < p) : ((p, e) :: es).lookup q = none := by
  cases hl : ((p, e) :: es).lookup q with
  | none => rfl
  | some f =>
    have hm := mem_of_lookup hl
    rcases List.mem_cons.1 hm with he | hm
    · rw [(Prod.mk.inj he).1] at hq
      exact absurd hq (List.lt_irrefl _)
    · exact absurd (List.lt_trans hq ((List.pairwise_cons.1 h).1 _ hm)) (List.lt_irrefl _)

private theorem lookup_tail_head {p : Place} {e : Entry} {es : List (Place × Entry)}
    (h : InOrder ((p, e) :: es)) : es.lookup p = none := by
  cases hl : es.lookup p with
  | none => rfl
  | some f =>
    exact absurd ((List.pairwise_cons.1 h).1 _ (mem_of_lookup hl)) (List.lt_irrefl _)

/-- Entries in order are known by what is found at each place. -/
theorem eq_of_lookup_eq {es fs : List (Place × Entry)} (he : InOrder es) (hf : InOrder fs)
    (h : ∀ q, es.lookup q = fs.lookup q) : es = fs := by
  induction es generalizing fs with
  | nil =>
    cases fs with
    | nil => rfl
    | cons y fs =>
      have hy := h y.1
      rw [lookup_cons] at hy
      simp at hy
  | cons x es ih =>
    obtain ⟨p, e⟩ := x
    cases fs with
    | nil =>
      have hp := h p
      rw [lookup_cons] at hp
      simp at hp
    | cons y fs =>
      obtain ⟨q, f⟩ := y
      have hpq : p = q := by
        by_cases hlt : p < q
        · have hn := lookup_head_lt hf hlt
          rw [← h p, lookup_cons] at hn
          simp at hn
        · by_cases hgt : q < p
          · have hn := lookup_head_lt he hgt
            rw [h q, lookup_cons] at hn
            simp at hn
          · exact Std.Trichotomous.trichotomous (r := (· < ·)) p q hlt hgt
      subst hpq
      have hef : e = f := by simpa [lookup_cons] using h p
      subst hef
      rw [ih (List.pairwise_cons.1 he).2 (List.pairwise_cons.1 hf).2]
      intro r
      by_cases hr : r = p
      · subst hr
        rw [lookup_tail_head he, lookup_tail_head hf]
      · have hrest := h r
        simpa [lookup_cons, hr] using hrest

/-! ## Sound trees -/

/-- Entries stand below the root in directories, and so does the working directory. -/
structure IsSound (t : FileTree) : Prop where
  /-- The working directory is a directory. -/
  working : t.entryAt? t.workingDirectory = some .directory
  /-- No entry stands at the root, and each stands in a directory. -/
  parents : ∀ x ∈ t.entries, x.1 ≠ [] ∧ t.entryAt? x.1.dropLast = some .directory

variable {t u : FileTree}

/-- What stands somewhere stands in a directory. -/
theorem IsSound.entryAt?_dropLast (ht : t.IsSound) {place : Place} {entry : Entry}
    (h : t.entryAt? place = some entry) : t.entryAt? place.dropLast = some .directory := by
  by_cases hp : place = []
  · subst hp
    exact t.entryAt?_nil
  · rw [entryAt?, ite_cond_eq_false _ _ (eq_false hp)] at h
    exact (ht.parents _ (mem_of_lookup h)).2

/-- What stands somewhere has directories all the way up. -/
theorem IsSound.entryAt?_prefix (ht : t.IsSound) {place above : Place} {entry : Entry}
    (h : t.entryAt? place = some entry) (ha : above <+: place) (hne : above ≠ place) :
    t.entryAt? above = some .directory := by
  induction place using List.reverseRecOn generalizing entry with
  | nil => exact absurd (List.prefix_nil.1 ha) hne
  | append_singleton place name ih =>
    have hp := ht.entryAt?_dropLast h
    rw [List.dropLast_concat] at hp
    rcases List.prefix_concat_iff.1 ha with rfl | ha
    · contradiction
    · by_cases he : above = place
      · rw [he]
        exact hp
      · exact ih hp ha he

/-- Nothing stands below a place that is no directory. -/
theorem IsSound.entryAt?_eq_none (ht : t.IsSound) {place below : Place}
    (h : t.entryAt? place ≠ some .directory) (hb : place <+: below) (hne : place ≠ below) :
    t.entryAt? below = none := by
  cases he : t.entryAt? below with
  | none => rfl
  | some entry => exact absurd (ht.entryAt?_prefix he hb hne) h

/-- Putting an entry into a directory keeps a tree sound, unless a directory gives way to a file. -/
theorem IsSound.set (ht : t.IsSound) {place : Place} {entry : Entry} (hp : place ≠ [])
    (hparent : t.entryAt? place.dropLast = some .directory)
    (hd : t.entryAt? place = some .directory → entry = .directory) :
    (t.set place entry).IsSound := by
  have hkept {q : Place} (hq : t.entryAt? q = some .directory) :
      (t.set place entry).entryAt? q = some .directory := by
    rw [entryAt?_set t hp]
    split
    · rename_i he
      rw [hd (he ▸ hq)]
    · exact hq
  refine ⟨hkept ht.working, ?_⟩
  intro x hx
  rcases mem_insertEntry hx with rfl | hx
  · exact ⟨hp, hkept hparent⟩
  · exact ⟨(ht.parents x hx).1, hkept (ht.parents x hx).2⟩

private theorem IsSound.lookup_nil (ht : t.IsSound) : t.entries.lookup [] = none := by
  cases h : t.entries.lookup [] with
  | none => rfl
  | some entry => exact absurd rfl (ht.parents _ (mem_of_lookup h)).1

/-- What is found at a place below the root is one of the entries, and the other way round. -/
theorem IsSound.mem_entries_iff (ht : t.IsSound) {place : Place} {entry : Entry} :
    (place, entry) ∈ t.entries ↔ place ≠ [] ∧ t.entryAt? place = some entry := by
  constructor
  · intro hm
    have hp := (ht.parents _ hm).1
    refine ⟨hp, ?_⟩
    rw [entryAt?, ite_cond_eq_false _ _ (eq_false hp)]
    exact lookup_of_mem t.inOrder hm
  · rintro ⟨hp, he⟩
    rw [entryAt?, ite_cond_eq_false _ _ (eq_false hp)] at he
    exact mem_of_lookup he

/-- Sound trees with the same entries are the same. -/
theorem IsSound.eq_of_entryAt?_eq (ht : t.IsSound) (hu : u.IsSound)
    (hw : t.workingDirectory = u.workingDirectory) (h : ∀ q, t.entryAt? q = u.entryAt? q) :
    t = u := by
  have he : t.entries = u.entries := by
    apply eq_of_lookup_eq t.inOrder u.inOrder
    intro q
    by_cases hq : q = []
    · subst hq
      rw [ht.lookup_nil, hu.lookup_nil]
    · have hs := h q
      rwa [entryAt?, entryAt?, ite_cond_eq_false _ _ (eq_false hq),
        ite_cond_eq_false _ _ (eq_false hq)] at hs
  cases t
  cases u
  simp only at he hw
  subst he hw
  rfl

/-! ## Files below a place -/

/-- The names from a place to an entry, where that is a file below the place. -/
def fileBelow? (place : Place) (x : Place × Entry) : Option Place :=
  match x.2, Text.after? place x.1 with
  | .file _, some names => if names.isEmpty then none else some names
  | _, _ => none

/-- Each entry is looked at on its own. -/
theorem filesBelow_eq (t : FileTree) (place : Place) :
    t.filesBelow place = t.entries.filterMap (fileBelow? place) :=
  rfl

/-- What stands at the end of the names is a file. -/
theorem eq_of_fileBelow? {place names : Place} {x : Place × Entry}
    (h : fileBelow? place x = some names) :
    names ≠ [] ∧ ∃ content, x = (place ++ names, .file content) := by
  obtain ⟨p, entry⟩ := x
  rw [fileBelow?] at h
  cases entry with
  | directory => simp at h
  | file content =>
    cases ha : Text.after? place p with
    | none => simp [ha] at h
    | some below =>
      simp only [ha, Option.ite_none_left_eq_some, Option.some.injEq] at h
      obtain ⟨hne, rfl⟩ := h
      rw [Text.after?_eq_some_iff.1 ha]
      exact ⟨by simpa using hne, content, rfl⟩

/-- Names below a place lead to a file. -/
theorem mem_filesBelow {place names : Place} (h : names ∈ t.filesBelow place) :
    ∃ content, (place ++ names, Entry.file content) ∈ t.entries := by
  rw [filesBelow_eq] at h
  obtain ⟨x, hx, hn⟩ := List.mem_filterMap.1 h
  obtain ⟨-, content, rfl⟩ := eq_of_fileBelow? hn
  exact ⟨content, hx⟩

end FileTree

end VueSfc
