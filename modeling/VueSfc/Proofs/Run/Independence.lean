import VueSfc.Proofs.Run.Write

/-!
# Writes that do not get in each other's way

Two writes are independent if they do not put their files at the same place, neither puts its file
where the other one needs a directory that is missing, and neither meets a file behind a missing
directory. What some writes have left is then told by the tree before all of them, without regard
to their order, and one more write fails or succeeds as it would alone.
-/

namespace VueSfc

open VueSfc.Path FileTree

namespace Write

/-- A write that fits would put its file where another write makes a directory. -/
def Blocks (t : FileTree) (a b : Write) : Prop :=
  a.Fits t ∧ t.entryAt? a.place = none ∧ a.place ∈ t.reach b.way

/-- The way of a write meets a file behind a missing directory, and goes on from it. -/
def IsMisled (t : FileTree) (w : Write) : Prop :=
  1 < (t.barred w.way).length ∧ ∃ p ∈ t.reach w.way, t.entryAt? p = none

instance (t : FileTree) (a b : Write) : Decidable (a.Blocks t b) :=
  inferInstanceAs (Decidable (_ ∧ _ ∧ _))

instance (t : FileTree) (w : Write) : Decidable (w.IsMisled t) :=
  inferInstanceAs (Decidable (_ ∧ _))

/-- Neither of two writes changes what becomes of the other one. -/
structure Independent (t : FileTree) (a b : Write) : Prop where
  /-- They do not both put a file at the same place. -/
  apart : a.Fits t → b.Fits t → a.place ≠ b.place
  /-- The first does not block the second. -/
  not_blocks : ¬ a.Blocks t b
  /-- The second does not block the first. -/
  not_blocked : ¬ b.Blocks t a
  /-- The first is not misled. -/
  not_misled : ¬ a.IsMisled t
  /-- The second is not misled. -/
  not_misled' : ¬ b.IsMisled t

/-- Independence has no order. -/
theorem Independent.symm {t : FileTree} {a b : Write} (h : a.Independent t b) :
    b.Independent t a :=
  ⟨fun hb ha he => h.apart ha hb he.symm, h.not_blocked, h.not_blocks, h.not_misled', h.not_misled⟩

/-- What some writes have left of a tree. -/
structure Laid (t : FileTree) (done : List Write) (u : FileTree) : Prop where
  /-- The tree is sound. -/
  sound : u.IsSound
  /-- The working directory is where it was. -/
  working : u.workingDirectory = t.workingDirectory
  /-- Every write that fits has put its file. -/
  written : ∀ w ∈ done, w.Fits t → u.entryAt? w.place = some (.file w.content)
  /-- Elsewhere, places that are reached by a write have become directories where nothing stood,
  and all others are as they were. -/
  other : ∀ q, (∀ w ∈ done, w.Fits t → w.place ≠ q) →
    u.entryAt? q =
      if t.entryAt? q = none ∧ ∃ w ∈ done, q ∈ t.reach w.way then some .directory
      else t.entryAt? q

variable {t u : FileTree} {done : List Write} {w : Write}

/-- Nothing has been written yet. -/
theorem laid_nil (ht : t.IsSound) : Laid t [] t :=
  ⟨ht, rfl, by simp, by simp⟩

namespace Laid

/-- Directories have stayed. -/
theorem entryAt?_directory (h : Laid t done u) {q : Place}
    (hq : t.entryAt? q = some .directory) : u.entryAt? q = some .directory := by
  rw [h.other q]
  · simp [hq]
  · rintro a - hf rfl
    exact ((fits_iff a t).1 hf).2.1 hq

/-- Files have stayed files. -/
theorem holdsFile (h : Laid t done u) {q : Place} (hq : t.holdsFile q = true) :
    u.holdsFile q = true := by
  by_cases hw : ∃ a ∈ done, a.Fits t ∧ a.place = q
  · obtain ⟨a, ha, hf, rfl⟩ := hw
    rw [FileTree.holdsFile, h.written a ha hf]
  · have hne := entryAt?_ne_none hq
    rw [FileTree.holdsFile, h.other q fun a ha hf he => hw ⟨a, ha, hf, he⟩,
      ite_cond_eq_false _ _ (by simp [hne])]
    exact hq

/-- No file has been put where an independent write needs a directory. -/
theorem holdsFile_of_mem_reach (h : Laid t done u) (hi : ∀ a ∈ done, ¬ a.Blocks t w) {q : Place}
    (hq : q ∈ t.reach w.way) : u.holdsFile q = false := by
  have hfile := FileTree.holdsFile_of_mem_reach hq
  by_cases hw : ∃ a ∈ done, a.Fits t ∧ a.place = q
  · obtain ⟨a, ha, hf, rfl⟩ := hw
    rcases entryAt?_of_mem_reach hq with he | he
    · exact absurd ⟨hf, he, hq⟩ (hi a ha)
    · exact absurd he ((fits_iff a t).1 hf).2.1
  · rw [FileTree.holdsFile, h.other q fun a ha hf he => hw ⟨a, ha, hf, he⟩]
    by_cases hc : t.entryAt? q = none ∧ ∃ a ∈ done, q ∈ t.reach a.way
    · rw [ite_cond_eq_true _ _ (eq_true hc)]
    · rw [ite_cond_eq_false _ _ (eq_false hc)]
      exact hfile

/-- The way of an independent write is as it was. -/
theorem reach_eq (h : Laid t done u) (hi : ∀ a ∈ done, ¬ a.Blocks t w) :
    u.reach w.way = t.reach w.way ∧ u.barred w.way = t.barred w.way :=
  reach_eq_of_agree (fun _ hq => h.holdsFile_of_mem_reach hi hq) fun _ hq => h.holdsFile hq

/-- Where nothing stands, nothing stood. -/
theorem entryAt?_eq_none (h : Laid t done u) {q : Place} (hq : u.entryAt? q = none) :
    t.entryAt? q = none := by
  cases he : t.entryAt? q with
  | none => rfl
  | some entry =>
    cases entry with
    | directory =>
      rw [h.entryAt?_directory he] at hq
      contradiction
    | file content =>
      have hf := h.holdsFile (q := q) (by rw [FileTree.holdsFile, he])
      exact absurd hq (entryAt?_ne_none hf)

/-- The way of an independent write fails as it would alone. -/
theorem prepare_fault_eq (h : Laid t done u) (hi : ∀ a ∈ done, ¬ a.Blocks t w)
    (hm : done = [] ∨ ¬ w.IsMisled t) : (u.prepare w.way).2 = (t.prepare w.way).2 := by
  obtain ⟨hr, hb⟩ := h.reach_eq hi
  rw [prepare_fault, prepare_fault, hr, hb]
  by_cases hnil : t.barred w.way = []
  · rw [ite_cond_eq_true _ _ (eq_true hnil), ite_cond_eq_true _ _ (eq_true hnil)]
  · have hone : ((t.barred w.way).length = 1 ∨ ∃ p ∈ t.reach w.way, u.entryAt? p = none) ↔
        ((t.barred w.way).length = 1 ∨ ∃ p ∈ t.reach w.way, t.entryAt? p = none) := by
      constructor
      · rintro (hl | ⟨p, hp, he⟩)
        · exact Or.inl hl
        · exact Or.inr ⟨p, hp, h.entryAt?_eq_none he⟩
      · rintro (hl | ⟨p, hp, he⟩)
        · exact Or.inl hl
        · rcases hm with rfl | hm
          · refine Or.inr ⟨p, hp, ?_⟩
            rw [h.other p (by simp)]
            simp [he]
          · have hpos := List.length_pos_iff.2 hnil
            have hlong : ¬ 1 < (t.barred w.way).length := fun hl => hm ⟨hl, p, hp, he⟩
            exact Or.inl (by omega)
    simp only [hone]

/-- An independent write fits where it would alone. -/
theorem fits_iff_fits (h : Laid t done u)
    (hi : ∀ a ∈ done, ¬ a.Blocks t w) (hb : ∀ a ∈ done, ¬ w.Blocks t a) :
    w.Fits u ↔ w.Fits t := by
  obtain ⟨hr, hbar⟩ := h.reach_eq hi
  rw [fits_iff, fits_iff, hr, hbar]
  constructor
  · rintro ⟨hnil, hd, hn⟩
    refine ⟨hnil, fun he => hd (h.entryAt?_directory he), ?_⟩
    rintro ⟨he, hm⟩
    rw [← hr] at hm
    rcases entryAt?_of_mem_reach hm with hu | hu
    · exact hn ⟨hu, hr ▸ hm⟩
    · exact hd hu
  · rintro ⟨hnil, hd, hn⟩
    have hfit := (fits_iff w t).2 ⟨hnil, hd, hn⟩
    refine ⟨hnil, ?_, fun hu => hn ⟨h.entryAt?_eq_none hu.1, hu.2⟩⟩
    intro hu
    by_cases hw : ∃ a ∈ done, a.Fits t ∧ a.place = w.place
    · obtain ⟨a, ha, hf, he⟩ := hw
      have hfile := h.written a ha hf
      rw [he, hu] at hfile
      simp at hfile
    · rw [h.other _ fun a ha hf he => hw ⟨a, ha, hf, he⟩] at hu
      split at hu
      · rename_i hc
        obtain ⟨he, a, ha, hm⟩ := hc
        exact hb a ha ⟨hfit, he, hm⟩
      · exact hd hu

/-- One more independent write ends as it would alone, and leaves what the writes together do. -/
theorem perform (h : Laid t done u) (hw : w.IsPlaced t) (hi : ∀ a ∈ done, a.Independent t w) :
    (w.perform u).2 = (w.perform t).2 ∧ Laid t (w :: done) (w.perform u).1 := by
  have hblocked : ∀ a ∈ done, ¬ a.Blocks t w := fun a ha => (hi a ha).not_blocks
  have hblocks : ∀ a ∈ done, ¬ w.Blocks t a := fun a ha => (hi a ha).not_blocked
  have hmisled : done = [] ∨ ¬ w.IsMisled t := by
    cases done with
    | nil => exact Or.inl rfl
    | cons a done => exact Or.inr (hi a List.mem_cons_self).not_misled'
  have hfits := h.fits_iff_fits hblocked hblocks
  have hreach := (h.reach_eq hblocked).1
  have hplaced : w.IsPlaced u := ⟨h.working ▸ hw.walk, hw.ne_nil, h.working ▸ hw.parent⟩
  refine ⟨?_, hplaced.isSound_perform h.sound, ?_, ?_, ?_⟩
  · rw [perform_eq, perform_eq, h.prepare_fault_eq hblocked hmisled]
    by_cases hf : w.Fits t
    · simp only [hfits, hf, if_true]
    · simp only [hfits, hf, if_false]
  · rw [workingDirectory_perform, h.working]
  · intro a ha hf
    rw [entryAt?_perform hw.ne_nil]
    rcases List.mem_cons.1 ha with rfl | ha
    · simp [hfits.2 hf]
    · have hu := h.written a ha hf
      have hapart : ¬ (w.Fits u ∧ a.place = w.place) := by
        rintro ⟨hfw, he⟩
        exact (hi a ha).apart hf (hfits.1 hfw) he
      rw [ite_cond_eq_false _ _ (eq_false hapart), ite_cond_eq_false _ _ (by simp [hu])]
      exact hu
  · intro q hq
    have hother := h.other q fun a ha hf => hq a (List.mem_cons_of_mem _ ha) hf
    have hapart : ¬ (w.Fits u ∧ q = w.place) := by
      rintro ⟨hfw, he⟩
      exact hq w List.mem_cons_self (hfits.1 hfw) he.symm
    rw [entryAt?_perform hw.ne_nil, ite_cond_eq_false _ _ (eq_false hapart), hreach, hother]
    by_cases hn : t.entryAt? q = none
    · by_cases hd : ∃ a ∈ done, q ∈ t.reach a.way
      · simp [hn, hd]
      · by_cases hm : q ∈ t.reach w.way
        · simp [hn, hd, hm]
        · simp [hn, hd, hm]
    · simp [hn]

/-- What the same writes have left in another order is the same tree. -/
theorem eq_of_perm {u' : FileTree} {done' : List Write} (h : Laid t done u)
    (h' : Laid t done' u') (hp : ∀ w, w ∈ done' ↔ w ∈ done) : u' = u := by
  apply h'.sound.eq_of_entryAt?_eq h.sound (h'.working.trans h.working.symm)
  intro q
  by_cases hw : ∃ a ∈ done, a.Fits t ∧ a.place = q
  · obtain ⟨a, ha, hf, rfl⟩ := hw
    rw [h.written a ha hf, h'.written a ((hp a).2 ha) hf]
  · rw [h.other q fun a ha hf he => hw ⟨a, ha, hf, he⟩,
      h'.other q fun a ha hf he => hw ⟨a, (hp a).1 ha, hf, he⟩]
    simp only [hp]

/-- The way of a write that fits leads through directories, when it is independent of all others
that have been carried out. -/
theorem entryAt?_way (h : Laid t done u) (hm : w ∈ done) (hf : w.Fits t)
    (hi : ∀ a ∈ done, ¬ a.Blocks t w) {q : Place} (hq : q ∈ w.way) :
    u.entryAt? q = some .directory := by
  have hnil := ((fits_iff w t).1 hf).1
  have hreach : q ∈ t.reach w.way := by
    rw [reach_eq_self hnil]
    exact hq
  rcases entryAt?_of_mem_reach hreach with he | he
  · have hnone : ∀ a ∈ done, a.Fits t → a.place ≠ q := by
      rintro a ha hfa rfl
      exact hi a ha ⟨hfa, he, hreach⟩
    rw [h.other q hnone, ite_cond_eq_true]
    exact eq_true ⟨he, w, hm, hreach⟩
  · exact h.entryAt?_directory he

end Laid

/-! ## What a change of order shows -/

variable {a b : Write}

/-- A write does not block itself. -/
theorem not_blocks_self (w : Write) (t : FileTree) : ¬ w.Blocks t w := by
  rintro ⟨hf, he, hm⟩
  exact ((fits_iff w t).1 hf).2.2 ⟨he, hm⟩

/-- What a write reaches is a directory after it. -/
theorem entryAt?_perform_of_mem_reach (ha : a.place ≠ []) {q : Place} (hq : q ∈ t.reach a.way) :
    (a.perform t).1.entryAt? q = some .directory := by
  rcases entryAt?_of_mem_reach hq with he | he
  · have hplace : ¬ (a.Fits t ∧ q = a.place) := by
      rintro ⟨hf, rfl⟩
      exact ((fits_iff a t).1 hf).2.2 ⟨he, hq⟩
    rw [entryAt?_perform ha, ite_cond_eq_false _ _ (eq_false hplace),
      ite_cond_eq_true _ _ (eq_true ⟨he, hq⟩)]
  · exact entryAt?_perform_directory ha he

/-- A write that ends as well after another one does not block it. -/
theorem not_blocks_of_perform (ha : a.place ≠ [])
    (h : (b.perform (a.perform t).1).2 = (b.perform t).2) : ¬ b.Blocks t a := by
  rintro ⟨hf, -, hm⟩
  have hfits : b.Fits (a.perform t).1 := h.trans hf
  exact ((fits_iff b _).1 hfits).2.1 (entryAt?_perform_of_mem_reach ha hm)

/-- A write that fails after another one as it would alone is not misled, provided the other one
makes all directories that it reaches. -/
theorem not_misled_of_perform (ha : a.place ≠ [])
    (hr : ∀ p ∈ t.reach b.way, t.entryAt? p = none → p ∈ t.reach a.way)
    (h : (b.perform (a.perform t).1).2 = (b.perform t).2) : ¬ b.IsMisled t := by
  rintro ⟨hlong, hmissing⟩
  have hdirs : ∀ p ∈ t.reach b.way, (a.perform t).1.entryAt? p = some .directory := by
    intro p hp
    rcases entryAt?_of_mem_reach hp with he | he
    · exact entryAt?_perform_of_mem_reach ha (hr p hp he)
    · exact entryAt?_perform_directory ha he
  have hnofile : ∀ p ∈ t.reach b.way, (a.perform t).1.holdsFile p = false := by
    intro p hp
    rw [FileTree.holdsFile, hdirs p hp]
  obtain ⟨hreach, hbarred⟩ := reach_eq_of_agree hnofile fun _ hq => holdsFile_perform ha hq
  have hnil : t.barred b.way ≠ [] := by
    intro he
    simp [he] at hlong
  have halone : (t.prepare b.way).2 = some .exists := by
    rw [prepare_fault, ite_cond_eq_false _ _ (eq_false hnil),
      ite_cond_eq_true _ _ (eq_true (Or.inr hmissing))]
  have hnone : ¬ ((t.barred b.way).length = 1 ∨
      ∃ p ∈ t.reach b.way, (a.perform t).1.entryAt? p = none) := by
    rintro (hl | ⟨p, hp, he⟩)
    · omega
    · rw [hdirs p hp] at he
      contradiction
  have hafter : ((a.perform t).1.prepare b.way).2 = some .notDirectory := by
    rw [prepare_fault, hreach, hbarred, ite_cond_eq_false _ _ (eq_false hnil),
      ite_cond_eq_false _ _ (eq_false hnone)]
  have hnot : ¬ b.Fits t := fun hf => hnil ((fits_iff b t).1 hf).1
  have hnot' : ¬ b.Fits (a.perform t).1 := by
    intro hf
    rw [fits_iff, hbarred] at hf
    exact hnil hf.1
  rw [perform_eq, perform_eq b t, ite_cond_eq_false _ _ (eq_false hnot),
    ite_cond_eq_false _ _ (eq_false hnot'), hafter, halone] at h
  simp at h

end Write

end VueSfc
