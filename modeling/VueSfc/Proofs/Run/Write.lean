import VueSfc.Run.Delivery
import VueSfc.Proofs.FileTree.Directories

/-!
# Writing one component

Writing a component is told by places: the way to its place is prepared, and then the file is put
there unless a directory stands there. What a write leaves at every place, and how it fails, can
be read off the tree before it.
-/

namespace VueSfc

open VueSfc.Path FileTree

/-- A write: the places on the way, the place of the file, and its content. -/
structure Write where
  /-- The places that have to be directories. -/
  way : List Place
  /-- Where the file is put. -/
  place : Place
  /-- The content of the file. -/
  content : Bytes
  deriving DecidableEq

namespace Write

/-- The write of a component to a target. -/
def ofTarget (t : FileTree) (target output : Text) : Write :=
  ⟨t.way target, t.destination target, encodeText (deliveredText output)⟩

/-- Carry out a write. -/
def perform (w : Write) (t : FileTree) : FileTree × Option FileFault :=
  match t.prepare w.way with
  | (t, some fault) => (t, some fault)
  | (t, none) =>
    if t.entryAt? w.place = some .directory then (t, some .isDirectory)
    else (t.set w.place (.file w.content), none)

/-- The write succeeds where nothing has been written before. -/
def Fits (t : FileTree) (w : Write) : Prop := (w.perform t).2 = none

instance (t : FileTree) (w : Write) : Decidable (w.Fits t) := inferInstanceAs (Decidable (_ = _))

/-- The way is a walk from the working directory, and the place stands next to its end. -/
structure IsPlaced (t : FileTree) (w : Write) : Prop where
  /-- Each place on the way is next to the one before it. -/
  walk : IsWalk t.workingDirectory w.way
  /-- The file does not stand at the root. -/
  ne_nil : w.place ≠ []
  /-- The file stands in a directory of the way. -/
  parent : w.place.dropLast ∈ t.workingDirectory :: w.way

variable {t : FileTree} {w : Write}

/-! ## From paths to places -/

/-- A path whose last segment is a name. -/
def EndsInFile (path : Text) : Prop :=
  ∃ anchor front name, split path = (anchor, front ++ [name]) ∧ IsName name

private theorem way_eq {path : Text} {anchor : Anchor} {front : List Text} {name : Text}
    (h : split path = (anchor, front ++ [name])) (hn : IsName name) :
    t.way path = placesAlong t.workingDirectory anchor.components ++
      placesAlong (t.startOf anchor) (front.filterMap componentOf?) := by
  rw [FileTree.way, components, h, List.filterMap_append, List.filterMap_cons_some hn.componentOf?,
    List.filterMap_nil, ← List.append_assoc, List.dropLast_concat, placesAlong_append]
  cases anchor <;> rfl

private theorem prepare_way (ht : t.IsSound) {path : Text} {anchor : Anchor} {front : List Text}
    {name : Text} (h : split path = (anchor, front ++ [name])) (hn : IsName name) :
    t.prepare (t.way path) =
      t.prepare (placesAlong (t.startOf anchor) (front.filterMap componentOf?)) := by
  rw [way_eq h hn]
  cases anchor with
  | root => exact prepare_cons t.entryAt?_nil _
  | here => exact prepare_cons ht.working _
  | relative => rfl

/-- The place of a path that ends in a name, where the way to it leads through directories. -/
theorem placeOf_eq_destination (ht : t.IsSound) {path : Text} (h : EndsInFile path)
    (hw : ∀ p ∈ t.way path, t.entryAt? p = some .directory) :
    t.placeOf path = .ok (t.destination path) := by
  obtain ⟨anchor, front, name, hs, hn⟩ := h
  have hclear : t.blockage (placesAlong (t.startOf anchor) (front.filterMap componentOf?)) =
      none := by
    apply blockage_eq_none_iff.2
    intro p hp
    apply hw p
    rw [way_eq hs hn]
    exact List.mem_append_right _ hp
  rw [placeOf_concat ht hs hn.not_idle hn.componentOf?, hclear, destination_eq hs,
    List.filterMap_append, List.filterMap_cons_some hn.componentOf?, endOf_append]
  rfl

/-- Writing a component to a path that ends in a name is the write to its place. -/
theorem writeComponent_eq (ht : t.IsSound) {target : Text} (h : EndsInFile target)
    (output : Text) :
    writeComponent t target output = (ofTarget t target output).perform t := by
  have hplaced := fun (u : FileTree) (hu : u.IsSound) => placeOf_eq_destination hu h
  obtain ⟨anchor, front, name, hs, hn⟩ := h
  have hparent : parent? target = some (build anchor (trimIdle front)) := by
    have htrim : trimIdle (split target).2 = front ++ [name] := by
      rw [hs]
      exact trimIdle_concat hn.not_idle front
    rw [parent?_eq htrim, hs]
  have hwalk := isWalk_placesAlong t.workingDirectory (components target).dropLast
  have hsound := ht.prepare ht.working hwalk
  have hkept := t.workingDirectory_prepare (t.way target)
  rw [writeComponent, hparent]
  simp only
  rw [makeDirectories_build ht hs, ← prepare_way ht hs hn, perform, ofTarget]
  simp only
  cases hp : t.prepare (t.way target) with
  | mk u fault =>
    cases fault with
    | some fault => rfl
    | none =>
      change (t.prepare (t.way target)).1.IsSound at hsound
      rw [hp] at hsound hkept
      have hway : u.way target = t.way target := by rw [FileTree.way, FileTree.way, hkept]
      have hdest : u.destination target = t.destination target := by
        rw [destination, destination, hkept]
      have hplace := hplaced u hsound fun p hm => entryAt?_of_prepare_eq hp (hway ▸ hm)
      rw [hdest] at hplace
      simp only [write, hplace]
      cases he : u.entryAt? (t.destination target) with
      | none => simp
      | some entry => cases entry <;> simp

/-- The write of a component to a path that ends in a name is placed. -/
theorem isPlaced_ofTarget {target : Text} (h : EndsInFile target) (output : Text) :
    (ofTarget t target output).IsPlaced t := by
  obtain ⟨anchor, front, name, hs, hn⟩ := h
  have hc : components target =
      (anchor.components ++ front.filterMap componentOf?) ++ [.name name] := by
    rw [components, hs, List.filterMap_append, List.filterMap_cons_some hn.componentOf?,
      List.filterMap_nil, List.append_assoc]
  have hplace : t.destination target =
      endOf t.workingDirectory (anchor.components ++ front.filterMap componentOf?) ++ [name] := by
    rw [destination, hc, endOf_append]
    rfl
  refine ⟨isWalk_placesAlong _ _, ?_, ?_⟩
  · simp [ofTarget, hplace]
  · simp only [ofTarget]
    rw [hplace, List.dropLast_concat, FileTree.way, hc, List.dropLast_concat]
    exact endOf_mem _ _

/-! ## What a write leaves -/

/-- A write fits where its way can be prepared and no directory stands at its place then. -/
private theorem fits_iff_prepare (w : Write) (t : FileTree) :
    w.Fits t ↔ (t.prepare w.way).2 = none ∧
      (t.prepare w.way).1.entryAt? w.place ≠ some .directory := by
  rw [Fits, perform]
  cases t.prepare w.way with
  | mk u fault =>
    cases fault with
    | some fault => simp
    | none => by_cases hd : u.entryAt? w.place = some .directory <;> simp [hd]

/-- A write prepares its way and puts its file if it fits. Its fault is that of its way, or else
that of its place. -/
theorem perform_eq (w : Write) (t : FileTree) :
    w.perform t =
      if w.Fits t then ((t.prepare w.way).1.set w.place (.file w.content), none)
      else ((t.prepare w.way).1, some ((t.prepare w.way).2.getD .isDirectory)) := by
  have hfits := fits_iff_prepare w t
  rw [perform]
  cases hp : t.prepare w.way with
  | mk u fault =>
    rw [hp] at hfits
    cases fault with
    | some fault => simp [hfits]
    | none => by_cases hd : u.entryAt? w.place = some .directory <;> simp [hfits, hd]

/-- A write fits where no file bars its way, and no directory stands at its place or is made
there on the way. -/
theorem fits_iff (w : Write) (t : FileTree) :
    w.Fits t ↔ t.barred w.way = [] ∧ t.entryAt? w.place ≠ some .directory ∧
      ¬ (t.entryAt? w.place = none ∧ w.place ∈ t.reach w.way) := by
  have hfault : (t.prepare w.way).2 = none ↔ t.barred w.way = [] := by
    rw [prepare_fault]
    by_cases hb : t.barred w.way = []
    · simp [hb]
    · rw [ite_cond_eq_false _ _ (eq_false hb)]
      split <;> simp [hb]
  rw [fits_iff_prepare, hfault, entryAt?_prepare]
  by_cases hm : t.entryAt? w.place = none ∧ w.place ∈ t.reach w.way
  · simp [hm]
  · rw [ite_cond_eq_false _ _ (eq_false hm)]
    simp only [hm, not_false_eq_true, and_true]

/-- What stands at each place after a write. -/
theorem entryAt?_perform (hw : w.place ≠ []) (q : Place) :
    (w.perform t).1.entryAt? q =
      if w.Fits t ∧ q = w.place then some (.file w.content)
      else if t.entryAt? q = none ∧ q ∈ t.reach w.way then some .directory
      else t.entryAt? q := by
  rw [perform_eq]
  by_cases hf : w.Fits t
  · rw [ite_cond_eq_true _ _ (eq_true hf), entryAt?_set _ hw, entryAt?_prepare]
    simp [hf]
  · rw [ite_cond_eq_false _ _ (eq_false hf), entryAt?_prepare]
    simp [hf]

/-- A write leaves the working directory. -/
theorem workingDirectory_perform (w : Write) (t : FileTree) :
    (w.perform t).1.workingDirectory = t.workingDirectory := by
  rw [perform_eq]
  split <;> exact t.workingDirectory_prepare w.way

/-- A write that is placed keeps a tree sound. -/
theorem IsPlaced.isSound_perform (hw : w.IsPlaced t) (ht : t.IsSound) :
    (w.perform t).1.IsSound := by
  have hsound := ht.prepare ht.working hw.walk
  rw [perform_eq]
  split
  · rename_i hf
    obtain ⟨hp, hd⟩ := (fits_iff_prepare w t).1 hf
    have hprep : t.prepare w.way = ((t.prepare w.way).1, none) := by rw [← hp]
    refine hsound.set hw.ne_nil ?_ (fun h => absurd h hd)
    rcases List.mem_cons.1 hw.parent with he | hm
    · rw [he]
      exact entryAt?_prepare_of_eq_some ht.working
    · exact entryAt?_of_prepare_eq hprep hm
  · exact hsound

/-- Directories stay directories. -/
theorem entryAt?_perform_directory (hw : w.place ≠ []) {q : Place}
    (h : t.entryAt? q = some .directory) : (w.perform t).1.entryAt? q = some .directory := by
  rw [entryAt?_perform hw, ite_cond_eq_false, ite_cond_eq_false]
  · exact h
  · simp [h]
  · rw [eq_iff_iff, iff_false]
    rintro ⟨hf, rfl⟩
    exact ((fits_iff w t).1 hf).2.1 h

/-- Files stay files. -/
theorem holdsFile_perform (hw : w.place ≠ []) {q : Place} (h : t.holdsFile q = true) :
    (w.perform t).1.holdsFile q = true := by
  have hne := entryAt?_ne_none h
  rw [holdsFile, entryAt?_perform hw]
  by_cases hc : w.Fits t ∧ q = w.place
  · rw [ite_cond_eq_true _ _ (eq_true hc)]
  · rw [ite_cond_eq_false _ _ (eq_false hc), ite_cond_eq_false _ _ (by simp [hne])]
    exact h

end Write

end VueSfc
