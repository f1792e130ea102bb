import VueSfc.Proofs.FileTree.Preorder
import VueSfc.Proofs.Run.Targets

/-!
# What a run adds to a tree

A run adds directories and component files to a tree and takes nothing away. A component file never
has the name of a page, so the pages of a directory, and what they hold, are the same after a run as
before it, and the same components are planned for them.
-/

namespace VueSfc

open VueSfc.Path FileTree Write

namespace FileTree

/-! ## Growing trees -/

/-- Directories stay directories, files stay files, and the working directory is the same. -/
structure Keeps (t u : FileTree) : Prop where
  /-- The working directory is the same. -/
  working : u.workingDirectory = t.workingDirectory
  /-- Directories stay directories. -/
  directory : ∀ {q}, t.entryAt? q = some .directory → u.entryAt? q = some .directory
  /-- Files stay files. -/
  file : ∀ {q}, t.holdsFile q = true → u.holdsFile q = true

/-- The name at a place is that of a component file. -/
def IsComponentPlace (place : Place) : Prop := ∃ name ∈ place.getLast?, ".vue".toList <:+ name

/-- A tree keeps what there was, and elsewhere than at the places of component files only
directories are new. -/
structure Grows (t u : FileTree) : Prop extends Keeps t u where
  /-- What is new is a directory or the file of a component. -/
  other : ∀ {q}, ¬ IsComponentPlace q →
    u.entryAt? q = t.entryAt? q ∨ t.entryAt? q = none ∧ u.entryAt? q = some .directory

variable {t u v : FileTree}

/-- A tree keeps what it has. -/
theorem Keeps.refl (t : FileTree) : Keeps t t := ⟨rfl, id, id⟩

/-- What is kept twice is kept. -/
theorem Keeps.trans (h : Keeps t u) (k : Keeps u v) : Keeps t v :=
  ⟨k.working.trans h.working, fun hq => k.directory (h.directory hq), fun hq => k.file (h.file hq)⟩

/-- A tree grows by nothing. -/
theorem Grows.refl (t : FileTree) : Grows t t := ⟨Keeps.refl t, fun _ => .inl rfl⟩

/-- Growing twice is growing. -/
theorem Grows.trans (h : Grows t u) (k : Grows u v) : Grows t v where
  toKeeps := h.toKeeps.trans k.toKeeps
  other {q} hq := by
    rcases k.other hq with hv | ⟨hu, hv⟩
    · rw [hv]
      exact h.other hq
    · rcases h.other hq with ht | ⟨-, ht⟩
      · exact .inr ⟨ht.symm.trans hu, hv⟩
      · rw [hu] at ht
        contradiction

/-- The name at the end decides whether a place is one of a component. -/
theorem isComponentPlace_append_iff {place names : Place} (hn : names ≠ []) :
    IsComponentPlace (place ++ names) ↔ IsComponentPlace names := by
  rw [IsComponentPlace, IsComponentPlace, List.getLast?_append_of_ne_nil _ hn]

/-! ## Places -/

/-- Segments that could be followed lead to the same place. -/
theorem Keeps.follow_eq_ok (h : Keeps t u) {place last : Place} {segments : List Text}
    (hf : t.follow place segments = .ok last) : u.follow place segments = .ok last := by
  induction segments generalizing place with
  | nil => exact hf
  | cons segment segments ih =>
    rw [follow] at hf ⊢
    split at hf
    · contradiction
    · contradiction
    · rename_i hd
      rw [h.directory hd]
      exact ih hf

/-- A path that could be followed leads to the same place. -/
theorem Keeps.placeOf_eq_ok (h : Keeps t u) {path : Text} {place : Place}
    (hp : t.placeOf path = .ok place) : u.placeOf path = .ok place := by
  rw [placeOf] at hp ⊢
  split at hp
  · contradiction
  · rename_i hne
    rw [if_neg hne]
    cases hs : split path with
    | mk anchor segments =>
      rw [hs] at hp
      cases anchor with
      | root => exact h.follow_eq_ok hp
      | here => exact h.working ▸ h.follow_eq_ok hp
      | relative => exact h.working ▸ h.follow_eq_ok hp

/-- A directory is found by its path as before. -/
theorem Keeps.isDirectory (h : Keeps t u) {path : Text} (hd : t.isDirectory path = true) :
    ∃ place, t.placeOf path = .ok place ∧ t.entryAt? place = some .directory ∧
      u.placeOf path = .ok place ∧ u.entryAt? place = some .directory := by
  rw [FileTree.isDirectory, entryOf] at hd
  cases hp : t.placeOf path with
  | error fault => simp [hp] at hd
  | ok place =>
    simp only [hp] at hd
    cases he : t.entryAt? place with
    | none => simp [he] at hd
    | some entry =>
      cases entry with
      | file content => simp [he] at hd
      | directory => exact ⟨place, rfl, he, h.placeOf_eq_ok hp, h.directory he⟩

/-- The places along components are those before the end and the end. -/
theorem mem_placesAlong {place p : Place} {cs : List PathComponent}
    (h : p ∈ placesAlong place cs) :
    p ∈ placesAlong place cs.dropLast ∨ p = endOf place cs := by
  rcases List.eq_nil_or_concat cs with rfl | ⟨front, c, rfl⟩
  · exact .inl h
  · rw [List.concat_eq_append, placesAlong_append] at h
    rw [List.concat_eq_append, List.dropLast_concat, endOf_append]
    rcases List.mem_append.1 h with h | h
    · exact .inl h
    · exact .inr (List.mem_singleton.1 h)

/-- The path of a directory, joined with a name, leads to the place below it. -/
theorem IsSound.placeOf_join (ht : t.IsSound) {path name : Text} {place : Place}
    (hp : t.placeOf path = .ok place) (hd : t.entryAt? place = some .directory)
    (hn : IsName name) : t.placeOf (join path name) = .ok (place ++ [name]) := by
  obtain ⟨hplace, hway⟩ := FileTree.placeOf_eq_ok ht hp
  have hc : components (join path name) = components path ++ [.name name] := by
    rw [components_join hn.isRelative, hn.components]
  have hends : EndsInFile (join path name) := by
    obtain ⟨segments, -, hs⟩ := split_join hn.isRelative path
    rw [hn.splitOn] at hs
    exact ⟨_, segments, name, hs, hn⟩
  have hdirs : ∀ p ∈ t.way (join path name), t.entryAt? p = some .directory := by
    intro p hm
    rw [FileTree.way, hc, List.dropLast_concat] at hm
    rcases mem_placesAlong hm with hm | rfl
    · exact hway p hm
    · rw [← destination, ← hplace]
      exact hd
  rw [placeOf_eq_destination ht hends hdirs, destination, hc, endOf_append, ← destination, ← hplace]
  rfl

/-- The path of a directory, joined with names one after another, leads to what stands there. -/
theorem IsSound.placeOf_foldl_join (ht : t.IsSound) {path : Text} {place names : Place}
    (hp : t.placeOf path = .ok place) (hd : t.entryAt? place = some .directory)
    (hn : ∀ name ∈ names, IsName name) {entry : Entry}
    (he : t.entryAt? (place ++ names) = some entry) :
    t.placeOf (names.foldl join path) = .ok (place ++ names) := by
  induction names generalizing path place with
  | nil => rw [List.append_nil, List.foldl_nil, hp]
  | cons name names ih =>
    rw [List.forall_mem_cons] at hn
    have hnext := ht.placeOf_join hp hd hn.1
    have hassoc : place ++ name :: names = place ++ [name] ++ names := by
      rw [List.append_assoc, List.singleton_append]
    rw [hassoc] at he ⊢
    rw [List.foldl_cons]
    by_cases hnil : names = []
    · rw [hnil, List.append_nil, List.foldl_nil, hnext]
    · have hdir : t.entryAt? (place ++ [name]) = some .directory :=
        ht.entryAt?_prefix he (List.prefix_append _ _) (by simpa using Ne.symm hnil)
      exact ih hnext hdir hn.2 he

/-! ## Files below a place -/

/-- Files below a place are the same if they do not have the names of component files. -/
theorem Grows.filter_filesBelow (h : Grows t u) (ht : t.IsSound) (hu : u.IsSound)
    {wanted : Place → Bool} (hw : ∀ names, wanted names = true → ¬ IsComponentPlace names)
    (place : Place) :
    (u.filesBelow place).filter wanted = (t.filesBelow place).filter wanted := by
  refine eq_of_pairwise_lt ((u.pairwise_filesBelow place).filter _)
    ((t.pairwise_filesBelow place).filter _) fun names => ?_
  rw [List.mem_filter, List.mem_filter, hu.mem_filesBelow_iff, ht.mem_filesBelow_iff]
  refine and_congr_left fun hwanted => and_congr_right fun hne => ?_
  rcases h.other (mt (isComponentPlace_append_iff hne).1 (hw _ hwanted)) with heq | ⟨hnone, hdir⟩
  · rw [heq]
  · simp [hnone, hdir]

end FileTree

variable {t u : FileTree} {w : Write} {x : Planned} {plan : List Planned} {s : RunSettings}

/-! ## What deliveries add -/

/-- A component is written to a place with the name of its file. -/
theorem isComponentPlace_destination (t : FileTree) (input : InputFile) (outDir : Option Text) :
    IsComponentPlace (t.destination (input.componentPath outDir)) := by
  obtain ⟨anchor, front, hs⟩ := split_componentPath input outDir
  have hname := isName_componentFileName input.path
  refine ⟨componentFileName input.path, ?_, List.suffix_append _ _⟩
  rw [destination_eq hs, List.filterMap_append, List.filterMap_cons_some hname.componentOf?,
    endOf_append]
  exact List.getLast?_concat

/-- A write keeps what there is. -/
theorem Write.keeps_perform (hw : w.place ≠ []) : Keeps t (w.perform t).1 where
  working := workingDirectory_perform w t
  directory := entryAt?_perform_directory hw
  file := holdsFile_perform hw

/-- A write adds directories and its file. -/
theorem Write.grows_perform (hw : w.place ≠ []) (hc : IsComponentPlace w.place) :
    Grows t (w.perform t).1 where
  toKeeps := keeps_perform hw
  other {q} hq := by
    have hne : ¬ (w.Fits t ∧ q = w.place) := by
      rintro ⟨-, rfl⟩
      exact hq hc
    rw [entryAt?_perform hw, if_neg hne]
    split
    · rename_i hmade
      exact .inr ⟨hmade.1, rfl⟩
    · exact .inl rfl

/-- Every path that a plan gives away is that of the component of its file. -/
def HasComponentTargets (plan : List Planned) : Prop :=
  ∀ x ∈ plan, ∀ target, x.2 = .path target → ∃ outDir, target = x.1.input.componentPath outDir

/-- The paths of components end in names of files. -/
theorem HasComponentTargets.hasFileTargets (h : HasComponentTargets plan) :
    HasFileTargets plan := by
  intro x hx target he
  obtain ⟨outDir, rfl⟩ := h x hx target he
  exact endsInFile_componentPath _ _

/-- A run gives away the paths of components. -/
theorem hasComponentTargets_planOf (t : FileTree) (s : RunSettings) (paths : List Text) :
    HasComponentTargets (planOf t s paths) :=
  fun _ hx target he => ⟨s.outDir, ((of_mem_assignTargets hx).2.2 target he).1⟩

/-- Delivering a planned file changes nothing or is a write to the place of a component. -/
theorem deliver_cases (ht : t.IsSound) (hplan : HasComponentTargets plan) (hx : x ∈ plan) :
    writeOf? t x = none ∧ (deliver t x.1 x.2).tree = t ∨
      ∃ w, writeOf? t x = some w ∧ w.IsPlaced t ∧ IsComponentPlace w.place ∧
        (deliver t x.1 x.2).tree = (w.perform t).1 := by
  cases hw : writeOf? t x with
  | none => exact .inl ⟨rfl, (deliver_of_writeOf?_eq_none hw t).1⟩
  | some w =>
    obtain ⟨c, target, hc, htarget, rfl⟩ := writeOf?_eq_some_iff.1 hw
    obtain ⟨outDir, he⟩ := hplan x hx target htarget
    have hends : EndsInFile target := he ▸ endsInFile_componentPath _ _
    refine .inr ⟨_, rfl, isPlaced_ofTarget hends c.output, ?_, ?_⟩
    · rw [ofTarget, he]
      exact isComponentPlace_destination t _ _
    · rw [htarget]
      exact (deliver_path ht hc hends).1

/-- Delivering a planned file keeps a tree sound and lets it grow. -/
theorem grows_deliver (ht : t.IsSound) (hplan : HasComponentTargets plan) (hx : x ∈ plan) :
    (deliver t x.1 x.2).tree.IsSound ∧ Grows t (deliver t x.1 x.2).tree := by
  rcases deliver_cases ht hplan hx with ⟨-, he⟩ | ⟨w, -, hplaced, hc, he⟩
  · rw [he]
    exact ⟨ht, Grows.refl t⟩
  · rw [he]
    exact ⟨hplaced.isSound_perform ht, grows_perform hplaced.ne_nil hc⟩

/-- Delivering a plan keeps a tree sound and lets it grow. -/
theorem grows_deliverAll (ht : t.IsSound) (hplan : HasComponentTargets plan) :
    (deliverAll t plan).tree.IsSound ∧ Grows t (deliverAll t plan).tree := by
  induction plan generalizing t with
  | nil => exact ⟨ht, Grows.refl t⟩
  | cons x plan ih =>
    obtain ⟨hsound, hgrows⟩ := grows_deliver ht hplan List.mem_cons_self
    obtain ⟨hsound', hgrows'⟩ := ih hsound fun y hy => hplan y (List.mem_cons_of_mem _ hy)
    exact ⟨hsound', hgrows.trans hgrows'⟩

/-! ## Inputs -/

/-- No page has the name of a component file. -/
theorem not_isComponentPlace_of_isWanted (hs : s.extensions = Configuration.defaultExtensions)
    {names : Place} (h : InputFile.isWanted s names = true) : ¬ IsComponentPlace names := by
  rintro ⟨name, hname, front, rfl⟩
  rw [InputFile.isWanted, Option.mem_def.1 hname, hs, Bool.and_eq_true] at h
  obtain ⟨extension, he, hends⟩ := List.any_eq_true.1 h.2
  -- The last letters are not the same.
  have hlast : extension.getLast? = some 'e' := by
    obtain ⟨before, hb⟩ := List.isSuffixOf_iff_suffix.1 hends
    have hne : extension ≠ [] := by
      rintro rfl
      exact absurd he (by decide)
    rw [← List.getLast?_append_of_ne_nil before hne, hb, Option.getD_some, Text.lowerAscii,
      List.map_append, List.getLast?_append_of_ne_nil _ (by decide)]
    decide
  exact absurd (show ∃ e ∈ Configuration.defaultExtensions, e.getLast? = some 'e' from
    ⟨extension, he, hlast⟩) (by decide)

section

variable (hg : Grows t u) (ht : t.IsSound) (hu : u.IsSound)
  (hs : s.extensions = Configuration.defaultExtensions) {paths : List Text}
  (hp : ∀ path ∈ paths, t.isDirectory path = true)
include hg ht hu hs hp

/-- The same inputs are collected from directories when the tree has grown. -/
theorem collect_of_grows : InputFile.collect u s paths = InputFile.collect t s paths := by
  refine List.flatMap_congr fun path hpath => ?_
  obtain ⟨place, hplace, hd, hplace', hd'⟩ := hg.isDirectory (hp path hpath)
  simp only [InputFile.ofPath, hplace, hplace', hd, hd', if_true]
  rw [hg.filter_filesBelow ht hu fun names => not_isComponentPlace_of_isWanted hs]

/-- The inputs that are collected from directories hold what they held when the tree has grown. -/
theorem readText_of_grows (hn : t.HasNames) {input : InputFile}
    (hi : input ∈ InputFile.collect t s paths) :
    u.readText input.path = t.readText input.path := by
  obtain ⟨path, hpath, hi⟩ := List.mem_flatMap.1 hi
  obtain ⟨place, hplace, hd, hplace', hd'⟩ := hg.isDirectory (hp path hpath)
  simp only [InputFile.ofPath, hplace, hd, if_true] at hi
  obtain ⟨names, hm, rfl⟩ := List.mem_map.1 hi
  obtain ⟨hbelow, hwanted⟩ := List.mem_filter.1 hm
  obtain ⟨content, hentry⟩ := mem_filesBelow hbelow
  obtain ⟨-, he⟩ := ht.mem_entries_iff.1 hentry
  have hnames : ∀ name ∈ names, IsName name := fun name hname =>
    hn _ hentry name (List.mem_append_right _ hname)
  have hcomponent := not_isComponentPlace_of_isWanted hs hwanted
  have hne : names ≠ [] := by
    rintro rfl
    rw [List.append_nil, hd] at he
    cases he
  have hsame : u.entryAt? (place ++ names) = some (.file content) := by
    rcases hg.other (mt (isComponentPlace_append_iff hne).1 hcomponent) with heq | ⟨hnone, -⟩
    · rw [heq, he]
    · rw [he] at hnone
      contradiction
  have hat := ht.placeOf_foldl_join hplace hd hnames he
  have hat' := hu.placeOf_foldl_join hplace' hd' hnames hsame
  simp only [readText, entryOf, InputFile.below, hat, hat', he, hsame]

/-- The same components are planned for directories when the tree has grown. -/
theorem planOf_of_grows (hn : t.HasNames) : planOf u s paths = planOf t s paths := by
  rw [planOf, planOf, collect_of_grows hg ht hu hs hp]
  refine congrArg (planTargets s.outDir) (List.map_congr_left fun input hi => ?_)
  rw [ReadFile.ofInput, ReadFile.ofInput, readText_of_grows hg ht hu hs hp hn hi]

end

end VueSfc
