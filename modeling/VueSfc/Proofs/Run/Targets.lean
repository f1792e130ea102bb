import VueSfc.Run.Session
import VueSfc.Proofs.Component.FileName
import VueSfc.Proofs.Run.WriteOrder

/-!
# The targets of a run

Components are written beside their inputs, where every directory on the way stands already, or
below one directory, where every way begins with the way to that directory and goes on from name
to name. So a missing directory that a way leads out of again lies on all ways.
-/

namespace VueSfc

open VueSfc.Path FileTree Write

/-- What stands in a tree has names. -/
def FileTree.HasNames (t : FileTree) : Prop := ∀ x ∈ t.entries, ∀ name ∈ x.1, IsName name

instance (t : FileTree) : Decidable t.HasNames :=
  inferInstanceAs (Decidable (∀ x ∈ t.entries, ∀ name ∈ x.1, IsName name))

/-- The inputs that some paths stand for, read and converted, with their targets. -/
def planOf (t : FileTree) (s : RunSettings) (paths : List Text) : List Planned :=
  planTargets s.outDir ((InputFile.collect t s paths).map (ReadFile.ofInput t s.dialect))

variable {t : FileTree}

/-! ## Inputs -/

/-- The directory of an input below the one that was walked is made of names. -/
def InputFile.HasNamedDir (input : InputFile) : Prop :=
  ∃ names : List Text, (∀ name ∈ names, IsName name) ∧
    input.relativeDir = Text.joinWith ['/'] names

private theorem hasNamedDir_given (path : Text) : (⟨path, []⟩ : InputFile).HasNamedDir :=
  ⟨[], by simp, rfl⟩

/-- Every input stands in a directory that is made of names. -/
theorem hasNamedDir_of_mem_collect (hn : t.HasNames) {s : RunSettings} {paths : List Text}
    {input : InputFile} (h : input ∈ InputFile.collect t s paths) : input.HasNamedDir := by
  obtain ⟨path, -, h⟩ := List.mem_flatMap.1 h
  rw [InputFile.ofPath] at h
  split at h
  · rw [List.mem_singleton.1 h]
    exact hasNamedDir_given path
  · split at h
    · obtain ⟨names, hm, rfl⟩ := List.mem_map.1 h
      obtain ⟨content, he⟩ := mem_filesBelow (List.mem_filter.1 hm).1
      refine ⟨names.dropLast, ?_, rfl⟩
      intro name hname
      exact hn _ he name (List.mem_append_right _ (List.dropLast_subset _ hname))
    · rw [List.mem_singleton.1 h]
      exact hasNamedDir_given path

/-- An input that could be read is a file, and the way to it leads through directories. -/
theorem readable_input (ht : t.IsSound) {path text : Text} (h : t.readText path = .ok text) :
    (∃ name, fileName? path = some name) ∧ ∀ p ∈ t.way path, t.entryAt? p = some .directory := by
  rw [readText, entryOf] at h
  cases hp : t.placeOf path with
  | error fault => simp [hp] at h
  | ok place =>
    obtain ⟨rfl, hway⟩ := placeOf_eq_ok ht hp
    refine ⟨?_, hway⟩
    simp only [hp] at h
    have hnot : t.entryAt? (t.destination path) ≠ some .directory := by
      intro he
      simp [he, Entry.text] at h
    have hlast : ∀ p, p ∈ t.workingDirectory :: t.way path → t.entryAt? p = some .directory := by
      intro p hm
      rcases List.mem_cons.1 hm with rfl | hm
      · exact ht.working
      · exact hway p hm
    cases hc : (components path).getLast? with
    | none =>
      rw [List.getLast?_eq_none_iff] at hc
      rw [destination, hc] at hnot
      exact absurd ht.working hnot
    | some c =>
      obtain ⟨cs, hcs⟩ := List.getLast?_eq_some_iff.1 hc
      have hend : t.entryAt? (endOf t.workingDirectory cs) = some .directory := by
        apply hlast
        rw [FileTree.way, hcs, List.dropLast_concat]
        exact endOf_mem _ _
      rw [destination, hcs, endOf_append] at hnot
      cases c with
      | root => exact absurd t.entryAt?_nil hnot
      | here => exact absurd hend hnot
      | up => exact absurd (ht.entryAt?_dropLast hend) hnot
      | name name => exact ⟨name, by rw [fileName?, hc]⟩

/-! ## Paths of components -/

/-- The last segment of the path of a component is the name of its file. -/
theorem split_componentPath (input : InputFile) (outDir : Option Text) :
    ∃ anchor front, split (input.componentPath outDir) =
      (anchor, front ++ [componentFileName input.path]) := by
  have hname := isName_componentFileName input.path
  have hjoin : ∀ path, ∃ anchor front, split (join path (componentFileName input.path)) =
      (anchor, front ++ [componentFileName input.path]) := by
    intro path
    obtain ⟨segments, -, hs⟩ := split_join hname.isRelative path
    rw [hname.splitOn] at hs
    exact ⟨_, segments, hs⟩
  cases outDir with
  | some dir => exact hjoin _
  | none =>
    simp only [InputFile.componentPath, withFileName]
    split
    · exact hjoin _
    · exact hjoin _

/-- The path of a component ends in the name of a file. -/
theorem endsInFile_componentPath (input : InputFile) (outDir : Option Text) :
    EndsInFile (input.componentPath outDir) := by
  obtain ⟨anchor, front, hs⟩ := split_componentPath input outDir
  exact ⟨anchor, front, _, hs, isName_componentFileName input.path⟩

/-- The way to a component beside its input is the way to the input. -/
theorem way_beside {input : InputFile} {name : Text} (h : fileName? input.path = some name) :
    t.way (input.componentPath none) = t.way input.path := by
  rw [InputFile.componentPath, FileTree.way, FileTree.way,
    components_withFileName h (isName_componentFileName _), List.dropLast_concat]

/-- The way to a component below a directory is the way to the directory, and then goes on from
name to name. -/
theorem way_below {input : InputFile} (hi : input.HasNamedDir) (dir : Text) :
    ∃ names : List Text, t.way (input.componentPath (some dir)) =
      placesAlong t.workingDirectory (components dir) ++
        placesAlong (endOf t.workingDirectory (components dir)) (names.map .name) := by
  obtain ⟨names, hn, hr⟩ := hi
  obtain ⟨hrel, hc⟩ := isRelative_joinWith hn
  have hname := isName_componentFileName input.path
  refine ⟨names, ?_⟩
  rw [InputFile.componentPath, FileTree.way, components_join hname.isRelative, hr,
    components_join hrel, hc, hname.components, List.dropLast_concat, placesAlong_append]

/-! ## Plans -/

/-- The text that is delivered for a file is the output of its conversion. -/
theorem result_of_output? {file : ReadFile} {output : Text} (h : file.output? = some output) :
    ∃ c, file.result = .ok c ∧ c.output = output := by
  rw [ReadFile.output?] at h
  split at h
  · contradiction
  · rename_i c hc
    rw [Option.ite_none_left_eq_some] at h
    exact ⟨c, hc, Option.some.inj h.2⟩

/-- Every file is given a target, and the files keep their order. -/
theorem map_fst_assignTargets (outDir : Option Text) (claims : Claims) (files : List ReadFile) :
    (assignTargets outDir claims files).map Prod.fst = files := by
  induction files generalizing claims with
  | nil => rfl
  | cons file files ih =>
    rw [assignTargets]
    split
    · rw [List.map_cons, ih]
    · dsimp only
      split <;> rw [List.map_cons, ih]

/-- A planned file is one of the files. It is given a path that is that of its component, or
nothing where it has none. -/
theorem of_mem_assignTargets {outDir : Option Text} {claims : Claims} {files : List ReadFile}
    {x : Planned} (h : x ∈ assignTargets outDir claims files) :
    x.1 ∈ files ∧ (x.2 = .nothing → x.1.output? = none) ∧ ∀ target, x.2 = .path target →
      target = x.1.input.componentPath outDir ∧ ∃ output, x.1.output? = some output := by
  induction files generalizing claims with
  | nil => simp [assignTargets] at h
  | cons file files ih =>
    rw [assignTargets] at h
    have hrest {claims : Claims} (h : x ∈ assignTargets outDir claims files) :
        x.1 ∈ file :: files ∧ (x.2 = .nothing → x.1.output? = none) ∧
          ∀ target, x.2 = .path target →
            target = x.1.input.componentPath outDir ∧ ∃ output, x.1.output? = some output :=
      ⟨List.mem_cons_of_mem _ (ih h).1, (ih h).2⟩
    split at h
    · rename_i ho
      rcases List.mem_cons.1 h with rfl | h
      · exact ⟨List.mem_cons_self, fun _ => ho, by simp⟩
      · exact hrest h
    · rename_i output ho
      simp only at h
      split at h
      · rcases List.mem_cons.1 h with rfl | h
        · exact ⟨List.mem_cons_self, by simp⟩
        · exact hrest h
      · rcases List.mem_cons.1 h with rfl | h
        · refine ⟨List.mem_cons_self, by simp, ?_⟩
          intro target he
          exact ⟨(Target.path.inj he).symm, output, ho⟩
        · exact hrest h

/-- Every path that a run gives away ends in the name of a file. -/
theorem hasFileTargets_planOf (t : FileTree) (s : RunSettings) (paths : List Text) :
    HasFileTargets (planOf t s paths) := by
  intro x hx target he
  rw [((of_mem_assignTargets hx).2.2 target he).1]
  exact endsInFile_componentPath _ _

/-- What is written for a planned file of a run. -/
theorem exists_input_of_write {s : RunSettings} {paths : List Text} {x : Planned} {w : Write}
    (hx : x ∈ planOf t s paths) (hw : writeOf? t x = some w) :
    ∃ input ∈ InputFile.collect t s paths, ∃ text,
      t.readText input.path = .ok text ∧ w.way = t.way (input.componentPath s.outDir) := by
  obtain ⟨hfile, -, htarget⟩ := of_mem_assignTargets hx
  obtain ⟨input, hi, hf⟩ := List.mem_map.1 hfile
  obtain ⟨c, target, hc, he, rfl⟩ := writeOf?_eq_some_iff.1 hw
  refine ⟨input, hi, ?_⟩
  rw [(htarget target he).1]
  rw [← hf] at hc ⊢
  cases hr : t.readText input.path with
  | error fault => simp [ReadFile.ofInput, hr, Except.map] at hc
  | ok text => exact ⟨text, rfl, rfl⟩

/-- On a way that goes on from name to name, no file stands behind a missing directory. -/
theorem barred_eq_nil (ht : t.IsSound) {place p : Place} {names : List Text}
    (hp : p ∈ t.reach (placesAlong place (names.map .name))) (he : t.entryAt? p = none) :
    t.barred (placesAlong place (names.map .name)) = [] := by
  cases hb : t.barred (placesAlong place (names.map .name)) with
  | nil => rfl
  | cons f rest =>
    have hfile := holdsFile_of_barred hb
    have hdown := pairwise_prefix_placesAlong place names
    rw [← t.reach_append_barred (placesAlong place (names.map .name)), hb] at hdown
    have hpf : p <+: f := (List.pairwise_append.1 hdown).2.2 p hp f List.mem_cons_self
    by_cases hpe : p = f
    · rw [hpe] at he
      exact absurd he (entryAt?_ne_none hfile)
    · exact absurd (ht.entryAt?_eq_none (by simp [he]) hpf hpe) (entryAt?_ne_none hfile)

/-- A directory that is missing on a way that is misled is reached by every other write. -/
theorem missing_mem_reach (ht : t.IsSound) (hn : t.HasNames) {s : RunSettings}
    {paths : List Text} {x y : Planned} {a b : Write} (hx : x ∈ planOf t s paths)
    (hy : y ∈ planOf t s paths) (ha : writeOf? t x = some a) (hb : writeOf? t y = some b)
    (hm : b.IsMisled t) {p : Place} (hp : p ∈ t.reach b.way) (he : t.entryAt? p = none) :
    p ∈ t.reach a.way := by
  obtain ⟨inputA, hA, textA, hreadA, hwayA⟩ := exists_input_of_write hx ha
  obtain ⟨inputB, hB, textB, hreadB, hwayB⟩ := exists_input_of_write hy hb
  cases hout : s.outDir with
  | none =>
    obtain ⟨⟨name, hname⟩, hdirs⟩ := readable_input ht hreadB
    rw [hout, way_beside hname] at hwayB
    have hmem : p ∈ b.way := (List.takeWhile_prefix _).subset hp
    rw [hwayB] at hmem
    rw [hdirs p hmem] at he
    contradiction
  | some dir =>
    obtain ⟨namesA, hnA⟩ := way_below (t := t) (hasNamedDir_of_mem_collect hn hA) dir
    obtain ⟨namesB, hnB⟩ := way_below (t := t) (hasNamedDir_of_mem_collect hn hB) dir
    rw [hout, hnA] at hwayA
    rw [hout, hnB] at hwayB
    have hbarred : t.barred b.way ≠ [] := by
      intro hnil
      have hlong := hm.1
      rw [hnil] at hlong
      exact absurd hlong (by decide)
    rw [hwayB] at hp hbarred
    rw [hwayA]
    by_cases hd : t.barred (placesAlong t.workingDirectory (components dir)) = []
    · obtain ⟨hrB, hbB⟩ := reach_append hd
        (placesAlong (endOf t.workingDirectory (components dir)) (namesB.map .name))
      rw [(reach_append hd _).1]
      rw [hrB] at hp
      rcases List.mem_append.1 hp with hp | hp
      · exact List.mem_append_left _ hp
      · rw [hbB, barred_eq_nil ht hp he] at hbarred
        contradiction
    · rw [reach_append_of_barred hd] at hp ⊢
      exact hp

end VueSfc
