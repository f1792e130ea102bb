import VueSfc.Proofs.FileTree.Preorder
import VueSfc.Proofs.Run.ComponentPath
import VueSfc.Proofs.Run.Course
import VueSfc.Proofs.Run.Ignored

/-!
# Finding inputs

The inputs of a run are the paths that are no directories, as they stand, and from every directory
the files below it that have one of the extensions and are not ignored, in the order of a walk. So
one more pattern takes away the files that it matches and no others, and the order in which patterns
are given does not matter.
-/

namespace VueSfc

open VueSfc.Path FileTree Text Glob

/-! ## What a search gives -/

/-- A name ends with one of some extensions, up to the case of ASCII letters. -/
def HasExtension (extensions : List Text) (name : Text) : Prop :=
  ∃ extension ∈ extensions, ∃ front ending, name = front ++ ending ∧
    eqFold extension ending = true

/-- The names on the way from a place lead to a file that has one of the extensions and is not
ignored by the patterns. -/
structure IsPage (t : FileTree) (extensions globs : List Text) (place way : Place) : Prop where
  /-- They lead to a file. -/
  file : ∃ content, t.entryAt? (place ++ way) = some (.file content)
  /-- Its name has one of the extensions. -/
  extension : ∃ name ∈ way.getLast?, HasExtension extensions name
  /-- The path made of the names is not ignored. -/
  kept : ¬ IsIgnoredBy globs (encodeText (InputFile.relativePath way))

/-- Just the pages below a place, each of them once, in the order of a walk. -/
structure ArePages (t : FileTree) (extensions globs : List Text) (place : Place)
    (pages : List Place) : Prop where
  /-- They are the pages. -/
  mem_iff : ∀ way, way ∈ pages ↔ IsPage t extensions globs place way
  /-- Each is there once. -/
  nodup : pages.Nodup
  /-- A walk comes upon them in this order. -/
  ordered : ∃ visited, IsWalkOf t place visited ∧ pages.Sublist visited

/-- How an input was found. -/
inductive Find where
  /-- Its path was given. -/
  | given (path : Text)
  /-- The names lead to it from the directory at a path. -/
  | below (root : Text) (names : List Text)

namespace Find

/-- The input that was found. In a directory its path is that of the directory joined with the path
made of the names, which has the relative directory for a parent. -/
def input : Find → InputFile
  | given path => ⟨path, []⟩
  | below root names =>
    ⟨join root (InputFile.relativePath names), (parent? (InputFile.relativePath names)).getD []⟩

/-- A pattern matches the path by which an input was found in a directory. -/
def isMatchedBy (p : Pattern) : Find → Bool
  | given _ => false
  | below _ names => matchesPath p (InputFile.relativePath names)

end Find

/-- What a search through some paths finds, one after another. -/
inductive Finds (t : FileTree) (extensions globs : List Text) : List Text → List Find → Prop
  /-- No path is left. -/
  | nil : Finds t extensions globs [] []
  /-- A path is that of no directory. -/
  | given {path : Text} {paths : List Text} {finds : List Find}
      (noDirectory : t.isDirectory path = false) (rest : Finds t extensions globs paths finds) :
      Finds t extensions globs (path :: paths) (.given path :: finds)
  /-- A path leads to a directory. -/
  | walked {path : Text} {place : Place} {pages : List Place} {paths : List Text}
      {finds : List Find} (place_eq : t.placeOf path = .ok place)
      (directory : t.entryAt? place = some .directory)
      (arePages : ArePages t extensions globs place pages)
      (rest : Finds t extensions globs paths finds) :
      Finds t extensions globs (path :: paths) (pages.map (.below path) ++ finds)

variable {t : FileTree} {o : Options} {c : Configuration} {asked : Option Text} {s : RunSettings}
  {place : Place} {extensions globs : List Text}

/-! ## Pages -/

/-- A name ends with an extension in lower case when it ends with it up to letter case. -/
theorem endsWith_lowerAscii_iff {extension name : Text} :
    endsWith (lowerAscii extension) (lowerAscii name) = true ↔
      ∃ front ending, name = front ++ ending ∧ eqFold extension ending = true := by
  rw [endsWith, List.isSuffixOf_iff_suffix]
  constructor
  · rintro ⟨front, h⟩
    obtain ⟨front, ending, rfl, -, he⟩ := List.map_eq_append_iff.1 h.symm
    exact ⟨front, ending, rfl, beq_iff_eq.2 he.symm⟩
  · rintro ⟨front, ending, rfl, he⟩
    refine ⟨lowerAscii front, ?_⟩
    rw [lowerAscii, lowerAscii, lowerAscii, List.map_append, beq_iff_eq.1 he]

/-- The settings of a run want the files with one of its extensions that its patterns do not
ignore. -/
theorem isWanted_iff (h : RunSettings.resolve o c asked = .ok s) {way : Place} {name : Text}
    (hn : way.getLast? = some name) : InputFile.isWanted s way = true ↔
      HasExtension c.fileExtensions name ∧ ¬ IsIgnoredBy (c.ignore ++ o.ignore ++ defaultIgnores)
        (encodeText (InputFile.relativePath way)) := by
  rw [InputFile.isWanted, Bool.and_eq_true, Bool.not_eq_true', Bool.eq_false_iff, Ne,
    ignores_iff h, and_comm, hn, Option.getD_some, (of_resolve h).1, List.any_map, List.any_eq_true]
  refine and_congr_left fun _ => exists_congr fun extension => and_congr_right fun _ => ?_
  exact endsWith_lowerAscii_iff

/-- The wanted files below a place are the pages there. -/
theorem arePages_filesBelow (ht : t.IsSound) (h : RunSettings.resolve o c asked = .ok s)
    (place : Place) : ArePages t c.fileExtensions (c.ignore ++ o.ignore ++ defaultIgnores) place
      ((t.filesBelow place).filter (InputFile.isWanted s)) where
  mem_iff way := by
    rw [List.mem_filter, ht.mem_filesBelow_iff]
    constructor
    · rintro ⟨⟨hne, hfile⟩, hw⟩
      have hlast := List.getLast?_eq_some_getLast hne
      obtain ⟨hext, hkept⟩ := (isWanted_iff h hlast).1 hw
      exact ⟨hfile, ⟨_, hlast, hext⟩, hkept⟩
    · rintro ⟨hfile, ⟨name, hname, hext⟩, hkept⟩
      have hne : way ≠ [] := by
        rintro rfl
        contradiction
      exact ⟨⟨hne, hfile⟩, (isWanted_iff h hname).2 ⟨hext, hkept⟩⟩
  nodup := by
    refine List.Pairwise.imp ?_ ((t.pairwise_filesBelow place).filter (InputFile.isWanted s))
    rintro a b hlt rfl
    exact List.lt_irrefl a hlt
  ordered := by
    obtain ⟨visited, hv⟩ := ht.exists_isWalkOf place
    exact ⟨visited, hv, List.filter_sublist.trans (hv.filesBelow_sublist ht)⟩

/-- There is one list of the pages below a place. -/
theorem ArePages.unique {pages others : List Place} (h : ArePages t extensions globs place pages)
    (ho : ArePages t extensions globs place others) (ht : t.IsSound) : pages = others := by
  obtain ⟨visited, hv, hs⟩ := h.ordered
  obtain ⟨visited', hv', hs'⟩ := ho.ordered
  exact eq_of_pairwise_lt ((hv.pairwise ht).sublist hs) ((hv'.pairwise ht).sublist hs') fun way =>
    (h.mem_iff way).trans (ho.mem_iff way).symm

/-! ## Finds -/

/-- What is found at a path. -/
def Find.ofPath (t : FileTree) (s : RunSettings) (path : Text) : List Find :=
  match t.placeOf path with
  | .error _ => [.given path]
  | .ok place =>
    if t.entryAt? place = some .directory then
      ((t.filesBelow place).filter (InputFile.isWanted s)).map (.below path)
    else [.given path]

namespace Find

variable {path : Text} {paths : List Text}

/-- A path that is that of no directory is found as it is given. -/
theorem ofPath_given (h : t.isDirectory path = false) (s : RunSettings) :
    ofPath t s path = [given path] := by
  rw [ofPath]
  split
  · rfl
  · rename_i place hp
    refine if_neg fun he => ?_
    rw [isDirectory_eq_true_iff.2 ⟨place, hp, he⟩] at h
    contradiction

/-- In a directory the wanted files below it are found. -/
theorem ofPath_below (hp : t.placeOf path = .ok place) (hd : t.entryAt? place = some .directory)
    (s : RunSettings) : ofPath t s path =
      ((t.filesBelow place).filter (InputFile.isWanted s)).map (below path) := by
  simp only [ofPath, hp, if_pos hd]

/-- A path is that of no directory, or it leads to one. -/
theorem noDirectory_or (t : FileTree) (path : Text) : t.isDirectory path = false ∨
    ∃ place, t.placeOf path = .ok place ∧ t.entryAt? place = some .directory := by
  rw [← isDirectory_eq_true_iff]
  cases t.isDirectory path <;> simp

/-- The input found below a directory is the one that the names stand for. -/
theorem input_below {names : List Text} (h : ∀ name ∈ names, IsName name) (hn : names ≠ [])
    (root : Text) : (below root names).input = InputFile.below root names := by
  rw [input, InputFile.below, InputFile.relativePath, foldl_join h hn, parent?_joinWith h hn]
  rfl

/-- An input found below a directory has the components of that and then the names, and its relative
directory has the names but for the last one. -/
theorem components_input_below {names : List Text} (h : ∀ name ∈ names, IsName name)
    (hn : names ≠ []) (root : Text) :
    components (below root names).input.path = components root ++ names.map .name ∧
      components (below root names).input.relativeDir = names.dropLast.map .name := by
  obtain ⟨hrel, hc⟩ := isRelative_joinWith h
  constructor
  · rw [input, InputFile.relativePath, components_join hrel, hc]
  · rw [input_below h hn, InputFile.below, InputFile.relativePath]
    exact (isRelative_joinWith fun name hm => h name (List.dropLast_subset _ hm)).2

/-- The ways to the files below a place are made of names. -/
theorem isName_of_mem_filesBelow (hn : t.HasNames) {way : Place} (h : way ∈ t.filesBelow place) :
    ∀ name ∈ way, IsName name := by
  obtain ⟨content, he⟩ := mem_filesBelow h
  exact fun name hm => hn _ he name (List.mem_append_right _ hm)

/-- The inputs at a path are those that are found there. -/
theorem map_input_ofPath (ht : t.IsSound) (hn : t.HasNames) (s : RunSettings) (path : Text) :
    (ofPath t s path).map input = InputFile.ofPath t s path := by
  rw [ofPath, InputFile.ofPath]
  cases hp : t.placeOf path with
  | error fault => rfl
  | ok place =>
    simp only [apply_ite (List.map input), List.map_map]
    refine ite_congr rfl (fun _ => List.map_congr_left fun way hway => ?_) fun _ => rfl
    have hm := (List.mem_filter.1 hway).1
    exact input_below (isName_of_mem_filesBelow hn hm) (ht.mem_filesBelow_iff.1 hm).1 path

/-- What is found at some paths, in their order. -/
def collect (t : FileTree) (s : RunSettings) (paths : List Text) : List Find :=
  paths.flatMap (ofPath t s)

/-- The inputs of a run are those that are found. -/
theorem map_input_collect (ht : t.IsSound) (hn : t.HasNames) (s : RunSettings)
    (paths : List Text) : (collect t s paths).map input = InputFile.collect t s paths := by
  rw [collect, List.map_flatMap]
  exact List.flatMap_congr fun path _ => map_input_ofPath ht hn s path

/-- A search can be made, and it finds what is collected. -/
theorem finds_collect (ht : t.IsSound) (h : RunSettings.resolve o c asked = .ok s)
    (paths : List Text) : Finds t c.fileExtensions (c.ignore ++ o.ignore ++ defaultIgnores) paths
      (collect t s paths) := by
  induction paths with
  | nil => exact .nil
  | cons path paths ih =>
    rw [collect, List.flatMap_cons, ← collect]
    rcases noDirectory_or t path with hno | ⟨place, hp, hd⟩
    · rw [ofPath_given hno]
      exact .given hno ih
    · rw [ofPath_below hp hd]
      exact .walked hp hd (arePages_filesBelow ht h place) ih

/-- What is found in a directory by names is an input with the components of that and the names. -/
theorem components_of_mem_collect (ht : t.IsSound) (hn : t.HasNames) {root : Text}
    {names : List Text} (h : below root names ∈ collect t s paths) :
    components (below root names).input.path = components root ++ names.map .name ∧
      components (below root names).input.relativeDir = names.dropLast.map .name := by
  obtain ⟨path, -, h⟩ := List.mem_flatMap.1 h
  rcases noDirectory_or t path with hno | ⟨place, hp, hd⟩
  · rw [ofPath_given hno, List.mem_singleton] at h
    contradiction
  · rw [ofPath_below hp hd] at h
    obtain ⟨way, hway, heq⟩ := List.mem_map.1 h
    cases heq
    have hm := (List.mem_filter.1 hway).1
    exact components_input_below (isName_of_mem_filesBelow hn hm) (ht.mem_filesBelow_iff.1 hm).1 _

end Find

/-- A search finds one list of inputs. -/
theorem Finds.unique {paths : List Text} {finds others : List Find}
    (h : Finds t extensions globs paths finds) (ho : Finds t extensions globs paths others)
    (ht : t.IsSound) : finds = others := by
  induction h generalizing others with
  | nil =>
    cases ho
    rfl
  | @given path paths finds noDirectory rest ih =>
    cases ho with
    | given _ rest' => rw [ih rest']
    | walked place_eq directory =>
      rw [isDirectory_eq_true_iff.2 ⟨_, place_eq, directory⟩] at noDirectory
      contradiction
  | @walked path place pages paths finds place_eq directory arePages rest ih =>
    cases ho with
    | given noDirectory =>
      rw [isDirectory_eq_true_iff.2 ⟨_, place_eq, directory⟩] at noDirectory
      contradiction
    | walked place_eq' _ arePages' rest' =>
      obtain rfl := Except.ok.inj (place_eq.symm.trans place_eq')
      rw [ih rest', arePages.unique arePages' ht]

/-! ## More patterns -/

/-- Settings with more patterns and the same extensions want what they do not match. -/
theorem isWanted_of_more {s' : RunSettings} {more : List Pattern}
    (he : s'.extensions = s.extensions) (hi : s'.ignore.Perm (more ++ s.ignore)) (way : Place) :
    InputFile.isWanted s' way = (InputFile.isWanted s way &&
      !(more.any fun p => matchesPath p (InputFile.relativePath way))) := by
  rw [InputFile.isWanted, InputFile.isWanted, he, hi.any_eq, List.any_append, Bool.not_or,
    Bool.and_assoc, Bool.and_comm]

/-- With more patterns what they match in directories is not found, and all else is. -/
theorem Find.collect_of_more {s' : RunSettings} {more : List Pattern}
    (he : s'.extensions = s.extensions) (hi : s'.ignore.Perm (more ++ s.ignore))
    (paths : List Text) : collect t s' paths =
      (collect t s paths).filter fun find => !more.any find.isMatchedBy := by
  rw [collect, collect, List.filter_flatMap]
  refine List.flatMap_congr fun path _ => ?_
  rcases noDirectory_or t path with hno | ⟨place, hp, hd⟩
  · rw [ofPath_given hno, ofPath_given hno]
    simp [isMatchedBy]
  · rw [ofPath_below hp hd, ofPath_below hp hd, List.filter_map, List.filter_filter]
    refine congrArg _ (List.filter_congr fun way _ => ?_)
    rw [isWanted_of_more he hi]
    exact Bool.and_comm _ _

/-- Settings can be resolved with more patterns that can be read, wherever these stand. -/
theorem exists_resolve_of_more {o' : Options} {c' : Configuration} {globs : List Text}
    {more : List Pattern} (h : RunSettings.resolve o c asked = .ok s)
    (hm : readPatterns globs = .ok more) (he : c'.fileExtensions = c.fileExtensions)
    (hi : (c'.ignore ++ o'.ignore).Perm (globs ++ (c.ignore ++ o.ignore))) (asked' : Option Text) :
    ∃ s', RunSettings.resolve o' c' asked' = .ok s' ∧ s'.extensions = s.extensions ∧
      s'.ignore.Perm (more ++ s.ignore) := by
  obtain ⟨hreadable, rfl⟩ := readPatterns_eq_ok_iff.1 hm
  have hall : ∀ glob ∈ c'.ignore ++ o'.ignore, ∃ p, Pattern.ofText glob = .ok p := by
    intro glob hg
    rcases List.mem_append.1 (hi.subset hg) with hg | hg
    · exact hreadable glob hg
    · exact exists_resolve_iff.1 ⟨s, h⟩ glob hg
  obtain ⟨s', hs'⟩ := exists_resolve_iff.2 hall
  refine ⟨s', hs', ?_, ?_⟩
  · rw [(of_resolve hs').1, (of_resolve h).1, he]
  · rw [(of_resolve hs').2, (of_resolve h).2, readablePatterns, readablePatterns, readablePatterns,
      ← List.filterMap_append, ← List.append_assoc]
    exact (hi.append_right defaultIgnores).filterMap _

/-! ## Collecting inputs -/

/-- Inputs are collected exactly and in order. A search through the paths, one after another, finds
one list: a path that is no directory, and in a directory each file that has one of the extensions
and is not ignored, once, in the order of a walk. The inputs are what is found, each with the
components of its directory and the names on the way from there. One more pattern leaves out what it
matches in directories and nothing else, wherever it is given, and the order of patterns does not
matter. -/
theorem inputs_are_collected_in_order (ht : t.IsSound) (hn : t.HasNames)
    (hs : RunSettings.resolve o c asked = .ok s) (paths : List Text) :
    ∃ finds, Finds t c.fileExtensions (c.ignore ++ o.ignore ++ defaultIgnores) paths finds ∧
      (∀ others, Finds t c.fileExtensions (c.ignore ++ o.ignore ++ defaultIgnores) paths others →
        others = finds) ∧
      InputFile.collect t s paths = finds.map Find.input ∧
      (∀ root names, .below root names ∈ finds →
        components (Find.below root names).input.path = components root ++ names.map .name ∧
          components (Find.below root names).input.relativeDir = names.dropLast.map .name) ∧
      (∀ glob p o' c' asked', Pattern.ofText glob = .ok p → c'.fileExtensions = c.fileExtensions →
        (c'.ignore ++ o'.ignore).Perm (glob :: (c.ignore ++ o.ignore)) →
        ∃ s', RunSettings.resolve o' c' asked' = .ok s' ∧ InputFile.collect t s' paths =
          (finds.filter fun find => !find.isMatchedBy p).map Find.input) ∧
      ∀ o' c' asked', c'.fileExtensions = c.fileExtensions →
        (c'.ignore ++ o'.ignore).Perm (c.ignore ++ o.ignore) →
        ∃ s', RunSettings.resolve o' c' asked' = .ok s' ∧
          InputFile.collect t s' paths = InputFile.collect t s paths := by
  have hfinds := Find.finds_collect ht hs paths
  refine ⟨Find.collect t s paths, hfinds, fun others ho => ho.unique hfinds ht,
    (Find.map_input_collect ht hn s paths).symm,
    fun root names h => Find.components_of_mem_collect ht hn h, ?_, ?_⟩
  · intro glob p o' c' asked' hp he hi
    have hread : readPatterns [glob] = .ok [p] := by
      rw [readPatterns, hp]
      rfl
    obtain ⟨s', hs', hext, hperm⟩ := exists_resolve_of_more hs hread he hi asked'
    refine ⟨s', hs', ?_⟩
    rw [← Find.map_input_collect ht hn s' paths, Find.collect_of_more hext hperm]
    simp only [List.any_cons, List.any_nil, Bool.or_false]
  · intro o' c' asked' he hi
    have hread : readPatterns [] = .ok [] := rfl
    obtain ⟨s', hs', hext, hperm⟩ := exists_resolve_of_more hs hread he hi asked'
    refine ⟨s', hs', ?_⟩
    rw [← Find.map_input_collect ht hn s' paths, ← Find.map_input_collect ht hn s paths,
      Find.collect_of_more hext hperm]
    simp only [List.any_nil, Bool.not_false, List.filter_true]

/-- Pages in a directory and in two directories below it. -/
def docsTree : FileTree :=
  (((((FileTree.empty []).set ["docs"] .directory).set ["docs", "a.html"] (.file [])).set
    ["docs", "a"] .directory).set ["docs", "a", "x.HTML"] (.file [])).set ["docs", "dist"]
      .directory |>.set ["docs", "dist", "old.html"] (.file [])

/-- The pages below a directory come before a page whose name is behind that of the directory. One
more pattern takes the page away that it matches below the first path, and leaves it below the
second one. -/
theorem docs_are_collected_in_order :
    ∃ finds, Finds docsTree Configuration.defaultExtensions defaultIgnores
        ["docs/", "docs/a/.", "notes.md"] finds ∧
      finds.map Find.input = [⟨"docs/a/x.HTML", "a"⟩, ⟨"docs/a.html", []⟩,
        ⟨"docs/a/./x.HTML", []⟩, ⟨"notes.md", []⟩] ∧
      ∃ p, Pattern.ofText "a/*" = .ok p ∧
        (finds.filter fun find => !find.isMatchedBy p).map Find.input =
          [⟨"docs/a.html", []⟩, ⟨"docs/a/./x.HTML", []⟩, ⟨"notes.md", []⟩] := by
  have ht : docsTree.IsSound := ⟨by decide, by decide⟩
  have hs : RunSettings.resolve CommandLine.defaults .empty none = .ok ⟨.composition, none,
      Configuration.defaultExtensions, readablePatterns defaultIgnores, none⟩ := rfl
  obtain ⟨finds, hfinds, -, hcollect, -, hmore, -⟩ :=
    inputs_are_collected_in_order ht (by decide) hs ["docs/", "docs/a/.", "notes.md"]
  obtain ⟨s', hs', hleft⟩ := hmore "a/*" _ { CommandLine.defaults with ignore := ["a/*"] } .empty
    none rfl rfl (List.Perm.refl _)
  refine ⟨finds, hfinds, ?_, _, rfl, ?_⟩
  · rw [← hcollect]
    decide
  · rw [← hleft]
    cases hs'
    decide

end VueSfc
