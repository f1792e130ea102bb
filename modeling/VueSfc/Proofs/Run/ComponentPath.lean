import VueSfc.Proofs.Component.Naming
import VueSfc.Proofs.Run.Targets

/-!
# Where components are written

A component is written beside its input, or below the directory for components where the input is
below the directory that was walked. Either way only the last component of the path is new, and it
is a single file name made from the name of the input.
-/

namespace VueSfc

open VueSfc.Path Component Offset

variable {input : InputFile}

/-- The component beside an input has all of its path but the file name. -/
theorem components_beside {name : Text} (h : fileName? input.path = some name) :
    components (input.componentPath none) =
      (components input.path).dropLast ++ [.name (componentFileName input.path)] :=
  components_withFileName h (isName_componentFileName input.path)

/-- The component below a directory has the path of that, the path of the directory that the input
was found in, and a file name. -/
theorem components_below (h : IsRelative input.relativeDir) (dir : Text) :
    components (input.componentPath (some dir)) = components dir ++
      components input.relativeDir ++ [.name (componentFileName input.path)] := by
  have hname := isName_componentFileName input.path
  rw [InputFile.componentPath, components_join hname.isRelative, components_join h,
    hname.components]

/-- Every input that is collected stands in a relative directory. -/
theorem isRelative_of_mem_collect {t : FileTree} (hn : t.HasNames) {s : RunSettings}
    {paths : List Text} (h : input ∈ InputFile.collect t s paths) :
    IsRelative input.relativeDir := by
  obtain ⟨names, hnames, hdir⟩ := hasNamedDir_of_mem_collect hn h
  rw [hdir]
  exact (isRelative_joinWith hnames).1

/-- A path whose last component is a name has a parent with the components in front of it. -/
theorem exists_parent_of_components {path name : Text} {front : List PathComponent}
    (h : components path = front ++ [.name name]) :
    ∃ parent, parent? path = some parent ∧ components parent = front := by
  have hname : fileName? path = some name := by
    rw [fileName?, h, List.getLast?_concat]
  obtain ⟨parent, hparent, hc⟩ := components_parent? hname
  rw [h, List.dropLast_concat] at hc
  exact ⟨parent, hparent, hc⟩

/-- Components are written where they are expected. Without a directory for components, the path for
an input with a file name has the parent of the input, component by component. With one, its
components are those of the directory, then those of the directory below the one that was walked,
which is relative for all inputs that are collected, and then one file name. Both times the file
name is the name of the component with its ending, and has no slash. If the stem of the input is of
ASCII, the name of the component begins with an upper case letter and goes on with letters, digits
and underscores, and a file of that name gives the same name. -/
theorem components_are_written_where_expected (input : InputFile) :
    (∀ name, fileName? input.path = some name →
      components (input.componentPath none) =
          (components input.path).dropLast ++ [.name (componentFileName input.path)] ∧
        ∃ beside parent, parent? (input.componentPath none) = some beside ∧
          parent? input.path = some parent ∧ components beside = components parent) ∧
    (∀ dir, IsRelative input.relativeDir → components (input.componentPath (some dir)) =
      components dir ++ components input.relativeDir ++ [.name (componentFileName input.path)]) ∧
    (∀ t s paths, t.HasNames → input ∈ InputFile.collect t s paths →
      IsRelative input.relativeDir) ∧
    (componentFileName input.path = nameOfPath input.path ++ ".vue" ∧
      '/' ∉ componentFileName input.path) ∧
    (IsAscii ((fileStem? input.path).getD []) → IsPascalName (nameOfPath input.path) ∧
      nameOfPath (nameOfPath input.path ++ ".html") = nameOfPath input.path) := by
  refine ⟨fun name hname => ?_, fun dir hdir => components_below hdir dir,
    fun t s paths hn hi => isRelative_of_mem_collect hn hi,
    ⟨rfl, (isName_componentFileName input.path).no_slash⟩, fun hascii => ?_⟩
  · have hbeside := components_beside hname
    obtain ⟨beside, hb, hcb⟩ := exists_parent_of_components hbeside
    obtain ⟨parent, hp, hcp⟩ := components_parent? hname
    exact ⟨hbeside, beside, parent, hb, hp, hcb.trans hcp.symm⟩
  · have hpascal := isPascalName_nameOfPath hascii
    exact ⟨hpascal, hpascal.nameOfPath_eq⟩

/-- The component of a page below a directory is written beside the page, or into a directory of the
same name, and the name of the component stands. -/
theorem pageComponent_is_written :
    components ((⟨"site//pages/my-page.html", "pages"⟩ : InputFile).componentPath none) =
        [.name "site", .name "pages", .name "MyPage.vue"] ∧
      components ((⟨"site//pages/my-page.html", "pages"⟩ : InputFile).componentPath
        (some "out/")) = [.name "out", .name "pages", .name "MyPage.vue"] ∧
      nameOfPath "MyPage.html" = "MyPage" := by
  obtain ⟨hbeside, hbelow, -, -, hname⟩ :=
    components_are_written_where_expected ⟨"site//pages/my-page.html", "pages"⟩
  exact ⟨(hbeside "my-page.html" rfl).1, hbelow "out/" (by decide), (hname (by decide)).2⟩

end VueSfc
