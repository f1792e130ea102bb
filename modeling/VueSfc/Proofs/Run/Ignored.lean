import VueSfc.Run.Input
import VueSfc.Proofs.Glob.Directories

/-!
# Ignored paths

A run ignores what the patterns of its configuration and of its arguments match, all of which have
to be readable, and what the patterns that always apply match. These are the patterns of three
directories, so without any others a path is ignored just when it leads through one of them.
-/

namespace VueSfc

open Glob Text

/-! ## Patterns that are read -/

/-- The bytes of a path are matched by one of some written patterns. -/
def IsIgnoredBy (globs : List Text) (path : Bytes) : Prop :=
  ∃ glob ∈ globs, ∃ p, Pattern.ofText glob = .ok p ∧ p.isMatch path = true

/-- The patterns that can be read are those that decide. -/
theorem isIgnoredBy_iff {globs : List Text} {path : Bytes} :
    IsIgnoredBy globs path ↔ ∃ p ∈ readablePatterns globs, p.isMatch path = true := by
  constructor
  · rintro ⟨glob, hg, p, hp, hm⟩
    exact ⟨p, List.mem_filterMap.2 ⟨glob, hg, by rw [hp]⟩, hm⟩
  · rintro ⟨p, hp, hm⟩
    obtain ⟨glob, hg, hread⟩ := List.mem_filterMap.1 hp
    refine ⟨glob, hg, p, ?_, hm⟩
    split at hread
    · rename_i hok
      rw [hok, Option.some.inj hread]
    · contradiction

/-- Some patterns and some more ignore what either of them do. -/
theorem isIgnoredBy_append {globs others : List Text} {path : Bytes} :
    IsIgnoredBy (globs ++ others) path ↔ IsIgnoredBy globs path ∨ IsIgnoredBy others path := by
  simp only [IsIgnoredBy, List.mem_append, or_and_right, exists_or]

/-- Patterns are read if each of them can be, and then none is left out. -/
theorem readPatterns_eq_ok_iff {globs : List Text} {patterns : List Pattern} :
    readPatterns globs = .ok patterns ↔
      (∀ glob ∈ globs, ∃ p, Pattern.ofText glob = .ok p) ∧ patterns = readablePatterns globs := by
  induction globs generalizing patterns with
  | nil => simp [readPatterns, readablePatterns, eq_comm]
  | cons glob globs ih =>
    rw [readPatterns, List.forall_mem_cons]
    cases hg : Pattern.ofText glob with
    | error fault => simp
    | ok p =>
      have hcons : readablePatterns (glob :: globs) = p :: readablePatterns globs := by
        rw [readablePatterns, List.filterMap_cons_some (by rw [hg]), ← readablePatterns]
      rw [hcons]
      cases hr : readPatterns globs with
      | error fault =>
        have hnot : ¬ ∀ glob ∈ globs, ∃ p, Pattern.ofText glob = .ok p := by
          intro h
          have hread := ih.2 ⟨h, rfl⟩
          rw [hr] at hread
          contradiction
        constructor
        · intro h
          contradiction
        · rintro ⟨⟨-, h⟩, -⟩
          exact absurd h hnot
      | ok others =>
        obtain ⟨hall, rfl⟩ := ih.1 hr
        simp only [Except.map, Except.ok.injEq, exists_eq', true_and]
        constructor
        · intro h
          exact ⟨hall, h.symm⟩
        · rintro ⟨-, rfl⟩
          rfl

/-! ## Settings -/

variable {o : Options} {c : Configuration} {asked : Option Text} {s : RunSettings}

/-- The settings of a run can be resolved if its patterns can be read. -/
theorem exists_resolve_iff : (∃ s, RunSettings.resolve o c asked = .ok s) ↔
    ∀ glob ∈ c.ignore ++ o.ignore, ∃ p, Pattern.ofText glob = .ok p := by
  rw [RunSettings.resolve]
  constructor
  · rintro ⟨s, hs⟩
    cases hr : readPatterns (c.ignore ++ o.ignore) with
    | error fault =>
      rw [hr] at hs
      contradiction
    | ok patterns => exact (readPatterns_eq_ok_iff.1 hr).1
  · intro h
    rw [readPatterns_eq_ok_iff.2 ⟨h, rfl⟩]
    exact ⟨_, rfl⟩

/-- Settings have the extensions that are configured, in lower case, and all patterns that were read
and that always apply. -/
theorem of_resolve (h : RunSettings.resolve o c asked = .ok s) :
    s.extensions = c.fileExtensions.map lowerAscii ∧
      s.ignore = readablePatterns (c.ignore ++ o.ignore ++ defaultIgnores) := by
  have hall := exists_resolve_iff.1 ⟨s, h⟩
  rw [RunSettings.resolve, readPatterns_eq_ok_iff.2 ⟨hall, rfl⟩] at h
  rw [← Except.ok.inj h]
  exact ⟨rfl, List.filterMap_append.symm⟩

/-- Settings ignore what is ignored by the patterns of the configuration and of the arguments, and
by those that always apply. -/
theorem ignores_iff (h : RunSettings.resolve o c asked = .ok s) {path : Text} :
    (s.ignore.any fun p => matchesPath p path) = true ↔
      IsIgnoredBy (c.ignore ++ o.ignore ++ defaultIgnores) (encodeText path) := by
  rw [(of_resolve h).2, List.any_eq_true, isIgnoredBy_iff]
  rfl

/-! ## Directories that are always ignored -/

/-- The names of the directories that are always ignored. -/
def vendorDirectories : List Text := ["node_modules", "dist", ".git"]

/-- The patterns that always apply are those of the directories. -/
theorem readablePatterns_defaultIgnores :
    readablePatterns defaultIgnores = vendorDirectories.map Pattern.directory := by
  rfl

/-- The patterns that always apply ignore the paths through one of the directories. -/
theorem isIgnoredBy_defaultIgnores_iff {parts : List Bytes} (hp : ∀ part ∈ parts, slash ∉ part) :
    IsIgnoredBy defaultIgnores ([slash].intercalate parts) ↔
      ∃ name ∈ vendorDirectories, encodeText name ∈ parts.dropLast := by
  have hplain : ∀ name ∈ vendorDirectories, '/' ∉ name := by decide
  rw [isIgnoredBy_iff, readablePatterns_defaultIgnores]
  simp only [List.mem_map, exists_exists_and_eq_and]
  exact exists_congr fun name => and_congr_right fun hn =>
    Pattern.isMatch_directory_iff (hplain name hn) hp

/-- The patterns that always apply skip exactly what lies below three directories. A path made of
parts is ignored by them just when one of the parts, and not the last one, is the name of such a
directory: not if only a file has the name, and not if a directory has a longer name. In a run a
file is ignored if it lies below such a directory or matches a pattern that was asked for, and not
otherwise. -/
theorem vendor_directories_are_skipped {parts : List Bytes} (hp : ∀ part ∈ parts, slash ∉ part) :
    (IsIgnoredBy defaultIgnores ([slash].intercalate parts) ↔
      ∃ name ∈ vendorDirectories, encodeText name ∈ parts.dropLast) ∧
    ∀ o c asked s names, RunSettings.resolve o c asked = .ok s → parts = names.map encodeText →
      ((s.ignore.any fun p => matchesPath p (InputFile.relativePath names)) = true ↔
        (∃ name ∈ vendorDirectories, name ∈ names.dropLast) ∨
          IsIgnoredBy (c.ignore ++ o.ignore) (encodeText (InputFile.relativePath names))) := by
  refine ⟨isIgnoredBy_defaultIgnores_iff hp, ?_⟩
  rintro o c asked s names hs rfl
  have hmem (name : Text) :
      encodeText name ∈ (names.map encodeText).dropLast ↔ name ∈ names.dropLast := by
    rw [← List.map_dropLast, List.mem_map_of_injective encodeText_injective]
  rw [ignores_iff hs, isIgnoredBy_append, or_comm, InputFile.relativePath, encodeText_joinWith,
    isIgnoredBy_defaultIgnores_iff hp]
  simp only [hmem]

/-- A file below a directory for packages is skipped, and a file that is merely named like one, in a
directory whose name only ends like one, is not. -/
theorem packagePath_is_skipped :
    IsIgnoredBy defaultIgnores (encodeText "src/node_modules/vue/index.html") ∧
      ¬ IsIgnoredBy defaultIgnores (encodeText "src/my.dist/dist") := by
  have hpackage := (@vendor_directories_are_skipped
    (["src", "node_modules", "vue", "index.html"].map fun name : String => encodeText name)
    (by decide)).1
  have hfile := (@vendor_directories_are_skipped
    (["src", "my.dist", "dist"].map fun name : String => encodeText name) (by decide)).1
  exact ⟨hpackage.2 (by decide), mt hfile.1 (by decide)⟩

end VueSfc
