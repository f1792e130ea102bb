import VueSfc.Proofs.Run.Targets

/-!
# The claimants of a path

Paths are given away in the order of the files. Of the files that have something to write and whose
components have the same path, component by component, the first one gets that path and every later
one is told which input it was. The claims at any point record, for each path, the first claimant
among the files so far, and a file that has nothing to write or is in conflict changes none of them.
-/

namespace VueSfc

open VueSfc.Path

/-- The file was read, and converting it gave some text. -/
def ReadFile.HasOutput (file : ReadFile) : Prop := ∃ c, file.result = .ok c ∧ c.output ≠ []

/-- The components of two files have the same path, component by component. -/
def SharePath (outDir : Option Text) (a b : ReadFile) : Prop :=
  components (a.input.componentPath outDir) = components (b.input.componentPath outDir)

/-- What a file is due behind some earlier ones. -/
inductive IsDue (outDir : Option Text) (earlier : List ReadFile) (file : ReadFile) : Target → Prop
  /-- Nothing, if there is nothing to write. -/
  | nothing (h : ¬ file.HasOutput) : IsDue outDir earlier file .nothing
  /-- The path of its component, if no earlier file claims that path. -/
  | path (h : file.HasOutput)
      (free : ∀ other ∈ earlier, other.HasOutput → ¬ SharePath outDir other file) :
      IsDue outDir earlier file (.path (file.input.componentPath outDir))
  /-- A conflict over that path with the earliest file that claims it. -/
  | conflict {front back : List ReadFile} {first : ReadFile} (h : file.HasOutput)
      (split : earlier = front ++ first :: back) (claims : first.HasOutput)
      (shared : SharePath outDir first file)
      (free : ∀ other ∈ front, other.HasOutput → ¬ SharePath outDir other file) :
      IsDue outDir earlier file (.conflict (file.input.componentPath outDir) first.input.path)

/-- A plan that gives each of some files what it is due behind the files before it. -/
structure IsPlanFor (outDir : Option Text) (files : List ReadFile) (plan : List Planned) :
    Prop where
  /-- The plan has the files, in their order. -/
  files_eq : plan.map Prod.fst = files
  /-- Each file is given what it is due. -/
  due : ∀ earlier file target later, plan = earlier ++ (file, target) :: later →
    IsDue outDir (earlier.map Prod.fst) file target

variable {outDir : Option Text} {earlier files : List ReadFile} {file : ReadFile} {target : Target}
  {plan : List Planned}

/-! ## Claims -/

/-- A file has something to write just when there is a text to deliver for it. -/
theorem ReadFile.hasOutput_iff : file.HasOutput ↔ file.output?.isSome = true := by
  rw [HasOutput, output?]
  cases file.result with
  | error fault => simp
  | ok c => simp

/-- The first of some files that claims a path, which is given by its components. -/
def firstClaimant? (outDir : Option Text) (earlier : List ReadFile) (key : List PathComponent) :
    Option ReadFile :=
  earlier.find? fun other =>
    other.output?.isSome && components (other.input.componentPath outDir) == key

/-- The first claimant of the path of a file is the earliest file that claims it. -/
theorem firstClaimant?_eq_some_iff {first : ReadFile} :
    firstClaimant? outDir earlier (components (file.input.componentPath outDir)) = some first ↔
      first.HasOutput ∧ SharePath outDir first file ∧ ∃ front back,
        earlier = front ++ first :: back ∧
          ∀ other ∈ front, other.HasOutput → ¬ SharePath outDir other file := by
  simp only [firstClaimant?, List.find?_eq_some_iff_append, Bool.and_eq_true, beq_iff_eq,
    Bool.not_eq_true', Bool.and_eq_false_imp, beq_eq_false_iff_ne, ReadFile.hasOutput_iff,
    SharePath, and_assoc, Ne]

/-- There is no claimant of the path of a file just when no earlier file claims it. -/
theorem firstClaimant?_eq_none_iff :
    firstClaimant? outDir earlier (components (file.input.componentPath outDir)) = none ↔
      ∀ other ∈ earlier, other.HasOutput → ¬ SharePath outDir other file := by
  simp only [firstClaimant?, List.find?_eq_none, Bool.and_eq_true, beq_iff_eq, not_and,
    ReadFile.hasOutput_iff, SharePath]

/-- Claims that record, for each path, the first claimant among some files. -/
def RecordsFirst (outDir : Option Text) (earlier : List ReadFile) (claims : Claims) : Prop :=
  ∀ key, claims.lookup key = (firstClaimant? outDir earlier key).map fun first => first.input.path

/-- One more file is the first claimant of its own path, if it has something to write and there was
no claimant, and of no other. -/
theorem firstClaimant?_concat (key : List PathComponent) :
    firstClaimant? outDir (earlier ++ [file]) key =
      (firstClaimant? outDir earlier key).or
        (if file.output?.isSome = true ∧ components (file.input.componentPath outDir) = key
          then some file else none) := by
  rw [firstClaimant?, firstClaimant?, List.find?_append, List.find?_singleton]
  simp only [Bool.and_eq_true, beq_iff_eq]

/-- A file that claims nothing of its own leaves the claims as they are. -/
theorem RecordsFirst.concat {claims : Claims} (hc : RecordsFirst outDir earlier claims)
    (h : file.HasOutput → ∃ first, firstClaimant? outDir earlier
      (components (file.input.componentPath outDir)) = some first) :
    RecordsFirst outDir (earlier ++ [file]) claims := by
  intro key
  rw [hc key, firstClaimant?_concat]
  split
  · rename_i hf
    obtain ⟨first, hfirst⟩ := h (ReadFile.hasOutput_iff.2 hf.1)
    rw [← hf.2, hfirst]
    rfl
  · rw [Option.or_none]

/-- A file that has something to write and finds no claimant joins the claims. -/
theorem RecordsFirst.cons {claims : Claims} (hc : RecordsFirst outDir earlier claims)
    (ho : file.HasOutput)
    (h : firstClaimant? outDir earlier (components (file.input.componentPath outDir)) = none) :
    RecordsFirst outDir (earlier ++ [file])
      ((components (file.input.componentPath outDir), file.input.path) :: claims) := by
  intro key
  rw [List.lookup_cons, firstClaimant?_concat, hc key]
  by_cases he : key = components (file.input.componentPath outDir)
  · rw [he, h, beq_self_eq_true, if_pos ⟨ReadFile.hasOutput_iff.1 ho, rfl⟩]
    rfl
  · rw [beq_false_of_ne he, if_neg fun hf => he hf.2.symm, Option.or_none]

/-! ## Plans -/

/-- The first of some files is given what it is due, and the others theirs behind it. -/
theorem exists_isDue_of_cons {claims : Claims} (hc : RecordsFirst outDir earlier claims)
    (file : ReadFile) (rest : List ReadFile) :
    ∃ target claims', IsDue outDir earlier file target ∧
      RecordsFirst outDir (earlier ++ [file]) claims' ∧
      assignTargets outDir claims (file :: rest) =
        (file, target) :: assignTargets outDir claims' rest := by
  rw [assignTargets]
  cases ho : file.output? with
  | none =>
    have hnone : ¬ file.HasOutput := by
      rw [ReadFile.hasOutput_iff, ho]
      exact Bool.false_ne_true
    exact ⟨.nothing, claims, .nothing hnone, hc.concat fun h => absurd h hnone, rfl⟩
  | some output =>
    have hsome : file.HasOutput := by
      rw [ReadFile.hasOutput_iff, ho]
      rfl
    have hlookup := hc (components (file.input.componentPath outDir))
    dsimp only
    cases hf : firstClaimant? outDir earlier (components (file.input.componentPath outDir)) with
    | none =>
      rw [hf, Option.map_none] at hlookup
      rw [hlookup]
      exact ⟨_, _, .path hsome (firstClaimant?_eq_none_iff.1 hf), hc.cons hsome hf, rfl⟩
    | some first =>
      obtain ⟨hclaims, hshared, front, back, hsplit, hfree⟩ := firstClaimant?_eq_some_iff.1 hf
      rw [hf, Option.map_some] at hlookup
      rw [hlookup]
      exact ⟨_, claims, .conflict hsome hsplit hclaims hshared hfree,
        hc.concat fun _ => ⟨first, hf⟩, rfl⟩

/-- With the claims of some earlier files, each file is given what it is due behind those and the
files before it. -/
theorem isDue_of_assignTargets {claims : Claims} (hc : RecordsFirst outDir earlier claims)
    {front later : List Planned}
    (h : assignTargets outDir claims files = front ++ (file, target) :: later) :
    IsDue outDir (earlier ++ front.map Prod.fst) file target := by
  induction files generalizing earlier claims front with
  | nil => simp [assignTargets] at h
  | cons next files ih =>
    obtain ⟨due, claims', hdue, hclaims, he⟩ := exists_isDue_of_cons hc next files
    rw [he] at h
    cases front with
    | nil =>
      obtain ⟨hfirst, -⟩ := List.cons.inj h
      obtain ⟨rfl, rfl⟩ := Prod.mk.inj hfirst
      rwa [List.map_nil, List.append_nil]
    | cons x front =>
      obtain ⟨rfl, hrest⟩ := List.cons.inj h
      have hlast := ih hclaims hrest
      rwa [List.append_assoc] at hlast

/-- The plan of a run gives each file what it is due. -/
theorem isPlanFor_planTargets (outDir : Option Text) (files : List ReadFile) :
    IsPlanFor outDir files (planTargets outDir files) where
  files_eq := map_fst_assignTargets outDir [] files
  due earlier file target later h := by
    have hc : RecordsFirst outDir [] [] := fun key => rfl
    exact isDue_of_assignTargets hc h

/-- A file is due one thing only. -/
theorem IsDue.unique {other : Target} (h : IsDue outDir earlier file target)
    (ho : IsDue outDir earlier file other) : target = other := by
  cases h with
  | nothing hnone =>
    cases ho with
    | nothing => rfl
    | path hsome => exact absurd hsome hnone
    | conflict hsome => exact absurd hsome hnone
  | path hsome hfree =>
    cases ho with
    | nothing hnone => exact absurd hsome hnone
    | path => rfl
    | @conflict front back first _ hsplit hclaims hshared =>
      have hmem : first ∈ earlier := hsplit ▸ List.mem_append_right front List.mem_cons_self
      exact absurd hshared (hfree first hmem hclaims)
  | @conflict front back first hsome hsplit hclaims hshared hfree =>
    cases ho with
    | nothing hnone => exact absurd hsome hnone
    | path _ hnone =>
      have hmem : first ∈ earlier := hsplit ▸ List.mem_append_right front List.mem_cons_self
      exact absurd hshared (hnone first hmem hclaims)
    | conflict _ hsplit' hclaims' hshared' hfree' =>
      have hfirst := firstClaimant?_eq_some_iff.2 ⟨hclaims, hshared, _, _, hsplit, hfree⟩
      have hother := firstClaimant?_eq_some_iff.2 ⟨hclaims', hshared', _, _, hsplit', hfree'⟩
      rw [Option.some.inj (hfirst.symm.trans hother)]

namespace IsPlanFor

/-- A plan without its last file is a plan for the files before that one. -/
theorem of_concat (h : IsPlanFor outDir files (plan ++ [(file, target)])) :
    IsPlanFor outDir (plan.map Prod.fst) plan ∧ IsDue outDir (plan.map Prod.fst) file target where
  left := ⟨rfl, fun earlier other due later he =>
    h.due earlier other due (later ++ [(file, target)])
      (by rw [he, List.append_assoc, List.cons_append])⟩
  right := h.due plan file target [] rfl

/-- There is one plan for some files. -/
theorem unique {other : List Planned} (h : IsPlanFor outDir files plan)
    (ho : IsPlanFor outDir files other) : plan = other := by
  induction plan using List.reverseRecOn generalizing files other with
  | nil =>
    have hnil : other.map Prod.fst = [] := ho.files_eq.trans h.files_eq.symm
    exact (List.map_eq_nil_iff.1 hnil).symm
  | append_singleton plan x ih =>
    obtain ⟨file, target⟩ := x
    have hfiles := ho.files_eq.trans h.files_eq.symm
    rw [List.map_append, List.map_singleton] at hfiles
    obtain ⟨front, last, rfl, hfront, hlast⟩ := List.map_eq_append_iff.1 hfiles
    obtain ⟨⟨file', target'⟩, rfl, rfl⟩ := List.map_eq_singleton_iff.1 hlast
    obtain ⟨hplan, hdue⟩ := h.of_concat
    obtain ⟨hother, hdue'⟩ := ho.of_concat
    rw [hfront] at hother hdue'
    rw [ih hplan hother, hdue.unique hdue']

/-- No two files are given the same path. -/
theorem pairwise (h : IsPlanFor outDir files plan) : plan.Pairwise fun x y =>
    ∀ p q, x.2 = .path p → y.2 = .path q → components p ≠ components q := by
  induction plan using List.reverseRecOn generalizing files with
  | nil => exact .nil
  | append_singleton plan y ih =>
    obtain ⟨file, target⟩ := y
    obtain ⟨hplan, hdue⟩ := h.of_concat
    refine List.pairwise_append.2 ⟨ih hplan, List.pairwise_singleton _ _, ?_⟩
    intro x hx y hy p q hp hq
    obtain rfl := List.mem_singleton.1 hy
    obtain rfl : target = .path q := hq
    obtain ⟨front, back, rfl⟩ := List.append_of_mem hx
    have hfirst := hplan.due front x.1 x.2 back rfl
    rw [hp] at hfirst
    cases hfirst with
    | path hsome =>
      cases hdue with
      | path _ hfree => exact hfree x.1 (List.mem_map_of_mem hx) hsome

/-- A file with something to write is given its path, or is in conflict with one that is given the
same path. -/
theorem given_or_conflict (h : IsPlanFor outDir files plan) {x : Planned} (hx : x ∈ plan)
    (ho : x.1.HasOutput) :
    x.2 = .path (x.1.input.componentPath outDir) ∨
      ∃ y ∈ plan, ∃ given, y.2 = .path given ∧
        components given = components (x.1.input.componentPath outDir) ∧
        x.2 = .conflict (x.1.input.componentPath outDir) y.1.input.path := by
  obtain ⟨file, target⟩ := x
  obtain ⟨earlier, later, rfl⟩ := List.append_of_mem hx
  cases h.due earlier file target later rfl with
  | nothing hnone => exact absurd ho hnone
  | path => exact .inl rfl
  | @conflict front back first _ hsplit hclaims hshared hfree =>
    obtain ⟨before, behind, rfl, hbefore, hbehind⟩ := List.map_eq_append_iff.1 hsplit
    obtain ⟨⟨first, given⟩, behind, rfl, rfl, -⟩ := List.map_eq_cons_iff.1 hbehind
    refine .inr ⟨(first, given), by simp, first.input.componentPath outDir, ?_, hshared, rfl⟩
    have hfirst := h.due before first given _ (List.append_assoc before _ _)
    rw [hbefore] at hfirst
    -- A claimant before the first one would be in conflict with the file as well.
    refine hfirst.unique (.path hclaims fun other hm hsome hother => ?_)
    exact hfree other hm hsome (hother.trans hshared)

end IsPlanFor

/-- Every path goes to the first file that claims it. The targets of some files are given to them in
their order, and in the only way there is: a file that cannot be read or has no output is given
nothing and claims nothing, any other file is given the path of its component if that is, component
by component, the path of no earlier such file, and otherwise it is in conflict over its own path
with the input of the earliest such file. So no two paths that are given away have the same
components, and every file with some output is given its path or is in conflict with a file that is
given the same path. -/
theorem targets_go_to_first_claimants (outDir : Option Text) (files : List ReadFile) :
    IsPlanFor outDir files (planTargets outDir files) ∧
      (∀ plan, IsPlanFor outDir files plan → plan = planTargets outDir files) ∧
      ((planTargets outDir files).Pairwise fun x y =>
        ∀ p q, x.2 = .path p → y.2 = .path q → components p ≠ components q) ∧
      ∀ x ∈ planTargets outDir files, x.1.HasOutput →
        x.2 = .path (x.1.input.componentPath outDir) ∨
          ∃ y ∈ planTargets outDir files, ∃ given, y.2 = .path given ∧
            components given = components (x.1.input.componentPath outDir) ∧
            x.2 = .conflict (x.1.input.componentPath outDir) y.1.input.path := by
  have h := isPlanFor_planTargets outDir files
  exact ⟨h, fun plan hp => hp.unique h, h.pairwise, fun x hx ho => h.given_or_conflict hx ho⟩

end VueSfc
