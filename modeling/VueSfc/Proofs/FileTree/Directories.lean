import Mathlib.Data.List.TakeWhile
import VueSfc.Proofs.FileTree.Walk
import VueSfc.Proofs.Path.Segments

/-!
# Making the directories of a path

Making a directory with the parents that it lacks is told by the places on the way to it. The
places up to the first file become directories where nothing stood. A file on the way is a fault,
and which one depends on where it stands and on whether a directory before it was missing.
-/

namespace VueSfc

open VueSfc.Path

namespace FileTree

/-- Make directories at some places, up to the first file. -/
def carve (t : FileTree) : List Place → FileTree × Option FileFault
  | [] => (t, none)
  | p :: ps =>
    match t.entryAt? p with
    | some .directory => t.carve ps
    | some (.file _) => (t, some .exists)
    | none => (t.set p .directory).carve ps

/-- Make directories at some places, up to the first file, where a file that is met before any
directory is missing is told apart from one that is met later. -/
def prepare (t : FileTree) : List Place → FileTree × Option FileFault
  | [] => (t, none)
  | p :: ps =>
    match t.entryAt? p with
    | some .directory => t.prepare ps
    | some (.file _) => (t, some (if ps = [] then .exists else .notDirectory))
    | none => t.carve (p :: ps)

/-- A file stands at the place. -/
def holdsFile (t : FileTree) (p : Place) : Bool :=
  match t.entryAt? p with
  | some (.file _) => true
  | _ => false

/-- The places before the first file. -/
def reach (t : FileTree) (ps : List Place) : List Place := ps.takeWhile fun p => !t.holdsFile p

/-- The places from the first file on. -/
def barred (t : FileTree) (ps : List Place) : List Place := ps.dropWhile fun p => !t.holdsFile p

variable {t : FileTree}

/-! ## What is made -/

private theorem holdsFile_eq_false {p : Place} (h : t.entryAt? p = none) :
    t.holdsFile p = false := by
  rw [holdsFile, h]

private theorem holdsFile_set {p : Place} (h : t.entryAt? p = none) (q : Place) :
    (t.set p .directory).holdsFile q = t.holdsFile q := by
  have hp : p ≠ [] := by
    rintro rfl
    simp [entryAt?_nil] at h
  rw [holdsFile, holdsFile, entryAt?_set t hp]
  by_cases hq : q = p
  · rw [ite_cond_eq_true _ _ (eq_true hq), hq, h]
  · rw [ite_cond_eq_false _ _ (eq_false hq)]

private theorem reach_set {p : Place} (h : t.entryAt? p = none) (ps : List Place) :
    (t.set p .directory).reach ps = t.reach ps := by
  rw [reach, reach, funext fun q => congrArg (!·) (holdsFile_set h q)]

private theorem barred_set {p : Place} (h : t.entryAt? p = none) (ps : List Place) :
    (t.set p .directory).barred ps = t.barred ps := by
  rw [barred, barred, funext fun q => congrArg (!·) (holdsFile_set h q)]

/-- A place that holds no file is reached, and what follows it is reached from there. -/
theorem reach_cons {p : Place} (h : t.holdsFile p = false) (ps : List Place) :
    t.reach (p :: ps) = p :: t.reach ps := List.takeWhile_cons_of_pos (by simp [h])

/-- A file is not reached. -/
theorem reach_cons_file {p : Place} (h : t.holdsFile p = true) (ps : List Place) :
    t.reach (p :: ps) = [] := List.takeWhile_cons_of_neg (by simp [h])

private theorem barred_cons {p : Place} (h : t.holdsFile p = false) (ps : List Place) :
    t.barred (p :: ps) = t.barred ps := List.dropWhile_cons_of_pos (by simp [h])

private theorem barred_cons_file {p : Place} (h : t.holdsFile p = true) (ps : List Place) :
    t.barred (p :: ps) = p :: ps := List.dropWhile_cons_of_neg (by simp [h])

/-- What stands at each place after directories were made at some. -/
theorem entryAt?_carve (t : FileTree) (ps : List Place) (q : Place) :
    (t.carve ps).1.entryAt? q =
      if t.entryAt? q = none ∧ q ∈ t.reach ps then some .directory else t.entryAt? q := by
  induction ps generalizing t with
  | nil => simp [carve, reach]
  | cons p ps ih =>
    rw [carve]
    cases hp : t.entryAt? p with
    | none =>
      have hne : p ≠ [] := by
        rintro rfl
        simp [entryAt?_nil] at hp
      simp only
      rw [ih, reach_set hp, entryAt?_set t hne, reach_cons (holdsFile_eq_false hp)]
      by_cases hq : q = p
      · subst hq
        simp [hp]
      · simp [hq]
    | some entry =>
      cases entry with
      | directory =>
        simp only
        rw [ih, reach_cons (by rw [holdsFile, hp])]
        by_cases hq : q = p
        · subst hq
          simp [hp]
        · simp [hq]
      | file content =>
        rw [reach_cons_file (by rw [holdsFile, hp])]
        simp

/-- What stands at each place after directories were made on a way. -/
theorem entryAt?_prepare (t : FileTree) (ps : List Place) (q : Place) :
    (t.prepare ps).1.entryAt? q =
      if t.entryAt? q = none ∧ q ∈ t.reach ps then some .directory else t.entryAt? q := by
  induction ps with
  | nil => simp [prepare, reach]
  | cons p ps ih =>
    rw [prepare]
    cases hp : t.entryAt? p with
    | none => exact entryAt?_carve t (p :: ps) q
    | some entry =>
      cases entry with
      | directory =>
        simp only
        rw [ih, reach_cons (by rw [holdsFile, hp])]
        by_cases hq : q = p
        · subst hq
          simp [hp]
        · simp [hq]
      | file content =>
        rw [reach_cons_file (by rw [holdsFile, hp])]
        simp

/-- Directories stay, and files do. -/
theorem entryAt?_prepare_of_eq_some {ps : List Place} {q : Place} {entry : Entry}
    (h : t.entryAt? q = some entry) : (t.prepare ps).1.entryAt? q = some entry := by
  rw [entryAt?_prepare, h]
  simp

/-! ## What goes wrong -/

/-- Making directories fails where there is a file. -/
theorem carve_fault (t : FileTree) (ps : List Place) :
    (t.carve ps).2 = if t.barred ps = [] then none else some .exists := by
  induction ps generalizing t with
  | nil => rfl
  | cons p ps ih =>
    rw [carve]
    cases hp : t.entryAt? p with
    | none =>
      simp only
      rw [ih, barred_set hp, barred_cons (holdsFile_eq_false hp)]
    | some entry =>
      cases entry with
      | directory =>
        simp only
        rw [ih, barred_cons (by rw [holdsFile, hp])]
      | file content =>
        rw [barred_cons_file (by rw [holdsFile, hp])]
        simp

/-- Making directories on a way fails where there is a file. The fault says so, unless the file
is neither the last place nor behind a missing directory. -/
theorem prepare_fault (t : FileTree) (ps : List Place) :
    (t.prepare ps).2 =
      if t.barred ps = [] then none
      else if (t.barred ps).length = 1 ∨ ∃ p ∈ t.reach ps, t.entryAt? p = none then some .exists
      else some .notDirectory := by
  induction ps with
  | nil => rfl
  | cons p ps ih =>
    rw [prepare]
    cases hp : t.entryAt? p with
    | none =>
      simp only
      rw [carve_fault, reach_cons (holdsFile_eq_false hp)]
      simp [hp]
    | some entry =>
      cases entry with
      | directory =>
        have hf : t.holdsFile p = false := by rw [holdsFile, hp]
        simp only
        rw [ih, barred_cons hf, reach_cons hf]
        simp [hp]
      | file content =>
        have hf : t.holdsFile p = true := by rw [holdsFile, hp]
        rw [barred_cons_file hf, reach_cons_file hf]
        simp only [List.cons_ne_nil, List.length_cons, List.not_mem_nil, false_and, exists_false,
          or_false, ite_false]
        by_cases hps : ps = []
        · subst hps
          rfl
        · have hl : ps.length ≠ 0 := fun h => hps (List.length_eq_zero_iff.1 h)
          simp [hps]

/-- A way is what is reached of it and what is barred. -/
theorem reach_append_barred (t : FileTree) (ps : List Place) : t.reach ps ++ t.barred ps = ps :=
  List.takeWhile_append_dropWhile

/-- No file is reached. -/
theorem holdsFile_of_mem_reach {ps : List Place} {p : Place} (h : p ∈ t.reach ps) :
    t.holdsFile p = false := by
  simpa using List.mem_takeWhile_imp h

/-- Nothing or a directory stands where a way reaches. -/
theorem entryAt?_of_mem_reach {ps : List Place} {p : Place} (h : p ∈ t.reach ps) :
    t.entryAt? p = none ∨ t.entryAt? p = some .directory := by
  have hfile := holdsFile_of_mem_reach h
  rw [holdsFile] at hfile
  split at hfile
  · contradiction
  · rename_i hno
    cases he : t.entryAt? p with
    | none => exact Or.inl rfl
    | some entry =>
      cases entry with
      | directory => exact Or.inr rfl
      | file content => exact absurd he (hno content)

/-- Something stands where a file does. -/
theorem entryAt?_ne_none {p : Place} (h : t.holdsFile p = true) : t.entryAt? p ≠ none := by
  intro he
  rw [holdsFile, he] at h
  contradiction

/-- What is barred begins with a file. -/
theorem holdsFile_of_barred {ps rest : List Place} {p : Place} (h : t.barred ps = p :: rest) :
    t.holdsFile p = true := by
  have hn := List.head?_dropWhile_not (fun p => !t.holdsFile p) ps
  rw [barred] at h
  rw [h] at hn
  simpa using hn

/-- A way is reached and barred alike in two trees where what is reached in the first holds no file
in the second and the first file is one in both. -/
theorem reach_eq_of_agree {u : FileTree} {ps : List Place}
    (hr : ∀ p ∈ t.reach ps, u.holdsFile p = false)
    (hf : ∀ p, t.holdsFile p = true → u.holdsFile p = true) :
    u.reach ps = t.reach ps ∧ u.barred ps = t.barred ps := by
  have hpos : ∀ p ∈ t.reach ps, (!u.holdsFile p) = true := fun p hp => by simp [hr p hp]
  have hs := t.reach_append_barred ps
  have hnil : u.reach (t.barred ps) = [] ∧ u.barred (t.barred ps) = t.barred ps := by
    cases hb : t.barred ps with
    | nil => exact ⟨rfl, rfl⟩
    | cons p rest =>
      have hu := hf p (holdsFile_of_barred hb)
      exact ⟨reach_cons_file hu rest, barred_cons_file hu rest⟩
  constructor
  · conv_lhs => rw [← hs]
    rw [reach, List.takeWhile_append_of_pos hpos]
    change t.reach ps ++ u.reach (t.barred ps) = _
    rw [hnil.1, List.append_nil]
  · conv_lhs => rw [← hs]
    rw [barred, List.dropWhile_append_of_pos hpos]
    exact hnil.2

/-- Where no file bars the way, all of it is reached. -/
theorem reach_eq_self {ps : List Place} (h : t.barred ps = []) : t.reach ps = ps := by
  have hs := t.reach_append_barred ps
  rwa [h, List.append_nil] at hs

/-- Nothing behind a file is reached. -/
theorem reach_append_of_barred {ps : List Place} (h : t.barred ps ≠ []) (qs : List Place) :
    t.reach (ps ++ qs) = t.reach ps := by
  obtain ⟨p, rest, hb⟩ := List.exists_cons_of_ne_nil h
  have hpos : ∀ p ∈ t.reach ps, (!t.holdsFile p) = true := fun p hp => by
    simp [holdsFile_of_mem_reach hp]
  conv_lhs => rw [← t.reach_append_barred ps, hb, List.append_assoc, List.cons_append]
  rw [reach, List.takeWhile_append_of_pos hpos]
  change t.reach ps ++ t.reach (p :: (rest ++ qs)) = _
  rw [reach_cons_file (holdsFile_of_barred hb), List.append_nil]

/-- Behind a way without files, a way is reached and barred as it is alone. -/
theorem reach_append {ps : List Place} (h : t.barred ps = []) (qs : List Place) :
    t.reach (ps ++ qs) = ps ++ t.reach qs ∧ t.barred (ps ++ qs) = t.barred qs := by
  have hpos : ∀ p ∈ ps, (!t.holdsFile p) = true := by
    intro p hp
    rw [← reach_eq_self h] at hp
    simp [holdsFile_of_mem_reach hp]
  exact ⟨List.takeWhile_append_of_pos hpos, List.dropWhile_append_of_pos hpos⟩

/-- Where nothing goes wrong, every place on the way is a directory then. -/
theorem entryAt?_of_prepare_eq {ps : List Place} {u : FileTree} (h : t.prepare ps = (u, none))
    {q : Place} (hq : q ∈ ps) : u.entryAt? q = some .directory := by
  have hb : t.barred ps = [] := by
    have hf := t.prepare_fault ps
    rw [h] at hf
    by_contra hb
    simp only [hb, ite_false] at hf
    split at hf <;> simp at hf
  have he := t.entryAt?_prepare ps q
  rw [← reach_eq_self hb] at hq
  rw [h] at he
  rw [he]
  rcases entryAt?_of_mem_reach hq with hn | hd
  · simp [hn, hq]
  · simp [hd]

/-! ## What is kept -/

private theorem workingDirectory_carve (t : FileTree) (ps : List Place) :
    (t.carve ps).1.workingDirectory = t.workingDirectory := by
  induction ps generalizing t with
  | nil => rfl
  | cons p ps ih =>
    rw [carve]
    split
    · exact ih t
    · rfl
    · exact ih (t.set p .directory)

/-- The working directory stays where it is. -/
theorem workingDirectory_prepare (t : FileTree) (ps : List Place) :
    (t.prepare ps).1.workingDirectory = t.workingDirectory := by
  induction ps with
  | nil => rfl
  | cons p ps ih =>
    rw [prepare]
    split
    · exact ih
    · rfl
    · exact workingDirectory_carve t (p :: ps)

private theorem IsSound.carve {place : Place} {ps : List Place} (ht : t.IsSound)
    (hp : t.entryAt? place = some .directory) (hw : IsWalk place ps) : (t.carve ps).1.IsSound := by
  induction ps generalizing t place with
  | nil => exact ht
  | cons p ps ih =>
    obtain ⟨hn, hw⟩ := List.isChain_cons_cons.1 hw
    rw [FileTree.carve]
    cases he : t.entryAt? p with
    | none =>
      obtain ⟨hne, hd⟩ := ht.next hn hp (by simp [he])
      have hs : (t.set p .directory).IsSound := ht.set hne hd (fun _ => rfl)
      have hp' : (t.set p .directory).entryAt? p = some .directory := by
        rw [entryAt?_set t hne]
        simp
      exact ih hs hp' hw
    | some entry =>
      cases entry with
      | directory => exact ih ht he hw
      | file content => exact ht

/-- Making the directories of a walk from a directory keeps a tree sound. -/
theorem IsSound.prepare {place : Place} {ps : List Place} (ht : t.IsSound)
    (hp : t.entryAt? place = some .directory) (hw : IsWalk place ps) :
    (t.prepare ps).1.IsSound := by
  induction ps generalizing place with
  | nil => exact ht
  | cons p ps ih =>
    rw [FileTree.prepare]
    cases he : t.entryAt? p with
    | none => exact ht.carve hp hw
    | some entry =>
      cases entry with
      | directory => exact ih he (List.isChain_cons_cons.1 hw).2
      | file content => exact ht

/-! ## One place more -/

/-- Continue on a tree unless something went wrong. -/
private def thenOn (r : FileTree × Option FileFault)
    (next : FileTree → FileTree × Option FileFault) : FileTree × Option FileFault :=
  match r with
  | (t, some fault) => (t, some fault)
  | (t, none) => next t

private theorem carve_append (t : FileTree) (ps qs : List Place) :
    t.carve (ps ++ qs) = thenOn (t.carve ps) fun u => u.carve qs := by
  induction ps generalizing t with
  | nil => rfl
  | cons p ps ih =>
    rw [List.cons_append, carve, carve]
    split
    · exact ih t
    · rfl
    · exact ih (t.set p .directory)

private theorem prepare_concat (t : FileTree) (ps : List Place) (q : Place) :
    t.prepare (ps ++ [q]) =
      match t.blockage ps with
      | none => t.carve [q]
      | some .notFound => thenOn (t.prepare ps) fun u => u.carve [q]
      | some fault => (t, some fault) := by
  induction ps with
  | nil =>
    change t.prepare [q] = t.carve [q]
    rw [prepare]
    cases hq : t.entryAt? q with
    | none => rfl
    | some entry => cases entry <;> simp [carve, prepare, hq]
  | cons p ps ih =>
    rw [List.cons_append, prepare, blockage, prepare]
    cases hp : t.entryAt? p with
    | none => exact carve_append t (p :: ps) [q]
    | some entry =>
      cases entry with
      | directory => exact ih
      | file content => simp

/-! ## The chain of parents -/

/-- Paths start at directories. -/
theorem IsSound.startOf (ht : t.IsSound) (anchor : Anchor) :
    t.entryAt? (t.startOf anchor) = some .directory := by
  cases anchor with
  | root => exact t.entryAt?_nil
  | here => exact ht.working
  | relative => exact ht.working

/-- A path that is not empty is followed from the start of its segments. -/
theorem placeOf_eq {path : Text} {anchor : Anchor} {segments : List Text}
    (h : split path = (anchor, segments)) (hne : path ≠ []) :
    t.placeOf path = t.follow (t.startOf anchor) segments := by
  rw [placeOf, ite_cond_eq_false _ _ (by simp [hne]), h]
  cases anchor <;> rfl

/-- A path that ends in a segment that says something is not empty. -/
theorem ne_nil_of_split {path : Text} {anchor : Anchor} {front : List Text} {s : Text}
    (h : split path = (anchor, front ++ [s])) (hs : isIdle s = false) : path ≠ [] := by
  rintro rfl
  have he := congrArg List.getLast? (congrArg Prod.snd h)
  rw [List.getLast?_concat] at he
  have hs' : s = [] := (Option.some.inj he).symm
  rw [hs'] at hs
  exact absurd hs (by decide)

/-- The place of a path that ends in a segment that says something. -/
theorem placeOf_concat (ht : t.IsSound) {path : Text} {anchor : Anchor} {front : List Text}
    {s : Text} {c : PathComponent} (h : split path = (anchor, front ++ [s]))
    (hs : isIdle s = false) (hc : componentOf? s = some c) :
    t.placeOf path =
      match t.blockage (placesAlong (t.startOf anchor) (front.filterMap componentOf?)) with
      | some fault => .error fault
      | none => .ok (moveBy (endOf (t.startOf anchor) (front.filterMap componentOf?)) c) := by
  rw [placeOf_eq h (ne_nil_of_split h hs), follow_concat (ht.startOf anchor), stepFrom_eq, hc]
  rfl

/-- The last attempt to make a directory. -/
private def makeLast (t : FileTree) (path : Text) : FileTree × Option FileFault :=
  match t.makeDirectory path with
  | .ok u => (u, none)
  | .error fault => (t, if t.isDirectory path then none else some fault)

private theorem isDirectory_eq {path : Text} {place : Place} (h : t.placeOf path = .ok place) :
    t.isDirectory path = decide (t.entryAt? place = some .directory) := by
  rw [isDirectory, entryOf, h]
  simp only
  cases t.entryAt? place with
  | none => rfl
  | some entry => cases entry <;> rfl

private theorem makeLast_eq {path : Text} {place : Place} (h : t.placeOf path = .ok place) :
    t.makeLast path = t.carve [place] := by
  rw [makeLast, isDirectory_eq h, makeDirectory, h]
  simp only [carve]
  cases hp : t.entryAt? place with
  | none => rfl
  | some entry => cases entry <;> simp

private theorem makeChain_of_placeOf {path : Text} {place : Place} (h : t.placeOf path = .ok place)
    (parents : List Text) : t.makeChain (path :: parents) = t.carve [place] := by
  rw [← makeLast_eq h, makeChain, makeLast, makeDirectory, h]
  simp only
  cases hp : t.entryAt? place with
  | none => rfl
  | some entry => rfl

private theorem makeChain_of_notFound {path : Text} (h : t.placeOf path = .error .notFound)
    (parents : List Text) :
    t.makeChain (path :: parents) = thenOn (t.makeChain parents) fun u => u.makeLast path := by
  rw [makeChain, makeDirectory, h]
  rfl

private theorem makeChain_of_notDirectory {path : Text}
    (h : t.placeOf path = .error .notDirectory) (parents : List Text) :
    t.makeChain (path :: parents) = (t, some .notDirectory) := by
  rw [makeChain, makeDirectory, isDirectory, entryOf, h]
  rfl

private theorem startOf_congr {u : FileTree} (h : u.workingDirectory = t.workingDirectory)
    (anchor : Anchor) : u.startOf anchor = t.startOf anchor := by
  cases anchor with
  | root => rfl
  | here => exact h
  | relative => exact h

private theorem IsSound.prepared {place : Place} {ps : List Place} {u : FileTree} (ht : t.IsSound)
    (hp : t.entryAt? place = some .directory) (hw : IsWalk place ps)
    (h : t.prepare ps = (u, none)) :
    u.IsSound ∧ u.workingDirectory = t.workingDirectory ∧ u.blockage ps = none := by
  have hsound := ht.prepare hp hw
  have hkept := t.workingDirectory_prepare ps
  rw [h] at hsound hkept
  exact ⟨hsound, hkept, blockage_eq_none_iff.2 fun q hq => entryAt?_of_prepare_eq h hq⟩

/-- The chain from a path built of the first segments of a path up through its parents prepares
the way to it. -/
private theorem makeChain_eq (ht : t.IsSound) {path : Text} {anchor : Anchor}
    {front rest : List Text} (h : split path = (anchor, front ++ rest)) {top : List Text}
    (htop : t.makeChain top = (t, none)) :
    t.makeChain ((tailsAtNames front.reverse).map (fun s => build anchor s.reverse) ++ top) =
      t.prepare (placesAlong (t.startOf anchor) (front.filterMap componentOf?)) := by
  induction front using List.reverseRecOn generalizing rest with
  | nil => exact htop
  | append_singleton front s ih =>
    rw [List.append_assoc] at h
    have hparents := ih h
    rw [List.reverse_append, List.reverse_singleton, List.singleton_append, tailsAtNames]
    by_cases hs : isIdle s = true
    · rw [ite_cond_eq_true _ _ (eq_true hs), hparents, List.filterMap_append]
      simp [componentOf?, hs]
    · rw [Bool.not_eq_true] at hs
      obtain ⟨c, hc⟩ := exists_componentOf? hs
      have hbuild : split (build anchor (front ++ [s])) = (anchor, front ++ [s]) := by
        rw [← List.append_assoc] at h
        exact split_build h ⟨s, by simp, hs⟩
      have hfront : (front ++ [s]).filterMap componentOf? =
          front.filterMap componentOf? ++ [c] := by
        rw [List.filterMap_append, List.filterMap_cons_some hc, List.filterMap_nil]
      rw [ite_cond_eq_false _ _ (by simp [hs]), List.map_cons, List.cons_append,
        List.reverse_cons, List.reverse_reverse, hfront, placesAlong_append, placesAlong,
        placesAlong, prepare_concat]
      have hplace := placeOf_concat ht hbuild hs hc
      rcases t.blockage_cases (placesAlong (t.startOf anchor) (front.filterMap componentOf?)) with
        hb | hb | hb
      · rw [hb] at hplace ⊢
        exact makeChain_of_placeOf hplace _
      · rw [hb] at hplace ⊢
        rw [makeChain_of_notFound hplace, hparents]
        simp only
        cases hp : t.prepare (placesAlong (t.startOf anchor) (front.filterMap componentOf?)) with
        | mk u fault =>
          cases fault with
          | some fault => rfl
          | none =>
            obtain ⟨hu, hw, hclear⟩ := ht.prepared (ht.startOf anchor)
              (isWalk_placesAlong _ (front.filterMap componentOf?)) hp
            have hlast := placeOf_concat hu hbuild hs hc
            rw [startOf_congr hw, hclear] at hlast
            exact makeLast_eq hlast
      · rw [hb] at hplace ⊢
        exact makeChain_of_notDirectory hplace _

/-- A directory at the start of a way needs nothing. -/
theorem prepare_cons {p : Place} (h : t.entryAt? p = some .directory) (ps : List Place) :
    t.prepare (p :: ps) = t.prepare ps := by
  rw [prepare, h]

private theorem makeChain_top (ht : t.IsSound) (anchor : Anchor) (ha : anchor ≠ .relative) :
    t.makeChain [anchor.text] = (t, none) := by
  have hplace : t.placeOf anchor.text = .ok (t.startOf anchor) := by
    cases anchor with
    | root => rfl
    | here => rfl
    | relative => contradiction
  rw [makeChain_of_placeOf hplace, carve, ht.startOf anchor]
  rfl

/-- Making the parent of a path that ends in a segment that says something prepares the way to the
path, unless the parent is empty, and then the way needs nothing. -/
theorem makeDirectories_build (ht : t.IsSound) {path : Text} {anchor : Anchor}
    {front : List Text} {s : Text} (h : split path = (anchor, front ++ [s])) :
    (if (build anchor (trimIdle front)).isEmpty then (t, none)
      else t.makeDirectories (build anchor (trimIdle front))) =
      t.prepare (placesAlong (t.startOf anchor) (front.filterMap componentOf?)) := by
  rw [← filterMap_trimIdle front]
  by_cases he : trimIdle front = []
  · rw [he]
    cases anchor with
    | root => exact makeChain_top ht .root (by simp)
    | here => exact makeChain_top ht .here (by simp)
    | relative => rfl
  · have hends := endsInName_trimIdle he
    obtain ⟨idle, hi⟩ := trimIdle_prefix front
    rw [← hi, List.append_assoc] at h
    have hsplit := split_build h hends
    have hne : build anchor (trimIdle front) ≠ [] := by
      obtain ⟨s, hs, hidle⟩ := hends
      obtain ⟨front', hf⟩ := List.getLast?_eq_some_iff.1 hs
      rw [hf] at hsplit ⊢
      exact ne_nil_of_split hsplit hidle
    rw [ite_cond_eq_false _ _ (by simp [hne]), makeDirectories, ancestors, hsplit]
    simp only
    by_cases ha : anchor = .relative
    · rw [ite_cond_eq_true _ _ (eq_true ha), ← List.append_nil (List.map _ _)]
      exact makeChain_eq ht h rfl
    · rw [ite_cond_eq_false _ _ (eq_false ha)]
      exact makeChain_eq ht h (makeChain_top ht anchor ha)

end FileTree

end VueSfc
