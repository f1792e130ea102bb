import VueSfc.Proofs.FileTree.Entries

/-!
# Walking through a file tree

The components of a path lead from place to place. Following a path asks for a directory at every
place on the way to the last one, so it fails at the first place that is none, and otherwise ends
where the components lead.
-/

namespace VueSfc

open VueSfc.Path

namespace FileTree

/-- The place one component away. -/
def moveBy (place : Place) : PathComponent → Place
  | .root => []
  | .here => place
  | .up => place.dropLast
  | .name text => place ++ [text]

/-- The places that components lead to, one after another. -/
def placesAlong (place : Place) : List PathComponent → List Place
  | [] => []
  | c :: cs => moveBy place c :: placesAlong (moveBy place c) cs

/-- The last place that components lead to. -/
def endOf (place : Place) (cs : List PathComponent) : Place := cs.foldl moveBy place

/-- The places that a path leads to before the last one. -/
def way (t : FileTree) (path : Text) : List Place :=
  placesAlong t.workingDirectory (components path).dropLast

/-- The place that the components of a path lead to. -/
def destination (t : FileTree) (path : Text) : Place := endOf t.workingDirectory (components path)

/-- The place from which the segments of a path are followed. -/
def startOf (t : FileTree) : Anchor → Place
  | .root => []
  | .here => t.workingDirectory
  | .relative => t.workingDirectory

/-- The first place that is no directory, as a fault. -/
def blockage (t : FileTree) : List Place → Option FileFault
  | [] => none
  | p :: ps =>
    match t.entryAt? p with
    | none => some .notFound
    | some (.file _) => some .notDirectory
    | some .directory => t.blockage ps

/-! ## Places -/

/-- Components in two parts lead on from where the first part ends. -/
theorem placesAlong_append (place : Place) (cs ds : List PathComponent) :
    placesAlong place (cs ++ ds) = placesAlong place cs ++ placesAlong (endOf place cs) ds := by
  induction cs generalizing place with
  | nil => rfl
  | cons c cs ih => exact congrArg (moveBy place c :: ·) (ih (moveBy place c))

/-- Components in two parts end where the second part does. -/
theorem endOf_append (place : Place) (cs ds : List PathComponent) :
    endOf place (cs ++ ds) = endOf (endOf place cs) ds := List.foldl_append

/-- Components end where they start or at one of the places along them. -/
theorem endOf_mem (place : Place) (cs : List PathComponent) :
    endOf place cs ∈ place :: placesAlong place cs := by
  induction cs generalizing place with
  | nil => exact List.mem_cons_self
  | cons c cs ih => exact List.mem_cons_of_mem _ (ih (moveBy place c))

/-- Names lead to places below the start. -/
theorem prefix_of_mem_placesAlong {place p : Place} {names : List Text}
    (h : p ∈ placesAlong place (names.map .name)) : place <+: p := by
  induction names generalizing place with
  | nil => simp [placesAlong] at h
  | cons name names ih =>
    rcases List.mem_cons.1 h with rfl | h
    · exact List.prefix_append place [name]
    · exact (List.prefix_append place [name]).trans (ih h)

/-- Names lead ever further down. -/
theorem pairwise_prefix_placesAlong (place : Place) (names : List Text) :
    (placesAlong place (names.map .name)).Pairwise (· <+: ·) := by
  induction names generalizing place with
  | nil => exact List.Pairwise.nil
  | cons name names ih =>
    exact List.pairwise_cons.2 ⟨fun _ h => prefix_of_mem_placesAlong h, ih (place ++ [name])⟩

/-- A place is above another one, the same, or one name below. -/
def IsNextTo (p q : Place) : Prop := q <+: p ∨ q.dropLast = p

/-- Each of some places is above the one before it, the same, or one name below. -/
def IsWalk (place : Place) (places : List Place) : Prop := (place :: places).IsChain IsNextTo

/-- One component leads to a place next by. -/
theorem isNextTo_moveBy (place : Place) (c : PathComponent) : IsNextTo place (moveBy place c) := by
  cases c with
  | root => exact Or.inl List.nil_prefix
  | here => exact Or.inl List.prefix_rfl
  | up => exact Or.inl (List.dropLast_prefix place)
  | name text => exact Or.inr List.dropLast_concat

/-- Components lead from place to place next by. -/
theorem isWalk_placesAlong (place : Place) (cs : List PathComponent) :
    IsWalk place (placesAlong place cs) := by
  induction cs generalizing place with
  | nil => exact List.IsChain.singleton _
  | cons c cs ih => exact List.isChain_cons_cons.2 ⟨isNextTo_moveBy place c, ih _⟩

variable {t : FileTree}

/-- Next to a directory stands a directory, or else there is a name below it. -/
theorem IsSound.next (ht : t.IsSound) {p q : Place} (hn : IsNextTo p q)
    (hp : t.entryAt? p = some .directory) (hq : t.entryAt? q ≠ some .directory) :
    q ≠ [] ∧ t.entryAt? q.dropLast = some .directory := by
  rcases hn with hn | hn
  · by_cases he : q = p
    · rw [he] at hq
      contradiction
    · exact absurd (ht.entryAt?_prefix hp hn he) hq
  · constructor
    · rintro rfl
      exact hq t.entryAt?_nil
    · rw [hn]
      exact hp

/-- Nothing is in the way just when every place is a directory. -/
theorem blockage_eq_none_iff {places : List Place} :
    t.blockage places = none ↔ ∀ p ∈ places, t.entryAt? p = some .directory := by
  induction places with
  | nil => simp [blockage]
  | cons p ps ih =>
    rw [blockage]
    cases hp : t.entryAt? p with
    | none => simp [hp]
    | some entry =>
      cases entry with
      | directory => simp [hp, ih]
      | file content => simp [hp]

/-- What is no directory is either nothing or a file. -/
theorem blockage_cases (t : FileTree) (places : List Place) :
    t.blockage places = none ∨ t.blockage places = some .notFound ∨
      t.blockage places = some .notDirectory := by
  induction places with
  | nil => exact Or.inl rfl
  | cons p ps ih =>
    rw [blockage]
    split
    · exact Or.inr (Or.inl rfl)
    · exact Or.inr (Or.inr rfl)
    · exact ih

/-! ## Following segments -/

/-- A segment leads where its component does. -/
theorem stepFrom_eq (place : Place) (segment : Text) :
    stepFrom place segment = (componentOf? segment).elim place (moveBy place) := by
  rw [stepFrom, componentOf?]
  by_cases hi : isIdle segment = true
  · simp [hi]
  · by_cases hu : segment = ['.', '.']
    · subst hu
      rfl
    · simp [hi, hu]
      rfl

/-- Following segments from a directory and one segment more asks for directories on the way. -/
theorem follow_concat {place : Place} (hp : t.entryAt? place = some .directory)
    (segments : List Text) (segment : Text) :
    t.follow place (segments ++ [segment]) =
      match t.blockage (placesAlong place (segments.filterMap componentOf?)) with
      | some fault => .error fault
      | none => .ok (stepFrom (endOf place (segments.filterMap componentOf?)) segment) := by
  induction segments generalizing place with
  | nil =>
    rw [List.nil_append, follow, hp]
    rfl
  | cons s segments ih =>
    rw [List.cons_append, follow, hp]
    simp only
    rw [stepFrom_eq]
    cases hc : componentOf? s with
    | none =>
      rw [List.filterMap_cons_none hc]
      exact ih hp
    | some c =>
      rw [List.filterMap_cons_some hc, Option.elim_some, placesAlong, blockage]
      cases hm : t.entryAt? (moveBy place c) with
      | none =>
        cases segments with
        | nil => rw [List.nil_append, follow, hm]
        | cons s' segments => rw [List.cons_append, follow, hm]
      | some entry =>
        cases entry with
        | directory => exact ih hm
        | file content =>
          cases segments with
          | nil => rw [List.nil_append, follow, hm]
          | cons s' segments => rw [List.cons_append, follow, hm]

/-- Where segments can be followed, every place on the way to the last one is a directory. -/
theorem follow_eq_ok {place last : Place} {segments : List Text}
    (h : t.follow place segments = .ok last) :
    last = endOf place (segments.filterMap componentOf?) ∧
      ∀ p ∈ placesAlong place (segments.filterMap componentOf?).dropLast,
        t.entryAt? p = some .directory := by
  induction segments generalizing place with
  | nil =>
    rw [follow, Except.ok.injEq] at h
    exact ⟨h.symm, by simp [placesAlong]⟩
  | cons s segments ih =>
    rw [follow] at h
    split at h
    · simp at h
    · simp at h
    · rw [stepFrom_eq] at h
      cases hc : componentOf? s with
      | none =>
        rw [hc] at h
        rw [List.filterMap_cons_none hc]
        exact ih h
      | some c =>
        rw [hc, Option.elim_some] at h
        rw [List.filterMap_cons_some hc]
        obtain ⟨hl, hd⟩ := ih h
        refine ⟨hl, ?_⟩
        cases hcs : segments.filterMap componentOf? with
        | nil => simp [placesAlong]
        | cons c' cs =>
          rw [List.dropLast_cons_cons, placesAlong]
          rw [hcs] at hd
          intro p hm
          rcases List.mem_cons.1 hm with rfl | hm
          · cases segments with
            | nil => simp at hcs
            | cons s' segments =>
              rw [follow] at h
              split at h
              · simp at h
              · simp at h
              · assumption
          · exact hd p hm

/-! ## Following paths -/

/-- The components of a path lead from the start of its segments. -/
theorem destination_eq {path : Text} {anchor : Anchor} {segments : List Text}
    (h : split path = (anchor, segments)) :
    t.destination path = endOf (t.startOf anchor) (segments.filterMap componentOf?) := by
  rw [destination, components, h, endOf_append]
  cases anchor <;> rfl

/-- Where a path can be followed, it leads where its components do, through directories. -/
theorem placeOf_eq_ok (ht : t.IsSound) {path : Text} {place : Place}
    (h : t.placeOf path = .ok place) :
    place = t.destination path ∧ ∀ p ∈ t.way path, t.entryAt? p = some .directory := by
  rw [placeOf] at h
  split at h
  · simp at h
  · have hf : t.follow (t.startOf (split path).1) (split path).2 = .ok place := by
      cases hs : split path with
      | mk anchor segments =>
        rw [hs] at h
        cases anchor <;> exact h
    obtain ⟨hl, hd⟩ := follow_eq_ok hf
    have hs : split path = ((split path).1, (split path).2) := rfl
    refine ⟨hl.trans (destination_eq hs).symm, ?_⟩
    intro p hp
    rw [way, components] at hp
    by_cases hn : (split path).2.filterMap componentOf? = []
    · rw [hn, List.append_nil] at hp
      cases ha : (split path).1 <;> simp [ha, Anchor.components, placesAlong] at hp
    · rw [List.dropLast_append_of_ne_nil hn, placesAlong_append] at hp
      rcases List.mem_append.1 hp with hp | hp
      · cases ha : (split path).1 with
        | root =>
          simp only [ha, Anchor.components, placesAlong, List.mem_singleton] at hp
          rw [hp]
          exact t.entryAt?_nil
        | here =>
          simp only [ha, Anchor.components, placesAlong, List.mem_singleton] at hp
          rw [hp]
          exact ht.working
        | relative => simp [ha, Anchor.components, placesAlong] at hp
      · apply hd p
        cases ha : (split path).1 <;> rw [ha] at hp <;> exact hp

end FileTree

end VueSfc
