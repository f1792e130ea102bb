import Mathlib.Data.List.DropRight
import Mathlib.Data.List.Infix
import VueSfc.Path
import VueSfc.Proofs.Text.Lines

/-!
# Segments of paths

Taking a path apart and putting it together again. A path built from an anchor and the first
segments of a path is taken apart into just these, the components of a joined path are those of
its two parts, and the parent of a path has all of its components but the last.
-/

namespace VueSfc.Path

/-! ## Taking apart -/

/-- No piece between slashes has a slash. -/
theorem slash_notMem_of_mem_splitOn {text segment : Text} (h : segment ∈ text.splitOn '/') :
    '/' ∉ segment := by
  rw [List.splitOn_eq_splitOnP] at h
  intro hc
  simpa using Text.not_test_of_mem_splitOnP h hc

/-- A path that does not show where it starts. -/
def IsRelative (path : Text) : Prop :=
  path.head? ≠ some '/' ∧ path ≠ ['.'] ∧ ¬ ['.', '/'] <+: path

instance (path : Text) : Decidable (IsRelative path) := inferInstanceAs (Decidable (_ ∧ _ ∧ ¬ _))

/-- A relative path is split at its slashes. -/
theorem split_of_isRelative {path : Text} (h : IsRelative path) :
    split path = (.relative, path.splitOn '/') := by
  obtain ⟨hr, hd, hh⟩ := h
  unfold split
  split
  · simp at hr
  · simp at hd
  · rename_i body
    exact absurd ⟨body, rfl⟩ hh
  · rfl

/-- The ways in which a path can be split. -/
theorem split_cases (path : Text) :
    (∃ body, path = '/' :: body ∧ split path = (.root, body.splitOn '/')) ∨
      (path = ['.'] ∧ split path = (.here, [])) ∨
      (∃ body, path = '.' :: '/' :: body ∧ split path = (.here, [] :: body.splitOn '/')) ∨
      (IsRelative path ∧ split path = (.relative, path.splitOn '/')) := by
  by_cases hr : path.head? = some '/'
  · obtain ⟨body, rfl⟩ := List.head?_eq_some_iff.1 hr
    exact Or.inl ⟨body, rfl, rfl⟩
  · by_cases hd : path = ['.']
    · subst hd
      exact Or.inr (Or.inl ⟨rfl, rfl⟩)
    · by_cases hh : ['.', '/'] <+: path
      · obtain ⟨body, rfl⟩ := hh
        exact Or.inr (Or.inr (Or.inl ⟨body, rfl, rfl⟩))
      · have hrel : IsRelative path := ⟨hr, hd, hh⟩
        exact Or.inr (Or.inr (Or.inr ⟨hrel, split_of_isRelative hrel⟩))

/-- The front of a relative path is relative, unless it is a single dot. -/
theorem IsRelative.of_prefix {path front : Text} (h : IsRelative path) (hf : front <+: path)
    (hd : front ≠ ['.']) : IsRelative front := by
  refine ⟨?_, hd, fun hh => h.2.2 (hh.trans hf)⟩
  intro hr
  obtain ⟨body, rfl⟩ := List.head?_eq_some_iff.1 hr
  obtain ⟨rest, rfl⟩ := hf
  exact h.1 rfl

/-! ## Putting together -/

private theorem joinWith_append {front : List Text} (hf : front ≠ []) (rest : List Text) :
    Text.joinWith ['/'] front <+: Text.joinWith ['/'] (front ++ rest) := by
  induction front with
  | nil => contradiction
  | cons s front ih =>
    cases front with
    | nil =>
      cases rest with
      | nil => exact List.prefix_rfl
      | cons r rest =>
        rw [Text.joinWith, Text.joinWith, List.singleton_append, List.intercalate_cons_cons,
          List.intercalate_singleton, List.append_assoc]
        exact List.prefix_append _ _
    | cons s' front =>
      have hn := ih (by simp)
      rw [Text.joinWith, Text.joinWith] at hn ⊢
      rw [List.intercalate_cons_cons, List.cons_append, List.cons_append,
        List.intercalate_cons_cons]
      exact (List.prefix_append_right_inj _).2 hn

private theorem splitOn_joinWith {front rest : List Text} {text : Text} (hf : front ≠ [])
    (h : text.splitOn '/' = front ++ rest) : (Text.joinWith ['/'] front).splitOn '/' = front := by
  apply List.splitOn_intercalate '/' _ hf
  intro segment hm
  have ht : segment ∈ text.splitOn '/' := by
    rw [h]
    exact List.mem_append_left _ hm
  exact slash_notMem_of_mem_splitOn ht

private theorem joinWith_front {front rest : List Text} {text : Text} (hf : front ≠ [])
    (h : text.splitOn '/' = front ++ rest) : Text.joinWith ['/'] front <+: text := by
  have ht : Text.joinWith ['/'] (front ++ rest) = text := by
    rw [← h]
    exact List.intercalate_splitOn '/'
  rw [← ht]
  exact joinWith_append hf rest

/-- Some segments, the last of which says something. -/
def EndsInName (segments : List Text) : Prop := ∃ s ∈ segments.getLast?, isIdle s = false

/-- Where the last segment says something, there are segments. -/
theorem EndsInName.ne_nil {segments : List Text} (h : EndsInName segments) : segments ≠ [] := by
  rintro rfl
  obtain ⟨s, hs, -⟩ := h
  simp at hs

/-- A path built from the first segments of a path is split into them. -/
theorem split_build {path : Text} {anchor : Anchor} {front rest : List Text}
    (h : split path = (anchor, front ++ rest)) (hf : EndsInName front) :
    split (build anchor front) = (anchor, front) := by
  have hne := hf.ne_nil
  rcases split_cases path with ⟨body, rfl, hs⟩ | ⟨rfl, hs⟩ | ⟨body, rfl, hs⟩ | ⟨hr, hs⟩
  · rw [h, Prod.mk.injEq] at hs
    obtain ⟨rfl, hs⟩ := hs
    change (Anchor.root, (Text.joinWith ['/'] front).splitOn '/') = _
    rw [splitOn_joinWith hne hs.symm]
  · rw [h, Prod.mk.injEq] at hs
    exact absurd (List.append_eq_nil_iff.1 hs.2).1 hne
  · rw [h, Prod.mk.injEq] at hs
    obtain ⟨rfl, hs⟩ := hs
    obtain ⟨s, front, rfl⟩ := List.exists_cons_of_ne_nil hne
    rw [List.cons_append, List.cons.injEq] at hs
    obtain ⟨rfl, hs⟩ := hs
    cases front with
    | nil =>
      obtain ⟨s, hm, hi⟩ := hf
      simp only [List.getLast?_singleton, Option.mem_def, Option.some.injEq] at hm
      rw [← hm] at hi
      simp [isIdle] at hi
    | cons s front =>
      change (Anchor.here, [] :: (Text.joinWith ['/'] (s :: front)).splitOn '/') = _
      rw [splitOn_joinWith (by simp) hs.symm]
  · rw [h, Prod.mk.injEq] at hs
    obtain ⟨rfl, hs⟩ := hs
    have hsplit := splitOn_joinWith hne hs.symm
    have hrel : IsRelative (Text.joinWith ['/'] front) := by
      apply hr.of_prefix (joinWith_front hne hs.symm)
      intro hd
      rw [hd] at hsplit
      obtain ⟨s, hm, hi⟩ := hf
      rw [← hsplit, List.splitOn_eq_singleton (by decide), List.getLast?_singleton,
        Option.mem_some_iff] at hm
      rw [← hm] at hi
      simp [isIdle] at hi
    rw [build, Anchor.text, List.nil_append, split_of_isRelative hrel, hsplit]

/-! ## Trimming -/

/-- Segments that say something at their end are not trimmed. -/
theorem trimIdle_concat {s : Text} (hs : isIdle s = false) (segments : List Text) :
    trimIdle (segments ++ [s]) = segments ++ [s] :=
  List.rdropWhile_concat_neg _ _ _ (by simp [hs])

/-- Trimming takes away only segments that say nothing. -/
theorem filterMap_trimIdle (segments : List Text) :
    (trimIdle segments).filterMap componentOf? = segments.filterMap componentOf? := by
  induction segments using List.reverseRecOn with
  | nil => rfl
  | append_singleton segments s ih =>
    by_cases hs : isIdle s = true
    · have ht : trimIdle (segments ++ [s]) = trimIdle segments :=
        List.rdropWhile_concat_pos _ _ _ hs
      rw [ht, ih, List.filterMap_append]
      simp [componentOf?, hs]
    · rw [trimIdle_concat (by simpa using hs)]

/-- What is left after trimming is a front of the segments. -/
theorem trimIdle_prefix (segments : List Text) : trimIdle segments <+: segments :=
  List.rdropWhile_prefix _ _

/-- What is left after trimming, if anything, ends with a segment that says something. -/
theorem endsInName_trimIdle {segments : List Text} (h : trimIdle segments ≠ []) :
    EndsInName (trimIdle segments) := by
  have hl := List.rdropWhile_last_not isIdle segments h
  rw [Bool.not_eq_true] at hl
  exact ⟨_, List.getLast?_eq_some_getLast h, hl⟩

/-! ## Joining -/

/-- How a path with a slash in it is split, in terms of what stands before the slash. -/
theorem split_append_slash (front : Text) :
    ∃ segments, segments.filterMap componentOf? = (split front).2.filterMap componentOf? ∧
      ∀ next, split (front ++ '/' :: next) =
        (if front = [] then .root else (split front).1, segments ++ next.splitOn '/') := by
  rcases split_cases front with ⟨body, rfl, hs⟩ | ⟨rfl, hs⟩ | ⟨body, rfl, hs⟩ | ⟨hr, hs⟩
  · refine ⟨body.splitOn '/', by rw [hs], ?_⟩
    intro next
    rw [ite_cond_eq_false _ _ (by simp), hs, ← List.splitOn_append_cons_self]
    rfl
  · exact ⟨[[]], by rw [hs]; rfl, fun next => rfl⟩
  · refine ⟨[] :: body.splitOn '/', by rw [hs], ?_⟩
    intro next
    have hb : ([] : Text) :: body.splitOn '/' ++ next.splitOn '/' =
        [] :: (body ++ '/' :: next).splitOn '/' := by
      rw [List.splitOn_append_cons_self, List.cons_append]
    rw [ite_cond_eq_false _ _ (by simp), hs, hb]
    rfl
  · by_cases he : front = []
    · subst he
      exact ⟨[], rfl, fun next => rfl⟩
    · refine ⟨front.splitOn '/', by rw [hs], ?_⟩
      intro next
      have hrel : IsRelative (front ++ '/' :: next) := by
        obtain ⟨c, front, rfl⟩ := List.exists_cons_of_ne_nil he
        refine ⟨hr.1, ?_, ?_⟩
        · intro hd
          simp at hd
        · intro hh
          rw [List.cons_append, List.cons_prefix_cons] at hh
          obtain ⟨rfl, hh⟩ := hh
          cases front with
          | nil => exact hr.2.1 rfl
          | cons d front =>
            rw [List.cons_append, List.cons_prefix_cons] at hh
            obtain ⟨rfl, -⟩ := hh
            exact hr.2.2 ⟨front, rfl⟩
      rw [ite_cond_eq_false _ _ (eq_false he), hs, split_of_isRelative hrel,
        List.splitOn_append_cons_self]

/-- How a joined path is split. -/
theorem split_join {next : Text} (hn : IsRelative next) (path : Text) :
    ∃ segments, segments.filterMap componentOf? = (split path).2.filterMap componentOf? ∧
      split (join path next) = ((split path).1, segments ++ next.splitOn '/') := by
  rw [join, ite_cond_eq_false _ _ (eq_false hn.1)]
  by_cases he : path = []
  · subst he
    exact ⟨[], rfl, split_of_isRelative hn⟩
  · by_cases hl : path.getLast? = some '/'
    · -- Nothing but the slash at the end parts the two.
      rw [ite_cond_eq_true _ _ (eq_true (by simp [hl]))]
      obtain ⟨front, rfl⟩ := List.getLast?_eq_some_iff.1 hl
      obtain ⟨segments, hs, hsplit⟩ := split_append_slash front
      have hp := hsplit []
      have hj := hsplit next
      rw [List.splitOn_nil] at hp
      refine ⟨segments, ?_, ?_⟩
      · rw [hp, List.filterMap_append]
        simp [componentOf?, isIdle]
      · rw [List.append_assoc, List.singleton_append, hj, hp]
    · rw [ite_cond_eq_false _ _ (eq_false (by simp [he, hl]))]
      obtain ⟨segments, hs, hsplit⟩ := split_append_slash path
      refine ⟨segments, hs, ?_⟩
      rw [List.append_assoc, List.singleton_append, hsplit, ite_cond_eq_false _ _ (eq_false he)]

/-- The components of a joined path. -/
theorem components_join {next : Text} (hn : IsRelative next) (path : Text) :
    components (join path next) = components path ++ components next := by
  obtain ⟨segments, hs, hj⟩ := split_join hn path
  rw [components, components, components, hj, split_of_isRelative hn, List.filterMap_append, hs,
    List.append_assoc]
  rfl

/-! ## Names -/

/-- A segment that is the name of a file or a directory. -/
structure IsName (segment : Text) : Prop where
  /-- It says something. -/
  not_idle : isIdle segment = false
  /-- It does not lead up. -/
  not_up : segment ≠ ['.', '.']
  /-- It is one segment. -/
  no_slash : '/' ∉ segment

instance (segment : Text) : Decidable (IsName segment) :=
  decidable_of_iff (isIdle segment = false ∧ segment ≠ ['.', '.'] ∧ '/' ∉ segment)
    ⟨fun h => ⟨h.1, h.2.1, h.2.2⟩, fun h => ⟨h.1, h.2, h.3⟩⟩

/-- A name is its own component. -/
theorem IsName.componentOf? {segment : Text} (h : IsName segment) :
    componentOf? segment = some (.name segment) := by
  simp [Path.componentOf?, h.not_idle, h.not_up]

/-- A name is one segment. -/
theorem IsName.splitOn {segment : Text} (h : IsName segment) : segment.splitOn '/' = [segment] :=
  List.splitOn_eq_singleton h.no_slash

/-- A name is a relative path. -/
theorem IsName.isRelative {segment : Text} (h : IsName segment) : IsRelative segment := by
  refine ⟨?_, ?_, ?_⟩
  · intro hr
    obtain ⟨body, rfl⟩ := List.head?_eq_some_iff.1 hr
    exact h.no_slash List.mem_cons_self
  · rintro rfl
    exact absurd h.not_idle (by decide)
  · rintro ⟨body, rfl⟩
    exact h.no_slash (by simp)

/-- A name has one component. -/
theorem IsName.components {segment : Text} (h : IsName segment) :
    components segment = [.name segment] := by
  rw [Path.components, split_of_isRelative h.isRelative, h.splitOn,
    List.filterMap_cons_some h.componentOf?]
  rfl

/-- A path whose first segment is a name is relative. -/
theorem IsName.isRelative_of_splitOn {path name : Text} {rest : List Text} (h : IsName name)
    (hs : path.splitOn '/' = name :: rest) : IsRelative path := by
  refine ⟨?_, ?_, ?_⟩
  · intro hr
    obtain ⟨body, rfl⟩ := List.head?_eq_some_iff.1 hr
    have hb := List.splitOn_append_cons_self ([] : Text) body (a := '/')
    rw [List.nil_append, hs, List.splitOn_nil, List.singleton_append, List.cons.injEq] at hb
    rw [hb.1] at h
    exact absurd h (by decide)
  · rintro rfl
    rw [List.splitOn_eq_singleton (by decide), List.cons.injEq] at hs
    rw [← hs.1] at h
    exact absurd h (by decide)
  · rintro ⟨body, rfl⟩
    have hb := List.splitOn_append_cons_self ['.'] body (a := '/')
    change (['.', '/'] ++ body).splitOn '/' = _ at hb
    rw [hs, List.splitOn_eq_singleton (by decide), List.singleton_append, List.cons.injEq] at hb
    rw [hb.1] at h
    exact absurd h (by decide)

/-- Names joined by slashes are a relative path with these segments. -/
theorem isRelative_joinWith {names : List Text} (h : ∀ name ∈ names, IsName name) :
    IsRelative (Text.joinWith ['/'] names) ∧
      components (Text.joinWith ['/'] names) = names.map PathComponent.name := by
  cases names with
  | nil => exact ⟨by decide, rfl⟩
  | cons name names =>
    have hsplit : (Text.joinWith ['/'] (name :: names)).splitOn '/' = name :: names :=
      List.splitOn_intercalate '/' (fun n hn => (h n hn).no_slash) (by simp)
    have hrel := (h name List.mem_cons_self).isRelative_of_splitOn hsplit
    refine ⟨hrel, ?_⟩
    rw [components, split_of_isRelative hrel, hsplit]
    rw [List.filterMap_congr fun n hn => (h n hn).componentOf?, List.filterMap_eq_map']
    rfl

/-! ## Parents -/

/-- The parent of a path leaves out the last segment that says something. -/
theorem parent?_eq {path : Text} {front : List Text} {s : Text}
    (h : trimIdle (split path).2 = front ++ [s]) :
    parent? path = some (build (split path).1 (trimIdle front)) := by
  rw [parent?]
  simp only [h]
  split
  · rename_i he _
    exact absurd he (by simp)
  · rename_i he _
    exact absurd he (by simp)
  · rw [List.dropLast_concat]

/-- The components of a path built from the first segments of a path. -/
theorem components_build {path : Text} {anchor : Anchor} {front rest : List Text}
    (h : split path = (anchor, front ++ rest)) :
    components (build anchor (trimIdle front)) =
      anchor.components ++ front.filterMap componentOf? := by
  rw [← filterMap_trimIdle front]
  by_cases he : trimIdle front = []
  · rw [he]
    cases anchor <;> rfl
  · obtain ⟨idle, hi⟩ := trimIdle_prefix front
    rw [← hi, List.append_assoc] at h
    rw [components, split_build h (endsInName_trimIdle he)]

/-- A segment that says something has a component. -/
theorem exists_componentOf? {s : Text} (hs : isIdle s = false) :
    ∃ c, componentOf? s = some c := by
  rw [componentOf?, ite_cond_eq_false _ _ (by simp [hs])]
  split
  · exact ⟨_, rfl⟩
  · exact ⟨_, rfl⟩

/-- Where a path ends in a name, its parent has all other components. -/
theorem components_parent? {path : Text} {name : Text} (h : fileName? path = some name) :
    ∃ parent, parent? path = some parent ∧ components parent = (components path).dropLast := by
  have hall := filterMap_trimIdle (split path).2
  by_cases he : trimIdle (split path).2 = []
  · -- Without segments the path ends in its anchor.
    rw [he, List.filterMap_nil] at hall
    rw [fileName?, components, ← hall, List.append_nil] at h
    cases ha : (split path).1 <;> simp [ha, Anchor.components] at h
  · obtain ⟨s, hs, hi⟩ := endsInName_trimIdle he
    obtain ⟨front, hf⟩ := List.getLast?_eq_some_iff.1 hs
    obtain ⟨idle, hidle⟩ := trimIdle_prefix (split path).2
    rw [hf, List.append_assoc] at hidle
    have hsplit : split path = ((split path).1, front ++ ([s] ++ idle)) := by
      rw [hidle]
    obtain ⟨c, hc⟩ := exists_componentOf? hi
    refine ⟨_, parent?_eq hf, ?_⟩
    rw [components_build hsplit, components, ← hall, hf, List.filterMap_append,
      List.filterMap_cons_some hc, List.filterMap_nil, ← List.append_assoc, List.dropLast_concat]

/-- The components of a path that was given another name. -/
theorem components_withFileName {path name other : Text} (h : fileName? path = some other)
    (hn : IsName name) :
    components (withFileName path name) = (components path).dropLast ++ [.name name] := by
  obtain ⟨parent, hp, hc⟩ := components_parent? h
  rw [withFileName, h]
  simp only [hp, Option.getD_some]
  rw [components_join hn.isRelative, hc, hn.components]

end VueSfc.Path
