import Mathlib.Data.List.TakeWhile
import VueSfc.Proofs.Path.Segments

/-!
# Names in paths

A path made of names is taken apart into these names, and its parent into all but the last one. In
any path that ends in a name, the name stands behind the last slash that something follows, and in
front of nothing but slashes and dots. Its stem is what stands before its last dot, unless that is
its first character.
-/

namespace VueSfc.Path

/-- A segment with a character other than a dot is a name. -/
theorem isName_of_mem {segment : Text} {c : Char} (hc : c ∈ segment) (hd : c ≠ '.')
    (hs : '/' ∉ segment) : IsName segment := by
  refine ⟨?_, ?_, hs⟩
  · rw [isIdle, Bool.or_eq_false_iff]
    constructor
    · rw [List.isEmpty_eq_false_iff]
      rintro rfl
      exact List.not_mem_nil hc
    · rw [beq_eq_false_iff_ne]
      rintro rfl
      exact hd (List.mem_singleton.1 hc)
  · rintro rfl
    simp [hd] at hc

/-! ## Paths made of names -/

/-- Names joined by slashes are split into these names. -/
theorem split_joinWith {names : List Text} (h : ∀ name ∈ names, IsName name) (hn : names ≠ []) :
    split (Text.joinWith ['/'] names) = (.relative, names) := by
  rw [split_of_isRelative (isRelative_joinWith h).1, Text.joinWith,
    List.splitOn_intercalate '/' (fun name hm => (h name hm).no_slash) hn]

/-- Names end in something that is said. -/
theorem trimIdle_of_names {names : List Text} (h : ∀ name ∈ names, IsName name) :
    trimIdle names = names := by
  rcases List.eq_nil_or_concat names with rfl | ⟨front, last, rfl⟩
  · rfl
  · rw [List.concat_eq_append] at h ⊢
    exact trimIdle_concat (h last (by simp)).not_idle front

/-- The parent of a path made of names is made of all but the last one. -/
theorem parent?_joinWith {names : List Text} (h : ∀ name ∈ names, IsName name) (hn : names ≠ []) :
    parent? (Text.joinWith ['/'] names) = some (Text.joinWith ['/'] names.dropLast) := by
  obtain ⟨front, last, rfl⟩ := (List.eq_nil_or_concat names).resolve_left hn
  rw [List.concat_eq_append] at h hn ⊢
  have hsplit := split_joinWith h hn
  have hfront : ∀ name ∈ front, IsName name := fun name hm => h name (by simp [hm])
  have htrim : trimIdle (split (Text.joinWith ['/'] (front ++ [last]))).2 = front ++ [last] := by
    rw [hsplit]
    exact trimIdle_of_names h
  rw [parent?_eq htrim, hsplit, trimIdle_of_names hfront, List.dropLast_concat]
  rfl

/-- A path that does not start at the root is put behind the same text, whatever it is. -/
theorem exists_join_eq (path : Text) :
    ∃ front, ∀ next : Text, next.head? ≠ some '/' → join path next = front ++ next := by
  by_cases hp : (path.isEmpty || path.getLast? = some '/') = true
  · refine ⟨path, fun next hn => ?_⟩
    rw [join, if_neg hn, if_pos hp]
  · refine ⟨path ++ ['/'], fun next hn => ?_⟩
    rw [join, if_neg hn, if_neg hp]

/-- A name and a path behind it are joined with a path one after the other. -/
theorem IsName.join_join {name : Text} (h : IsName name) {rest : Text}
    (hr : rest.head? ≠ some '/') (path : Text) :
    join (join path name) rest = join path (name ++ '/' :: rest) := by
  obtain ⟨c, later, rfl⟩ : ∃ c later, name = c :: later := by
    refine List.exists_cons_of_ne_nil ?_
    rintro rfl
    exact absurd h.not_idle (by decide)
  obtain ⟨front, hfront⟩ := exists_join_eq path
  have hlast : (front ++ c :: later).getLast? ≠ some '/' := by
    intro hl
    rw [List.getLast?_append_of_ne_nil front (List.cons_ne_nil c later)] at hl
    exact h.no_slash (List.mem_of_getLast? hl)
  rw [hfront _ h.isRelative.1, hfront _ (by simpa using h.isRelative.1), join, if_neg hr,
    if_neg (by simpa using hlast), List.append_assoc, List.append_assoc]
  rfl

/-- Joining a path with one name after another is joining it with the path made of them. -/
theorem foldl_join {names : List Text} (h : ∀ name ∈ names, IsName name) (hn : names ≠ [])
    (path : Text) : names.foldl join path = join path (Text.joinWith ['/'] names) := by
  induction names generalizing path with
  | nil => exact absurd rfl hn
  | cons name names ih =>
    obtain ⟨hname, hnames⟩ := List.forall_mem_cons.1 h
    by_cases he : names = []
    · rw [he, List.foldl_cons, List.foldl_nil, Text.joinWith, List.intercalate_singleton]
    · rw [List.foldl_cons, ih hnames he, hname.join_join (isRelative_joinWith hnames).1.1,
        Text.joinWith, Text.joinWith, List.intercalate_cons_of_ne_nil he, List.append_assoc]
      rfl

/-! ## Where a name stands -/

/-- What was split is put together again. -/
theorem build_split (path : Text) : build (split path).1 (split path).2 = path := by
  rcases split_cases path with ⟨body, rfl, hs⟩ | ⟨rfl, hs⟩ | ⟨body, rfl, hs⟩ | ⟨-, hs⟩
  · rw [hs, build, Text.joinWith, List.intercalate_splitOn]
    rfl
  · rw [hs]
    rfl
  · rw [hs, build, Text.joinWith, List.intercalate_cons_of_ne_nil (List.splitOn_ne_nil '/' body),
      List.intercalate_splitOn]
    rfl
  · rw [hs, build, Text.joinWith, List.intercalate_splitOn]
    rfl

/-- No segment of a path has a slash. -/
theorem slash_notMem_of_mem_split {path segment : Text} (h : segment ∈ (split path).2) :
    '/' ∉ segment := by
  rcases split_cases path with ⟨body, rfl, hs⟩ | ⟨rfl, hs⟩ | ⟨body, rfl, hs⟩ | ⟨-, hs⟩
  · rw [hs] at h
    exact slash_notMem_of_mem_splitOn h
  · rw [hs] at h
    exact absurd h List.not_mem_nil
  · rw [hs] at h
    rcases List.mem_cons.1 h with rfl | h
    · exact List.not_mem_nil
    · exact slash_notMem_of_mem_splitOn h
  · rw [hs] at h
    exact slash_notMem_of_mem_splitOn h

/-- What may stand in front of a name in a path: nothing, or something that ends with a slash. -/
def IsFront (front : Text) : Prop := front = [] ∨ ∃ dirs, front = dirs ++ ['/']

/-- What may stand behind the last name of a path: segments that say nothing, behind a slash
each. -/
def IsIdleEnd (trail : Text) : Prop :=
  ∃ idle : List Text, (∀ s ∈ idle, isIdle s = true) ∧ trail = idle.flatMap ('/' :: ·)

/-- A segment that says nothing has no slash. -/
theorem slash_notMem_of_isIdle {segment : Text} (h : isIdle segment = true) : '/' ∉ segment := by
  rw [isIdle, Bool.or_eq_true, List.isEmpty_iff, beq_iff_eq] at h
  rcases h with rfl | rfl <;> decide

/-- A name and an idle end are split at the slashes of that. -/
theorem IsName.splitOn_append {name : Text} (h : IsName name) {idle : List Text}
    (hi : ∀ s ∈ idle, isIdle s = true) :
    (name ++ idle.flatMap ('/' :: ·)).splitOn '/' = name :: idle := by
  have hslash : ∀ s ∈ name :: idle, '/' ∉ s := by
    intro s hs
    rcases List.mem_cons.1 hs with rfl | hs
    · exact h.no_slash
    · exact slash_notMem_of_isIdle (hi s hs)
  rw [← Text.intercalate_singleton_cons]
  exact List.splitOn_intercalate '/' hslash (List.cons_ne_nil name idle)

/-- A name that stands behind a front and before an idle end is the file name. -/
theorem fileName?_around {front name trail : Text} (hf : IsFront front) (hn : IsName name)
    (ht : IsIdleEnd trail) : fileName? (front ++ name ++ trail) = some name := by
  obtain ⟨idle, hi, rfl⟩ := ht
  have hlast : (name :: idle).filterMap componentOf? = [.name name] := by
    rw [List.filterMap_cons_some hn.componentOf?, List.filterMap_eq_nil_iff.2]
    intro s hs
    rw [componentOf?, if_pos (hi s hs)]
  have hsplit : ∃ anchor segments,
      split (front ++ name ++ idle.flatMap ('/' :: ·)) = (anchor, segments ++ name :: idle) := by
    rw [List.append_assoc]
    rcases hf with rfl | ⟨dirs, rfl⟩
    · have hrel := hn.isRelative_of_splitOn (hn.splitOn_append hi)
      refine ⟨.relative, [], ?_⟩
      rw [List.nil_append, split_of_isRelative hrel, hn.splitOn_append hi, List.nil_append]
    · obtain ⟨segments, -, hs⟩ := split_append_slash dirs
      refine ⟨if dirs = [] then .root else (split dirs).1, segments, ?_⟩
      rw [List.append_assoc, List.singleton_append, hs, hn.splitOn_append hi]
  obtain ⟨anchor, segments, hsplit⟩ := hsplit
  rw [fileName?, components, hsplit, List.filterMap_append, hlast, ← List.append_assoc,
    List.getLast?_concat]

/-- What trimming takes away are segments that say nothing. -/
theorem exists_trimIdle_append (segments : List Text) :
    ∃ idle, (∀ s ∈ idle, isIdle s = true) ∧ segments = trimIdle segments ++ idle := by
  refine ⟨(segments.reverse.takeWhile isIdle).reverse, ?_, ?_⟩
  · intro s hs
    exact List.mem_takeWhile_imp (List.mem_reverse.1 hs)
  · rw [trimIdle, ← List.reverse_append, List.takeWhile_append_dropWhile, List.reverse_reverse]

/-- The file name is the last segment that says something. -/
theorem split_of_fileName? {path name : Text} (h : fileName? path = some name) :
    ∃ front idle, (split path).2 = front ++ name :: idle ∧ IsName name ∧
      ∀ s ∈ idle, isIdle s = true := by
  obtain ⟨idle, hidle, hsplit⟩ := exists_trimIdle_append (split path).2
  have hall := filterMap_trimIdle (split path).2
  rw [fileName?, components, ← hall] at h
  by_cases he : trimIdle (split path).2 = []
  · rw [he, List.filterMap_nil, List.append_nil] at h
    cases ha : (split path).1 <;> simp [ha, Anchor.components] at h
  · obtain ⟨s, hs, hi⟩ := endsInName_trimIdle he
    obtain ⟨front, hf⟩ := List.getLast?_eq_some_iff.1 hs
    obtain ⟨c, hc⟩ := exists_componentOf? hi
    rw [hf, List.filterMap_append, List.filterMap_cons_some hc, List.filterMap_nil,
      ← List.append_assoc, List.getLast?_concat] at h
    rw [hf, List.append_assoc, List.singleton_append] at hsplit
    -- The component of the segment is a name, so it is the segment itself.
    rw [componentOf?, if_neg (by simp [hi])] at hc
    split at hc
    · rw [← Option.some.inj hc] at h
      contradiction
    · rename_i hup
      rw [← Option.some.inj hc] at h
      obtain rfl : s = name := Option.some.inj h
      have hmem : s ∈ (split path).2 := by
        rw [hsplit]
        exact List.mem_append_right front List.mem_cons_self
      exact ⟨front, idle, hsplit, ⟨hi, hup, slash_notMem_of_mem_split hmem⟩, hidle⟩

/-- The file name stands behind a front and before an idle end. -/
theorem exists_of_fileName? {path name : Text} (h : fileName? path = some name) :
    ∃ front trail, IsFront front ∧ IsName name ∧ IsIdleEnd trail ∧
      path = front ++ name ++ trail := by
  obtain ⟨segments, idle, hsplit, hname, hidle⟩ := split_of_fileName? h
  refine ⟨(split path).1.text ++ segments.flatMap (· ++ ['/']), idle.flatMap ('/' :: ·), ?_, hname,
    ⟨idle, hidle, rfl⟩, ?_⟩
  · rcases Text.eq_nil_or_flatMap_concat '/' segments with rfl | ⟨dirs, hdirs⟩
    · rw [List.flatMap_nil, List.append_nil]
      cases ha : (split path).1 with
      | root => exact .inr ⟨[], rfl⟩
      | relative => exact .inl rfl
      | here =>
        -- Behind a dot stands an empty segment, or none.
        rw [List.nil_append] at hsplit
        rcases split_cases path with ⟨body, -, hs⟩ | ⟨-, hs⟩ | ⟨body, -, hs⟩ | ⟨-, hs⟩
        · rw [hs] at ha
          contradiction
        · rw [hs] at hsplit
          contradiction
        · rw [hs, List.cons.injEq] at hsplit
          exact absurd hname.not_idle (by rw [← hsplit.1]; decide)
        · rw [hs] at ha
          contradiction
    · exact .inr ⟨(split path).1.text ++ dirs, by rw [hdirs, List.append_assoc]⟩
  · conv_lhs =>
      rw [← build_split path, hsplit, build, Text.joinWith, Text.intercalate_append_cons,
        Text.intercalate_singleton_cons]
    simp only [List.append_assoc]

/-! ## Stems -/

/-- A dot behind something, with no other dot behind it, ends the stem. -/
theorem stemOf_append {stem extension : Text} (hs : stem ≠ []) (he : '.' ∉ extension) :
    stemOf (stem ++ '.' :: extension) = stem := by
  have hdrop : (stem ++ '.' :: extension).reverse.dropWhile (· != '.') = '.' :: stem.reverse := by
    rw [List.reverse_append, List.reverse_cons, List.append_assoc, List.dropWhile_append_of_pos]
    · rfl
    · intro c hc
      rw [bne_iff_ne]
      rintro rfl
      exact he (List.mem_reverse.1 hc)
  rw [stemOf, hdrop, List.tail_cons, List.reverse_reverse]
  exact if_neg (by simpa using hs)

/-- A name with no dot behind its first character is its own stem. -/
theorem stemOf_eq_self {name : Text} (h : '.' ∉ name.tail) : stemOf name = name := by
  cases name with
  | nil => rfl
  | cons c rest =>
    have hrest : ∀ d ∈ rest.reverse, (d != '.') = true := by
      intro d hd
      rw [bne_iff_ne]
      rintro rfl
      exact h (List.mem_reverse.1 hd)
    have hdrop : ((c :: rest).reverse.dropWhile (· != '.')).tail = [] := by
      rw [List.reverse_cons, List.dropWhile_append_of_pos hrest, List.dropWhile_cons]
      split <;> rfl
    rw [stemOf, hdrop]
    rfl

/-- A name is its own stem, or a dot ends the stem. -/
theorem stemOf_cases (name : Text) : ('.' ∉ name.tail ∧ stemOf name = name) ∨
    ∃ stem extension, stem ≠ [] ∧ '.' ∉ extension ∧ name = stem ++ '.' :: extension ∧
      stemOf name = stem := by
  by_cases hd : '.' ∈ name.tail
  · obtain ⟨behind, before, hs, hb⟩ := List.eq_append_cons_of_mem (List.mem_reverse.2 hd)
    obtain ⟨c, rest, rfl⟩ : ∃ c rest, name = c :: rest := by
      refine List.exists_cons_of_ne_nil ?_
      rintro rfl
      exact absurd hd List.not_mem_nil
    have hrest := congrArg List.reverse hs
    rw [List.tail_cons, List.reverse_reverse, List.reverse_append, List.reverse_cons,
      List.append_assoc, List.singleton_append] at hrest
    have hb' : '.' ∉ behind.reverse := mt List.mem_reverse.1 hb
    refine .inr ⟨c :: before.reverse, behind.reverse, List.cons_ne_nil _ _, hb', ?_, ?_⟩
    · rw [hrest, List.cons_append]
    · rw [hrest, ← List.cons_append]
      exact stemOf_append (List.cons_ne_nil _ _) hb'
  · exact .inl ⟨hd, stemOf_eq_self hd⟩

/-- With another character than a dot in the place of one that is not the first, a stem ends where
it ended. -/
theorem stemOf_replace {before after ending : Text} {mark c : Char} (hb : before ≠ [])
    (hc : c ≠ '.') (h : stemOf (before ++ mark :: after ++ ending) = before ++ mark :: after) :
    stemOf (before ++ c :: after ++ ending) = before ++ c :: after := by
  rcases stemOf_cases (before ++ mark :: after ++ ending) with
    ⟨hno, hs⟩ | ⟨stem, extension, -, he, hs, hstem⟩
  · -- Without a dot behind the first character there is none after the change.
    have hnil : ending = [] := List.append_right_eq_self.1 (hs.symm.trans h)
    obtain ⟨first, rest, rfl⟩ := List.exists_cons_of_ne_nil hb
    rw [hnil, List.append_nil] at hno ⊢
    refine stemOf_eq_self ?_
    simp only [List.cons_append, List.tail_cons, List.mem_append, List.mem_cons, not_or] at hno ⊢
    exact ⟨hno.1, Ne.symm hc, hno.2.2⟩
  · rw [hstem] at h
    rw [h] at hs
    rw [List.append_cancel_left hs]
    exact stemOf_append (by simp) he

end VueSfc.Path
