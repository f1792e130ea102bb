import VueSfc.Markup.Tag
import VueSfc.Markup.Element
import VueSfc.Proofs.Text.Occurrence

/-!
# Reading elements and tags

What reading an element at the front of a text accepts, for names without angle brackets. The
opening tag is the name's opening word, some text without `>`, and a `>`. The content holds no
closing tag of the name, and the closing tag follows it. Conversely, wherever the opening word,
a later `>` and a closing tag behind that one stand in a text, an element is read.
-/

namespace VueSfc.Markup

open Text

namespace Element

/-- A name in which no tag can begin or end. -/
def IsPlainName (name : Text) : Prop := '<' ∉ name ∧ '>' ∉ name

instance (name : Text) : Decidable (IsPlainName name) := inferInstanceAs (Decidable (_ ∧ _))

/-- The three parts of an element are those of an element of the given name. -/
structure IsNamed (name : Text) (e : Element) : Prop where
  /-- The opening tag ends at its first `>`. -/
  openTag : ∃ word attributes, e.openTag = word ++ attributes ++ ['>'] ∧
    eqFold (opening name) word = true ∧ '>' ∉ attributes
  /-- The content ends at the first closing tag. -/
  content : ¬ OccursFold (closing name) e.content
  /-- The closing tag carries the name. -/
  closeTag : eqFold (closing name) e.closeTag = true

/-- An opening word is a tag word. -/
theorem isTagWord_opening {name : Text} (hn : IsPlainName name) : IsTagWord (opening name) :=
  ⟨rfl, hn.1⟩

/-- A closing tag is a tag word. -/
theorem isTagWord_closing {name : Text} (hn : IsPlainName name) : IsTagWord (closing name) := by
  refine ⟨rfl, ?_⟩
  intro h
  have hm : '<' ∈ '/' :: (name ++ ['>']) := h
  simp [hn.1] at hm

/-- No opening word has a `>`. -/
theorem not_mem_opening {name : Text} (hn : IsPlainName name) : '>' ∉ opening name := by
  simp [opening, hn.2]

/-- An element of the name is read back from the front of any text that begins with it. -/
theorem read?_append {name : Text} {e : Element} (hn : IsPlainName name) (he : e.IsNamed name)
    (rest : Text) : read? name (e.text ++ rest) = some (e, rest) := by
  obtain ⟨⟨word, attributes, ho, hw, ha⟩, hc, hl⟩ := he
  have hs : startsFold (opening name) (e.text ++ rest) = true := by
    rw [text, ho]
    simp only [List.append_assoc]
    exact startsFold_append_of_eqFold hw _
  have hcut : cutAfter? '>' (e.text ++ rest) =
      some (e.openTag, e.content ++ (e.closeTag ++ rest)) := by
    have hg : '>' ∉ word ++ attributes := by
      rw [List.mem_append, not_or]
      exact ⟨by rw [mem_iff_of_eqFold rfl hw]; exact not_mem_opening hn, ha⟩
    have hf := cutAfter?_append hg (e.content ++ (e.closeTag ++ rest))
    simpa only [text, ho, List.append_assoc, List.cons_append, List.nil_append] using hf
  have hinside : cutBefore? (startsFold (closing name)) (e.content ++ (e.closeTag ++ rest)) =
      some (e.content, e.closeTag ++ rest) := by
    apply cutBefore?_append (startsFold_append_of_eqFold hl rest)
    intro s hsuf hne
    by_contra hcon
    obtain ⟨front, hf⟩ := hsuf
    have hclose := isTagWord_closing hn
    -- The closing tag begins with `<`, so nothing that begins in the content reaches it.
    obtain ⟨tail, ht, -⟩ := hclose.exists_cons hl
    rw [ht, List.cons_append] at hcon
    have hin := hclose.startsFold_of_append hne (by simpa using hcon)
    exact hc (occursFold_iff.2 ⟨front, s, hf.symm, hin⟩)
  have hlen := length_eq_of_eqFold hl
  rw [read?, ite_cond_eq_true _ _ (eq_true hs), hcut]
  simp only [hinside, ← hlen, List.take_left, List.drop_left]

/-- What is read at the front of a text is an element of the name. -/
theorem isNamed_of_read? {name source rest : Text} {e : Element} (hn : IsPlainName name)
    (h : read? name source = some (e, rest)) : e.IsNamed name := by
  rw [read?] at h
  split at h
  · rename_i hs
    split at h
    · simp at h
    · rename_i tag inside ht
      split at h
      · simp at h
      · rename_i content tail hc
        simp only [Option.some.injEq, Prod.mk.injEq] at h
        obtain ⟨rfl, rfl⟩ := h
        refine ⟨?_, ?_, ?_⟩
        · obtain ⟨u, rfl, hu⟩ := eq_of_cutAfter? ht
          have hsource := append_of_cutAfter? ht
          rw [List.append_assoc] at hsource
          have hw : startsFold (opening name) u = true :=
            startsFold_of_startsFold_append_cons (not_mem_opening hn) rfl (hsource ▸ hs)
          obtain ⟨word, attributes, rfl, hm⟩ := startsFold_iff.1 hw
          exact ⟨word, attributes, rfl, hm, fun ha => hu (List.mem_append_right _ ha)⟩
        · intro ho
          obtain ⟨front, s, rfl, hm⟩ := occursFold_iff.1 ho
          have hne : s ≠ [] := by
            rintro rfl
            simp [startsFold, closing] at hm
          have hf := not_test_of_cutBefore? hc (List.suffix_append front s) hne
          rw [startsFold_append hm] at hf
          contradiction
        · obtain ⟨middle, back, rfl, hm⟩ := startsFold_iff.1 (test_of_cutBefore? hc)
          rw [← length_eq_of_eqFold hm, List.take_left]
          exact hm
  · simp at h

/-- Elements of a name are what is read at the front of a text. -/
theorem read?_eq_some_iff {name source rest : Text} {e : Element} (hn : IsPlainName name) :
    read? name source = some (e, rest) ↔ source = e.text ++ rest ∧ e.IsNamed name := by
  constructor
  · intro h
    exact ⟨text_append_of_read? h, isNamed_of_read? hn h⟩
  · rintro ⟨rfl, he⟩
    exact read?_append hn he rest

/-- An element is read wherever the opening word, a `>` and then a closing tag stand. -/
theorem read?_ne_none {name word middle close rest : Text}
    (hw : eqFold (opening name) word = true) (hm : '>' ∈ middle)
    (hl : eqFold (closing name) close = true) :
    read? name (word ++ middle ++ close ++ rest) ≠ none := by
  have hs : startsFold (opening name) (word ++ middle ++ close ++ rest) = true := by
    simp only [List.append_assoc]
    exact startsFold_append_of_eqFold hw _
  rw [read?, ite_cond_eq_true _ _ (eq_true hs)]
  cases hc : cutAfter? '>' (word ++ middle ++ close ++ rest) with
  | none =>
    have hn := cutAfter?_eq_none_iff.1 hc
    exact absurd (by simp [hm]) hn
  | some cut =>
    obtain ⟨tag, inside⟩ := cut
    obtain ⟨u, rfl, hu⟩ := eq_of_cutAfter? hc
    -- The first `>` stands before the closing tag, which therefore lies inside.
    have hin : close ++ rest <:+ inside := by
      have he := append_of_cutAfter? hc
      rw [List.append_assoc _ close, List.append_assoc u, List.append_eq_append_iff] at he
      rcases he with ⟨a, rfl, -⟩ | ⟨a, ha, hb⟩
      · simp [hm] at hu
      · cases a with
        | nil =>
          rw [List.append_nil] at ha
          rw [← ha] at hu
          simp [hm] at hu
        | cons d a => exact ⟨a, (List.cons.inj hb).2.symm⟩
    cases hb : cutBefore? (startsFold (closing name)) inside with
    | none =>
      have hn := cutBefore?_eq_none_iff.1 hb _ hin
      rw [startsFold_append_of_eqFold hl] at hn
      contradiction
    | some cut => simp [hb]

/-- An element is read just where the opening word stands and a closing tag stands behind the first
`>`. -/
theorem read?_ne_none_iff {name source : Text} : read? name source ≠ none ↔
    startsFold (opening name) source = true ∧
      ∃ tag inside, cutAfter? '>' source = some (tag, inside) ∧
        ∃ back, back <:+ inside ∧ startsFold (closing name) back = true := by
  rw [read?]
  constructor
  · intro h
    split at h
    · rename_i ho
      split at h
      · contradiction
      · rename_i tag inside ht
        split at h
        · contradiction
        · rename_i content back hc
          refine ⟨ho, tag, inside, ht, back, ?_, test_of_cutBefore? hc⟩
          rw [append_of_cutBefore? hc]
          exact List.suffix_append content back
    · contradiction
  · rintro ⟨ho, tag, inside, ht, back, hback, hclose⟩
    rw [if_pos ho, ht]
    cases hc : cutBefore? (startsFold (closing name)) inside with
    | none =>
      rw [cutBefore?_eq_none_iff.1 hc back hback] at hclose
      contradiction
    | some parts => simp [hc]

/-- Where the leftmost opening word begins no element, none begins behind it: a `>` and a closing
tag behind a later opening word are behind the first one too. -/
theorem read?_eq_none_of_suffix {name source s : Text}
    (ho : startsFold (opening name) source = true) (h : read? name source = none)
    (hs : s <:+ source) : read? name s = none := by
  by_contra hread
  obtain ⟨-, tag, inside, htag, back, hback, hclose⟩ := read?_ne_none_iff.1 hread
  cases hcut : cutAfter? '>' source with
  | none =>
    have hgt : '>' ∈ s := by
      by_contra hgt
      rw [cutAfter?_eq_none_iff.2 hgt] at htag
      contradiction
    exact cutAfter?_eq_none_iff.1 hcut (hs.subset hgt)
  | some parts =>
    have hinside : inside <:+ parts.2 := suffix_of_cutAfter? hcut hs htag
    exact read?_ne_none_iff.2 ⟨ho, parts.1, parts.2, hcut, back, hback.trans hinside, hclose⟩ h

/-- No element is read where its opening word does not stand. -/
theorem read?_eq_none {name source : Text} (h : startsFold (opening name) source = false) :
    read? name source = none := by
  rw [read?, h]
  rfl

/-- No element begins in a text without the opening word, whether the text ends there or goes on
with a `<`. -/
theorem read?_append_eq_none {name text s back : Text} (hn : IsPlainName name)
    (h : ¬ OccursFold (opening name) text) (hs : s <:+ text) (hne : s ≠ [])
    (hb : ∀ c ∈ back.head?, c = '<') : read? name (s ++ back) = none := by
  apply read?_eq_none
  rw [Bool.eq_false_iff]
  intro hstart
  obtain ⟨front, rfl⟩ := hs
  refine h (occursFold_iff.2 ⟨front, s, rfl, ?_⟩)
  cases back with
  | nil => rwa [List.append_nil] at hstart
  | cons c back =>
    obtain rfl := hb c rfl
    exact (isTagWord_opening hn).startsFold_of_append hne hstart

/-- The leftmost element begins at the leftmost opening word. -/
theorem find?_eq (name text : Text) :
    find? name text = (cutBefore? (startsFold (opening name)) text).bind fun parts =>
      (read? name parts.2).map fun found => (parts.1, found.1, found.2) := by
  cases hcut : cutBefore? (startsFold (opening name)) text with
  | none =>
    exact Cutter.find?_eq_none_iff.2 fun s hs =>
      read?_eq_none (cutBefore?_eq_none_iff.1 hcut s hs)
  | some parts =>
    obtain ⟨front, tail⟩ := parts
    have hbefore (s : Text) (hs : s <:+ front) (hne : s ≠ []) : read? name (s ++ tail) = none :=
      read?_eq_none (not_test_of_cutBefore? hcut hs hne)
    obtain rfl := append_of_cutBefore? hcut
    rw [Option.bind_some]
    dsimp only
    cases hr : read? name tail with
    | some found => exact Cutter.find?_eq_some_iff.2 ⟨tail, rfl, hr, hbefore⟩
    | none =>
      refine Cutter.find?_eq_none_iff.2 fun s hs => ?_
      rcases List.suffix_or_suffix_of_suffix hs (List.suffix_append front tail) with h | ⟨s, rfl⟩
      · exact read?_eq_none_of_suffix (test_of_cutBefore? hcut) hr h
      · by_cases hne : s = []
        · rw [hne]
          exact hr
        · exact hbefore s (List.suffix_append_self_iff.1 hs) hne

/-- What precedes the leftmost element is kept, and what follows it is taken apart on its own. -/
theorem excise_of_find? {name text front back : Text} {e : Element}
    (h : find? name text = some (front, e, back)) :
    excise name text = (front ++ (excise name back).1, e.content :: (excise name back).2) := by
  simp only [excise, Cutter.cut_of_find? h, List.map_cons]

/-- There are no more contents than characters. -/
theorem length_contents_le (name text : Text) : (excise name text).2.length ≤ text.length := by
  rw [excise, List.length_map]
  exact (cutter name).length_pieces_le text

/-- A text without an element of the name is kept. -/
theorem excise_of_find?_eq_none {name text : Text} (h : find? name text = none) :
    excise name text = (text, []) := by
  simp only [excise, Cutter.cut_of_find?_eq_none h, List.map_nil]

end Element

namespace Tag

/-- A slash is skipped where closing tags are meant and there is one. -/
theorem afterSlash_cases (rest : Text) :
    (∃ r, rest = '/' :: r ∧ afterSlash .openingOrClosing rest = r) ∨
      rest.head? ≠ some '/' ∧ afterSlash .openingOrClosing rest = rest := by
  unfold afterSlash
  split
  · exact .inl ⟨_, rfl, rfl⟩
  · rename_i hn
    refine .inr ⟨fun h => ?_, rfl⟩
    obtain ⟨r, rfl⟩ := List.head?_eq_some_iff.1 h
    exact hn r rfl rfl

/-- No opening tag is read where its opening word does not stand. -/
theorem read?_opening_eq_none {name source : Text}
    (h : startsFold (Element.opening name) source = false) : read? .opening name source = none := by
  cases source with
  | nil => rfl
  | cons c r =>
    by_cases hc : c = '<'
    · subst hc
      have hn : startsFold name (afterSlash .opening r) = false := by
        simpa [Element.opening, startsFold, sameFold, afterSlash] using h
      simp [read?, hn]
    · simp [read?, hc]

/-- An opening tag is read back from the front of any text that begins with it. -/
theorem read?_opening_append {name word attributes : Text} (hn : '>' ∉ name)
    (hw : eqFold (Element.opening name) word = true) (ha : '>' ∉ attributes) (rest : Text) :
    read? .opening name (word ++ attributes ++ ['>'] ++ rest) =
      some (word ++ attributes ++ ['>'], rest) := by
  cases word with
  | nil => simp [eqFold, Element.opening] at hw
  | cons c tail =>
    rw [Element.opening, eqFold_cons, Bool.and_eq_true] at hw
    obtain rfl : '<' = c := (sameFold_iff rfl).1 hw.1
    have hplain : '>' ∉ tail ++ attributes := by
      rw [List.mem_append, not_or, mem_iff_of_eqFold rfl hw.2]
      exact ⟨hn, ha⟩
    have hcut := cutAfter?_append hplain rest
    have hstart : startsFold name (tail ++ (attributes ++ '>' :: rest)) = true :=
      startsFold_append_of_eqFold hw.2 _
    simp only [List.append_assoc] at hcut
    simp [read?, afterSlash, hstart, hcut]

/-- Tags of a form and name are what is read at the front of a text: a `<`, what begins with the
name, behind a slash where the form allows one, and the first `>`. -/
theorem read?_eq_some_iff {form : TagForm} {name source tag rest : Text} (hn : '>' ∉ name) :
    read? form name source = some (tag, rest) ↔ source = tag ++ rest ∧
      ∃ inner, tag = '<' :: (inner ++ ['>']) ∧ '>' ∉ inner ∧
        startsFold name (afterSlash form inner) = true := by
  -- The slash stands in front of the `>`, or there is none.
  have hslash (inner : Text) :
      afterSlash form (inner ++ '>' :: rest) = afterSlash form inner ++ '>' :: rest := by
    cases form with
    | opening => rfl
    | openingOrClosing =>
      cases inner with
      | nil => rfl
      | cons c inner =>
        by_cases hc : c = '/'
        · rw [hc]
          rfl
        · simp [afterSlash, hc]
  constructor
  · intro h
    refine ⟨append_of_read? h, ?_⟩
    unfold read? at h
    split at h
    · split at h
      · rename_i r hs
        obtain ⟨⟨u, back⟩, hc, he⟩ := Option.map_eq_some_iff.1 h
        obtain ⟨rfl, rfl⟩ := Prod.mk.inj he
        obtain ⟨inner, rfl, hi⟩ := eq_of_cutAfter? hc
        have hr := append_of_cutAfter? hc
        rw [List.append_assoc, List.singleton_append] at hr
        rw [hr, hslash] at hs
        exact ⟨inner, rfl, hi, startsFold_of_startsFold_append_cons hn rfl hs⟩
      · contradiction
    · contradiction
  · rintro ⟨rfl, inner, rfl, hi, hs⟩
    have hcut := cutAfter?_append hi rest
    have hstart : startsFold name (afterSlash form (inner ++ '>' :: rest)) = true := by
      rw [hslash]
      exact startsFold_append hs _
    simp only [List.cons_append, List.append_assoc, List.nil_append] at hcut ⊢
    rw [read?, if_pos hstart, hcut]
    rfl

/-- A tag begins with `<` and has a `>`. -/
theorem mem_of_read? {form : TagForm} {name source tag rest : Text}
    (h : read? form name source = some (tag, rest)) : source.head? = some '<' ∧ '>' ∈ source := by
  unfold read? at h
  split at h
  · split at h
    · obtain ⟨⟨u, back⟩, hc, -⟩ := Option.map_eq_some_iff.1 h
      refine ⟨rfl, List.mem_cons_of_mem _ ?_⟩
      by_contra hm
      rw [cutAfter?_eq_none_iff.2 hm] at hc
      contradiction
    · contradiction
  · contradiction

/-- What has no `<` is kept. -/
theorem strip_append {form : TagForm} {name front : Text} (h : '<' ∉ front) (back : Text) :
    strip form name (front ++ back) = front ++ strip form name back := by
  rw [strip, Cutter.remove, Cutter.cut_append]
  · rfl
  · intro s hs hn
    cases hr : read? form name (s ++ back) with
    | none => exact hr
    | some found =>
      obtain ⟨c, r, rfl⟩ := List.exists_cons_of_ne_nil hn
      obtain rfl := Option.some.inj (mem_of_read? hr).1
      exact absurd (hs.subset List.mem_cons_self) h

/-- Nothing is taken out of a text without a `>`. -/
theorem strip_eq_self {form : TagForm} {name text : Text} (h : '>' ∉ text) :
    strip form name text = text := by
  have hnone : ∀ s, s <:+ text → s ≠ [] → (cutter form name).read? s = none := by
    intro s hs _
    cases hr : (cutter form name).read? s with
    | none => rfl
    | some found => exact absurd (hs.subset (mem_of_read? hr).2) h
  rw [strip, Cutter.remove, Cutter.cut_eq_self hnone]

/-- Nothing is taken out of a text without a `<`. -/
theorem strip_of_notMem {form : TagForm} {name text : Text} (h : '<' ∉ text) :
    strip form name text = text := by
  have hs : strip form name (text ++ []) = text ++ strip form name [] := strip_append h []
  rwa [List.append_nil, strip_eq_self List.not_mem_nil, List.append_nil] at hs

/-- A `<` without the name behind it is kept. -/
theorem strip_cons_of_eq_false {form : TagForm} {name rest : Text}
    (h : startsFold name (afterSlash form rest) = false) :
    strip form name ('<' :: rest) = '<' :: strip form name rest := by
  have hread : read? form name ('<' :: rest) = none := by
    rw [read?, h]
    rfl
  rw [strip, Cutter.remove, Cutter.cut_cons_of_read?_eq_none hread]
  rfl

/-- A `<` with the name behind it is taken out with everything up to the next `>`. -/
theorem strip_cons_of_eq_true {form : TagForm} {name inner back : Text} (hi : '>' ∉ inner)
    (h : startsFold name (afterSlash form (inner ++ '>' :: back)) = true) :
    strip form name ('<' :: (inner ++ '>' :: back)) = strip form name back := by
  have hread : read? form name ('<' :: (inner ++ '>' :: back)) =
      some ('<' :: (inner ++ ['>']), back) := by
    rw [read?, if_pos h, cutAfter?_append hi]
    rfl
  rw [strip, Cutter.remove, Cutter.cut_of_read? hread]
  rfl

end Tag

end VueSfc.Markup
