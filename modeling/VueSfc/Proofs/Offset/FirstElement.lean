import Mathlib.Order.Bounds.Basic
import VueSfc.Proofs.Offset.Markup

/-!
# The first element

The search for an element looks at the first opening word only, at the first `>` behind it and at
the first closing tag behind that one. It gives up where one of them is missing, and misses nothing
by that: the `>` and the closing tag of any later opening word are behind the first opening word and
the first `>` too. Offsets are places among the bytes of a text, and those at which a word of ASCII
characters stands turn out to be boundaries between characters.
-/

namespace VueSfc.Offset

open Text Markup Element

/-! ## Places of words -/

/-- An offset of a text at which the bytes of a word stand, up to the case of ASCII letters. -/
def IsPlaceOf (word text : Text) (offset : Nat) : Prop :=
  standsAt (utf8 word) ((utf8 text).drop offset) = true

/-- An offset between two characters of a text, or at one of its ends. -/
def IsBoundary (text : Text) (offset : Nat) : Prop :=
  ∃ front back, text = front ++ back ∧ offset = byteSize front

/-- The bytes of two texts, one behind the other. -/
theorem utf8_append (front back : Text) : utf8 (front ++ back) = utf8 front ++ utf8 back :=
  List.flatMap_append

/-- A word that can be looked for in bytes. -/
structure IsAsciiWord (word : Text) : Prop where
  /-- It has only ASCII characters. -/
  ascii : IsAscii word
  /-- It is not empty. -/
  ne_nil : word ≠ []

/-- A boundary lies within the text. -/
theorem IsBoundary.le {text : Text} {offset : Nat} (h : IsBoundary text offset) :
    offset ≤ byteSize text := by
  obtain ⟨front, back, rfl, rfl⟩ := h
  rw [byteSize_append]
  exact Nat.le_add_right _ _

section

variable {word text : Text} {start offset : Nat} (hw : IsAsciiWord word)
include hw

/-- A word has no place behind the end. -/
theorem IsPlaceOf.le (h : IsPlaceOf word text offset) : offset ≤ byteSize text := by
  by_contra hlt
  have hdrop : (utf8 text).drop offset = [] := by
    rw [List.drop_eq_nil_iff, length_utf8]
    omega
  rw [IsPlaceOf, hdrop, standsAt_nil (mt utf8_eq_nil_iff.1 hw.ne_nil)] at h
  contradiction

/-- A word stands at an offset just when the text can be divided there and the word stands in front
of what follows. -/
theorem isPlaceOf_iff : IsPlaceOf word text offset ↔
    ∃ front back, text = front ++ back ∧ offset = byteSize front ∧ startsFold word back = true := by
  constructor
  · intro h
    cases hcut : cutAtByte? offset text with
    | none => exact absurd (h.le hw) (Nat.not_le.2 (cutAtByte?_eq_none_iff.1 hcut))
    | some parts =>
      obtain ⟨skipped, rest⟩ := parts
      obtain ⟨later, hdrop, hlater, hsize⟩ := drop_utf8 hcut
      rw [IsPlaceOf, hdrop] at h
      cases later with
      | nil =>
        rw [List.nil_append, standsAt_utf8 hw.ascii] at h
        exact ⟨skipped, rest, append_of_cutAtByte? hcut, hsize, h⟩
      | cons b later =>
        -- Inside of a character there are only bytes above ASCII.
        rw [List.cons_append, standsAt_of_le hw.ascii hw.ne_nil (hlater b List.mem_cons_self)] at h
        contradiction
  · rintro ⟨front, back, rfl, rfl, h⟩
    rw [IsPlaceOf, utf8_append, List.drop_left' (length_utf8 front),
      standsAt_utf8 hw.ascii]
    exact h

/-- A word begins and ends at boundaries. -/
theorem IsPlaceOf.isBoundary (h : IsPlaceOf word text offset) :
    IsBoundary text offset ∧ IsBoundary text (offset + byteSize word) := by
  obtain ⟨front, back, rfl, rfl, hstart⟩ := (isPlaceOf_iff hw).1 h
  obtain ⟨middle, rest, rfl, hm⟩ := startsFold_iff.1 hstart
  refine ⟨⟨front, middle ++ rest, rfl, rfl⟩, front ++ middle, rest, ?_, ?_⟩
  · rw [List.append_assoc]
  · rw [byteSize_append, byteSize_of_eqFold hw.ascii hm]

/-- A search from an offset finds nothing just when the word has no place there or behind. -/
theorem findFold?_eq_none_iff :
    findFold? word text start = none ↔ ∀ m, start ≤ m → ¬ IsPlaceOf word text m := by
  rw [findFold?_eq_findIdx? hw.ascii hw.ne_nil, Option.map_eq_none_iff,
    List.findIdx?_eq_none_iff]
  constructor
  · intro h m hm hplace
    have hsuffix : (utf8 text).drop m <:+ (utf8 text).drop start := by
      rw [← Nat.add_sub_cancel' hm, ← List.drop_drop]
      exact List.drop_suffix _ _
    have hnone := h _ ((List.mem_tails _ _).2 hsuffix)
    rw [IsPlaceOf, hnone] at hplace
    contradiction
  · intro h bytes hbytes
    obtain ⟨front, hfront⟩ := (List.mem_tails _ _).1 hbytes
    rw [← Bool.not_eq_true]
    intro hstands
    refine h (start + front.length) (Nat.le_add_right _ _) ?_
    rw [IsPlaceOf, ← List.drop_drop, ← hfront, List.drop_left]
    exact hstands

/-- A search from an offset finds the first place of the word there or behind. -/
theorem findFold?_eq_some_iff :
    findFold? word text start = some offset ↔
      IsLeast {m | start ≤ m ∧ IsPlaceOf word text m} offset := by
  have hleast {n : Nat} (h : findFold? word text start = some n) :
      IsLeast {m | start ≤ m ∧ IsPlaceOf word text m} n := by
    rw [findFold?_eq_findIdx? hw.ascii hw.ne_nil, Option.map_eq_some_iff] at h
    obtain ⟨i, hi, rfl⟩ := h
    obtain ⟨hlt, hstands, hbefore⟩ := List.findIdx?_eq_some_iff_getElem.1 hi
    rw [List.getElem_tails, List.drop_drop] at hstands
    refine ⟨⟨Nat.le_add_right _ _, hstands⟩, ?_⟩
    rintro m ⟨hm, hplace⟩
    by_contra hlater
    have hnot := hbefore (m - start) (by omega)
    rw [List.getElem_tails, List.drop_drop, Nat.add_sub_cancel' hm] at hnot
    exact hnot hplace
  refine ⟨hleast, fun h => ?_⟩
  cases hfound : findFold? word text start with
  | none => exact absurd h.1.2 ((findFold?_eq_none_iff hw).1 hfound offset h.1.1)
  | some n => rw [(hleast hfound).unique h]

end

/-! ## Places of elements -/

/-- The opening word of a name of ASCII characters is one. -/
theorem isAsciiWord_opening {name : Text} (ha : IsAscii name) : IsAsciiWord (opening name) :=
  ⟨isAscii_cons.2 ⟨rfl, ha⟩, List.cons_ne_nil _ _⟩

/-- The closing tag of a name of ASCII characters is one. -/
theorem isAsciiWord_closing {name : Text} (ha : IsAscii name) : IsAsciiWord (closing name) :=
  ⟨isAscii_closing ha, List.cons_ne_nil _ _⟩

/-- So is the sign that ends a tag. -/
theorem isAsciiWord_sign : IsAsciiWord ['>'] := ⟨by decide, List.cons_ne_nil _ _⟩

/-- Three offsets of a text at which an element can be read: those of an opening word, of a `>` that
is not in front of it, and of a closing tag behind the `>`. -/
structure AreElementPlaces (name text : Text) (first sign last : Nat) : Prop where
  /-- The opening word stands at the first offset. -/
  opening_at : IsPlaceOf (opening name) text first
  /-- A `>` stands at the second offset. -/
  sign_at : IsPlaceOf ['>'] text sign
  /-- A closing tag stands at the third offset. -/
  closing_at : IsPlaceOf (closing name) text last
  /-- The `>` does not stand in front of the opening word. -/
  first_le : first ≤ sign
  /-- The closing tag stands behind the `>`. -/
  sign_lt : sign < last

/-- The span of the leftmost and shortest element from an offset on. -/
structure IsFirstElement (name text : Text) (start : Nat) (span : Span) : Prop where
  /-- It begins at the first offset at which an element can be read. -/
  start : IsLeast {s | start ≤ s ∧ ∃ sign last, AreElementPlaces name text s sign last} span.start
  /-- Its content begins behind the first `>`. -/
  contentStart : ∃ sign, IsLeast {g | span.start ≤ g ∧ IsPlaceOf ['>'] text g} sign ∧
    span.contentStart = sign + 1
  /-- Its content ends at the first closing tag. -/
  contentStop : IsLeast {c | span.contentStart ≤ c ∧ IsPlaceOf (closing name) text c}
    span.contentStop
  /-- It ends with that closing tag. -/
  stop : span.stop = span.contentStop + byteSize (closing name)

/-- The offsets of an element are in order and within the text, and all are boundaries. -/
structure IsWellPlaced (text : Text) (span : Span) : Prop where
  /-- The opening tag is not empty. -/
  start_lt : span.start < span.contentStart
  /-- The content may be. -/
  contentStart_le : span.contentStart ≤ span.contentStop
  /-- The closing tag is not empty. -/
  contentStop_lt : span.contentStop < span.stop
  /-- The element ends within the text. -/
  stop_le : span.stop ≤ byteSize text
  /-- It begins at a boundary. -/
  start : IsBoundary text span.start
  /-- Its content begins at a boundary. -/
  contentStart : IsBoundary text span.contentStart
  /-- Its content ends at a boundary. -/
  contentStop : IsBoundary text span.contentStop
  /-- It ends at a boundary. -/
  stop : IsBoundary text span.stop

/-- A search for a character that is no letter finds the first one. -/
theorem findFold?_singleton {c : Char} (hc : c.isAlpha = false) (front back : Text) :
    findFold? [c] (front ++ back) (byteSize front) =
      (seekChar (· == c) back).map (byteSize front + ·) := by
  have htest : startsFold [c] = fun rest => rest.head?.any (· == c) := by
    funext rest
    cases rest with
    | nil => rfl
    | cons d rest =>
      rw [startsFold, startsFold, Bool.and_true, Bool.eq_iff_iff, sameFold_iff hc]
      change c = d ↔ (d == c) = true
      rw [beq_iff_eq, eq_comm]
  rw [findFold?_of_cutAtByte? (List.cons_ne_nil c []) (cutAtByte?_append front back), seekChar,
    seek, htest, Option.map_map]
  rfl

section

variable {name text : Text} {start : Nat}

/-- The three searches of which the search for an element consists. -/
theorem findFrom?_eq_bind (ha : IsAscii name) : findFrom? name text start =
    (findFold? (opening name) text start).bind fun first =>
      (findFold? ['>'] text first).bind fun sign =>
        (findFold? (closing name) text (sign + 1)).map fun last =>
          ⟨first, sign + 1, last, last + byteSize (closing name)⟩ := by
  have hopening := isAsciiWord_opening ha
  have hfind := findElement_eq ha text start
  rw [findElement, findIgnoreCase_eq hopening.ascii, ok_bind] at hfind
  cases hfirst : findFold? (opening name) text start with
  | none =>
    rw [hfirst] at hfind
    exact (Except.ok.inj hfind).symm
  | some first =>
    rw [hfirst] at hfind
    obtain ⟨front, behind, rfl, rfl, -⟩ :=
      (isPlaceOf_iff hopening).1 ((findFold?_eq_some_iff hopening).1 hfirst).1.2
    dsimp only at hfind
    rw [sliceFrom_eq rfl rfl, ok_bind] at hfind
    rw [Option.bind_some, findFold?_singleton rfl]
    cases hsign : seekChar (· == '>') behind with
    | none =>
      rw [hsign] at hfind
      exact (Except.ok.inj hfind).symm
    | some length =>
      rw [hsign] at hfind
      dsimp only at hfind
      rw [findIgnoreCase_eq (isAscii_closing ha), ok_bind] at hfind
      rw [Option.map_some, Option.bind_some]
      cases hlast : findFold? (closing name) (front ++ behind) (byteSize front + length + 1) with
      | none =>
        rw [hlast] at hfind
        exact (Except.ok.inj hfind).symm
      | some last =>
        rw [hlast] at hfind
        exact (Except.ok.inj hfind).symm

/-- There is one leftmost and shortest element. -/
theorem IsFirstElement.eq {span other : Span} (h : IsFirstElement name text start span)
    (ho : IsFirstElement name text start other) : span = other := by
  obtain ⟨first, contentStart, contentStop, stop⟩ := span
  obtain ⟨first', contentStart', contentStop', stop'⟩ := other
  obtain rfl : first = first' := h.start.unique ho.start
  obtain ⟨sign, hsign, hcontent⟩ := h.contentStart
  obtain ⟨sign', hsign', hcontent'⟩ := ho.contentStart
  obtain rfl : sign = sign' := hsign.unique hsign'
  obtain rfl : contentStart = contentStart' := hcontent.trans hcontent'.symm
  obtain rfl : contentStop = contentStop' := h.contentStop.unique ho.contentStop
  obtain rfl : stop = stop' := h.stop.trans ho.stop.symm
  rfl

/-- The offsets of the leftmost and shortest element are in order, and all are boundaries. -/
theorem IsFirstElement.isWellPlaced {span : Span} (ha : IsAscii name)
    (h : IsFirstElement name text start span) : IsWellPlaced text span := by
  obtain ⟨-, _, _, hplaces⟩ := h.start.1
  obtain ⟨sign, ⟨⟨hle, hsign⟩, -⟩, hcontent⟩ := h.contentStart
  have hopening := hplaces.opening_at.isBoundary (isAsciiWord_opening ha)
  have hbehind := hsign.isBoundary isAsciiWord_sign
  have hclosing := h.contentStop.1.2.isBoundary (isAsciiWord_closing ha)
  have hsize : 0 < byteSize (closing name) := Nat.lt_of_lt_of_le (Char.utf8Size_pos '<')
    (Nat.le_add_right _ _)
  rw [← h.stop] at hclosing
  refine ⟨?_, h.contentStop.1.1, ?_, hclosing.2.le, hopening.1, ?_, hclosing.1, hclosing.2⟩
  · rw [hcontent]
    exact Nat.lt_succ_of_le hle
  · rw [h.stop]
    exact Nat.lt_add_of_pos_right hsize
  · rw [hcontent]
    exact hbehind.2

/-- What is found from an offset on is the leftmost and shortest element. -/
theorem isFirstElement_of_findFrom? (ha : IsAscii name) {span : Span}
    (h : findFrom? name text start = some span) : IsFirstElement name text start span := by
  rw [findFrom?_eq_bind ha] at h
  obtain ⟨first, hfirst, h⟩ := Option.bind_eq_some_iff.1 h
  obtain ⟨sign, hsign, h⟩ := Option.bind_eq_some_iff.1 h
  obtain ⟨last, hlast, rfl⟩ := Option.map_eq_some_iff.1 h
  rw [findFold?_eq_some_iff (isAsciiWord_opening ha)] at hfirst
  rw [findFold?_eq_some_iff isAsciiWord_sign] at hsign
  rw [findFold?_eq_some_iff (isAsciiWord_closing ha)] at hlast
  have hplaces : AreElementPlaces name text first sign last :=
    ⟨hfirst.1.2, hsign.1.2, hlast.1.2, hsign.1.1, hlast.1.1⟩
  refine ⟨⟨⟨hfirst.1.1, sign, last, hplaces⟩, ?_⟩, ⟨sign, hsign, rfl⟩, hlast, rfl⟩
  rintro s ⟨hs, _, _, h⟩
  exact hfirst.2 ⟨hs, h.opening_at⟩

/-- Where an element can be read from an offset on, one is found: the `>` and the closing tag of any
opening word are behind the first opening word and the first `>`. -/
theorem findFrom?_ne_none (ha : IsAscii name) {first sign last : Nat} (hs : start ≤ first)
    (h : AreElementPlaces name text first sign last) : findFrom? name text start ≠ none := by
  intro hnone
  rw [findFrom?_eq_bind ha] at hnone
  cases hfirst : findFold? (opening name) text start with
  | none =>
    rw [findFold?_eq_none_iff (isAsciiWord_opening ha)] at hfirst
    exact hfirst first hs h.opening_at
  | some first' =>
    rw [hfirst, Option.bind_some] at hnone
    rw [findFold?_eq_some_iff (isAsciiWord_opening ha)] at hfirst
    have hle : first' ≤ sign := (hfirst.2 ⟨hs, h.opening_at⟩).trans h.first_le
    cases hsign : findFold? ['>'] text first' with
    | none =>
      rw [findFold?_eq_none_iff isAsciiWord_sign] at hsign
      exact hsign sign hle h.sign_at
    | some sign' =>
      rw [hsign, Option.bind_some, Option.map_eq_none_iff] at hnone
      rw [findFold?_eq_some_iff isAsciiWord_sign] at hsign
      have hlt : sign' < last := Nat.lt_of_le_of_lt (hsign.2 ⟨hle, h.sign_at⟩) h.sign_lt
      rw [findFold?_eq_none_iff (isAsciiWord_closing ha)] at hnone
      exact hnone last hlt h.closing_at

/-- An element is found just when it is the leftmost and shortest one. -/
theorem findFrom?_eq_some_iff (ha : IsAscii name) {span : Span} :
    findFrom? name text start = some span ↔ IsFirstElement name text start span := by
  refine ⟨isFirstElement_of_findFrom? ha, fun h => ?_⟩
  obtain ⟨hs, sign, last, hplaces⟩ := h.start.1
  obtain ⟨other, hother⟩ := Option.ne_none_iff_exists'.1 (findFrom?_ne_none ha hs hplaces)
  rw [hother, (isFirstElement_of_findFrom? ha hother).eq h]

/-- No element is found just when none can be read. -/
theorem findFrom?_eq_none_iff (ha : IsAscii name) : findFrom? name text start = none ↔
    ¬ ∃ first sign last, start ≤ first ∧ AreElementPlaces name text first sign last := by
  constructor
  · rintro hnone ⟨first, sign, last, hs, hplaces⟩
    exact findFrom?_ne_none ha hs hplaces hnone
  · intro hnot
    by_contra hsome
    obtain ⟨span, hspan⟩ := Option.ne_none_iff_exists'.1 hsome
    obtain ⟨hs, sign, last, hplaces⟩ := ((findFrom?_eq_some_iff ha).1 hspan).start.1
    exact hnot ⟨span.start, sign, last, hs, hplaces⟩

end

/-- The search that looks at the first opening word only finds from any offset what a search that
tries all of them finds. There is nothing just when no opening word, `>` and closing tag of the name
stand one behind the other from the offset on, and otherwise it is the element that begins first,
with the first `>` and the first closing tag behind that, in order, within the text and at
boundaries between characters. -/
theorem first_element_is_found {name : Text} (ha : IsAscii name) (text : Text) (start : Nat) :
    findElement name text start = .ok (findFrom? name text start) ∧
      (findFrom? name text start = none ↔
        ¬ ∃ first sign last, start ≤ first ∧ AreElementPlaces name text first sign last) ∧
      ∀ span, (findFrom? name text start = some span ↔ IsFirstElement name text start span) ∧
        (findFrom? name text start = some span → IsWellPlaced text span) := by
  refine ⟨findElement_eq ha text start, findFrom?_eq_none_iff ha,
    fun span => ⟨findFrom?_eq_some_iff ha, fun h => ?_⟩⟩
  exact ((findFrom?_eq_some_iff ha).1 h).isWellPlaced ha

/-- A page with an opening word that goes on, accented characters around a style element in mixed
case, and another closing tag behind it. -/
def accentedStylePage : Text := "é<STYLEé>é</Style>é</style>"

/-- From an offset inside of the first character on, the element ends at the first closing tag. -/
theorem accentedStylePage_first : IsAscii "style" ∧
    findElement "style" accentedStylePage 1 = .ok (some ⟨2, 11, 13, 21⟩) ∧
      IsFirstElement "style" accentedStylePage 1 ⟨2, 11, 13, 21⟩ ∧
      IsWellPlaced accentedStylePage ⟨2, 11, 13, 21⟩ := by
  have hname : IsAscii "style" := by decide
  obtain ⟨hfind, -, hsome⟩ := first_element_is_found hname accentedStylePage 1
  have hvalue : findFrom? "style" accentedStylePage 1 = some ⟨2, 11, 13, 21⟩ := by
    decide +kernel
  obtain ⟨hfirst, hplaced⟩ := hsome ⟨2, 11, 13, 21⟩
  rw [hvalue] at hfind
  exact ⟨hname, hfind, hfirst.1 hvalue, hplaced hvalue⟩

end VueSfc.Offset
