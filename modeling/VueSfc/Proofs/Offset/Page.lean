import VueSfc.Offset.Page
import VueSfc.Proofs.Offset.Markup

/-!
# Pages taken apart by the rules

Every name that is looked for is of ASCII characters, so the steps on byte offsets that take a page
apart and isolate and check its template keep to the rules on every text.
-/

namespace VueSfc.Offset

open Text Markup Element Template

/-- Taking a page apart keeps to the rules. -/
theorem pageParts_eq (page : Text) : pageParts page = .ok (PageParts.ofPage page) := by
  rw [pageParts, stripTags_eq .opening (by decide), ok_bind,
    exciseElements_eq (by decide), ok_bind,
    exciseElements_eq (by decide), ok_bind]
  rfl

/-- Taking the content of the body keeps to the rules. -/
theorem innerBody_eq (text : Text) : innerBody text = .ok (bodyOrAll text) := by
  have hcut : cutAtByte? 0 text = some ([], text) := by cases text <;> rfl
  rw [innerBody, findElement_eq (by decide), ok_bind, findFrom?, hcut, Option.bind_some, bodyOrAll]
  dsimp only
  cases hf : find? "body" text with
  | none => rfl
  | some found =>
    obtain ⟨before, e, back⟩ := found
    obtain ⟨tail, rfl, hread⟩ := Cutter.exists_of_find? hf
    obtain rfl := text_append_of_read? hread
    rw [Option.map_some]
    simp only [spanAt, byteSize_nil, Nat.zero_add]
    cases hc : e.content with
    | nil => exact if_neg (Nat.lt_irrefl _)
    | cons c content =>
      have hpos := c.utf8Size_pos
      have hcontent : slice (before ++ (e.text ++ back)) (byteSize before + byteSize e.openTag)
          (byteSize before + byteSize e.openTag + byteSize (c :: content)) =
            .ok (c :: content) := by
        refine slice_eq_ok_iff.2 ⟨before ++ e.openTag, e.closeTag ++ back, ?_,
          (byteSize_append _ _).symm, rfl⟩
        rw [Element.text, hc]
        simp only [List.append_assoc]
      rw [if_pos (by rw [byteSize_cons]; omega), hcontent]
      rfl

/-- Dropping metadata keeps to the rules. -/
theorem dropMetadata_eq (text : Text) : dropMetadata text = .ok (withoutMetadata text) := by
  rw [dropMetadata, stripTags_eq .openingOrClosing (by decide), ok_bind,
    stripTags_eq .opening (by decide), ok_bind, stripTags_eq .opening (by decide), ok_bind,
    exciseElements_eq (by decide), ok_bind]
  rfl

/-- Isolating a template keeps to the rules. -/
theorem isolateTemplate_eq (markup : Text) : isolateTemplate markup = .ok (isolate markup) := by
  rw [isolateTemplate, stripTags_eq .openingOrClosing (by decide), ok_bind,
    exciseElements_eq (by decide), ok_bind, innerBody_eq, ok_bind, dropMetadata_eq,
    ok_bind, collapseBlankLines_eq]
  rfl

/-! ## Checking a template -/

/-- A character of ASCII stands in a text just when its byte stands in the bytes of the text. -/
theorem mem_utf8_iff {c : Char} (hc : isAscii c = true) (text : Text) :
    UInt8.ofNat c.toNat ∈ utf8 text ↔ c ∈ text := by
  have hn : c.toNat < 128 := of_decide_eq_true hc
  induction text with
  | nil => simp
  | cons d text ih =>
    rw [utf8_cons, List.mem_append, List.mem_cons]
    refine or_congr ?_ ih
    cases hd : isAscii d with
    | true =>
      rw [utf8EncodeChar_of_isAscii hd, List.mem_singleton]
      constructor
      · exact eq_of_byte_eq hn (of_decide_eq_true hd)
      · rintro rfl
        rfl
    | false =>
      constructor
      · intro h
        have hle := le_toNat_of_mem_utf8EncodeChar hd h
        rw [toNat_byte hn] at hle
        omega
      · rintro rfl
        rw [hc] at hd
        contradiction

/-- A letter is known by its first byte, which is its only one. -/
theorem isLetterByte_eq {c : Char} {first : UInt8} {later : List UInt8}
    (h : String.utf8EncodeChar c = first :: later) :
    isLetterByte first = c.isAlpha ∧ (c.isAlpha = true → later = []) := by
  cases hc : isAscii c with
  | true =>
    rw [utf8EncodeChar_of_isAscii hc] at h
    obtain ⟨rfl, rfl⟩ := List.cons.inj h
    refine ⟨forall_of_isAscii (P := fun c => isLetterByte (UInt8.ofNat c.toNat) = c.isAlpha) ?_ hc,
      fun _ => rfl⟩
    decide
  | false =>
    have hfirst : 128 ≤ first.toNat := by
      apply le_toNat_of_mem_utf8EncodeChar hc
      rw [h]
      exact List.mem_cons_self
    have hletter : isLetterByte first = false := by
      simp only [isLetterByte, Bool.or_eq_false_iff, Bool.and_eq_false_iff, decide_eq_false_iff_not]
      omega
    rw [hletter, isAlpha_eq_false hc]
    exact ⟨rfl, fun h => absurd h Bool.false_ne_true⟩

/-- The first byte of a character is that of `<` just when the character is. -/
theorem first_beq_eq {c : Char} {first : UInt8} {later : List UInt8}
    (h : String.utf8EncodeChar c = first :: later) : (first == 60) = (c == '<') := by
  rw [Bool.eq_iff_iff, beq_iff_eq, beq_iff_eq]
  constructor
  · rintro rfl
    have hmem : UInt8.ofNat '<'.toNat ∈ utf8 [c] := by
      rw [utf8_cons, h]
      exact List.mem_cons_self
    exact (List.mem_singleton.1 ((mem_utf8_iff rfl [c]).1 hmem)).symm
  · rintro rfl
    exact (List.cons.inj (h.symm.trans (utf8EncodeChar_of_isAscii rfl))).1

/-- What the search for an element says of some bytes, by recursion on them. -/
def hasElementBytes (bytes : List UInt8) : Bool :=
  match bytes.tails.findIdx? opensElement with
  | none => false
  | some start => (bytes.drop (start + 2)).contains 62

theorem hasElementBytes_cons (b : UInt8) (bytes : List UInt8) :
    hasElementBytes (b :: bytes) =
      if opensElement (b :: bytes) then (bytes.drop 1).contains 62 else hasElementBytes bytes := by
  rw [hasElementBytes, List.tails, List.findIdx?_cons]
  by_cases ho : opensElement (b :: bytes) = true
  · rw [if_pos ho, if_pos ho]
    rfl
  · rw [if_neg ho, if_neg ho, hasElementBytes]
    cases bytes.tails.findIdx? opensElement with
    | none => rfl
    | some start => rfl

/-- No element begins at a byte other than that of `<`. -/
theorem hasElementBytes_cons_of_ne {b : UInt8} (hb : (b == 60) = false) (bytes : List UInt8) :
    hasElementBytes (b :: bytes) = hasElementBytes bytes := by
  have hopens : opensElement (b :: bytes) = false := by
    cases bytes with
    | nil => rfl
    | cons d rest => rw [opensElement, hb, Bool.false_and]
  rw [hasElementBytes_cons, hopens]
  rfl

/-- Bytes above ASCII begin no element. -/
theorem hasElementBytes_append {front : List UInt8} (hf : ∀ b ∈ front, 128 ≤ b.toNat)
    (bytes : List UInt8) : hasElementBytes (front ++ bytes) = hasElementBytes bytes := by
  induction front with
  | nil => rfl
  | cons b front ih =>
    rw [List.forall_mem_cons] at hf
    have hb : (b == 60) = false := by
      rw [beq_eq_false_iff_ne]
      rintro rfl
      exact absurd hf.1 (by decide)
    rw [List.cons_append, hasElementBytes_cons_of_ne hb, ih hf.2]

/-- The bytes of a text show an element just when its characters do. -/
theorem hasElementBytes_utf8 (text : Text) :
    hasElementBytes (utf8 text) = hasElementSyntax text := by
  induction text with
  | nil => rfl
  | cons c text ih =>
    obtain ⟨first, later, he, hlater⟩ := exists_utf8EncodeChar c
    cases hc : c == '<' with
    | false =>
      have hsyntax : hasElementSyntax (c :: text) = hasElementSyntax text := by
        cases text with
        | nil => rfl
        | cons d text => rw [hasElementSyntax, hc, Bool.false_and, if_neg Bool.false_ne_true]
      rw [utf8_cons, he, List.cons_append, hasElementBytes_cons_of_ne ((first_beq_eq he).trans hc),
        hasElementBytes_append hlater, ih, hsyntax]
    | true =>
      obtain rfl := beq_iff_eq.1 hc
      cases text with
      | nil => rfl
      | cons d text =>
        obtain ⟨second, rest, hd, -⟩ := exists_utf8EncodeChar d
        obtain ⟨hletter, hrest⟩ := isLetterByte_eq hd
        have hbytes : utf8 ('<' :: d :: text) = 60 :: second :: (rest ++ utf8 text) := by
          rw [utf8_cons, utf8_cons, hd]
          rfl
        have htail : utf8 (d :: text) = second :: (rest ++ utf8 text) := by
          rw [utf8_cons, hd]
          rfl
        rw [hbytes, hasElementBytes_cons, opensElement, ← htail, ih, hasElementSyntax, hletter, hc]
        cases ha : d.isAlpha with
        | false => rfl
        | true =>
          have hcontains : (utf8 text).contains 62 = text.contains '>' := by
            rw [Bool.eq_iff_iff, List.contains_iff_mem, List.contains_iff_mem]
            exact mem_utf8_iff (c := '>') rfl text
          rw [htail, hrest ha, List.nil_append, List.drop_succ_cons, List.drop_zero, hcontains]
          rfl

/-- The search for an element keeps to the rules. -/
theorem showsElement_eq (text : Text) : showsElement text = .ok (hasElementSyntax text) := by
  rw [showsElement, ← hasElementBytes_utf8, hasElementBytes]
  cases hf : (utf8 text).tails.findIdx? opensElement with
  | none => rfl
  | some start =>
    have hroom : start + 2 ≤ (utf8 text).length := by
      obtain ⟨hs, hopens, -⟩ := List.findIdx?_eq_some_iff_getElem.1 hf
      rw [List.getElem_tails] at hopens
      have hlength : 2 ≤ ((utf8 text).drop start).length := by
        cases hd : (utf8 text).drop start with
        | nil =>
          rw [hd] at hopens
          contradiction
        | cons first rest =>
          cases rest with
          | nil =>
            rw [hd] at hopens
            contradiction
          | cons second rest => simp
      rw [List.length_drop] at hlength
      omega
    dsimp only
    rw [byteSlice_eq_drop hroom]
    rfl

/-- The test for a keyword keeps to the rules. -/
theorem beginsWith_eq {keyword : Text} (hk : IsAscii keyword) (text : Text) :
    beginsWith text keyword = .ok (opensWith text keyword) := by
  rw [beginsWith, startsIgnoreCase_eq hk, ok_bind, opensWith]
  cases hs : startsFold keyword text with
  | false => rfl
  | true =>
    obtain ⟨middle, back, rfl, hm⟩ := startsFold_iff.1 hs
    have hdrop : (middle ++ back).drop keyword.length = back := by
      rw [← length_eq_of_eqFold hm, List.drop_left]
    rw [hdrop, if_pos rfl, sliceFrom_eq rfl (byteSize_of_eqFold hk hm).symm]
    rfl

/-- The search for a keyword keeps to the rules. -/
theorem findM?_beginsWith (text : Text) :
    codeKeywords.findM? (beginsWith text) = .ok (leadingKeyword? text) := by
  have hall : ∀ keywords : List Text, (∀ keyword ∈ keywords, IsAscii keyword) →
      keywords.findM? (beginsWith text) = .ok (keywords.find? (opensWith text)) := by
    intro keywords h
    induction keywords with
    | nil => rfl
    | cons keyword keywords ih =>
      rw [List.forall_mem_cons] at h
      rw [List.findM?, beginsWith_eq h.1, ok_bind, List.find?]
      cases opensWith text keyword with
      | true => rfl
      | false => exact ih h.2
  refine hall codeKeywords fun keyword hm => ?_
  have hascii : codeKeywords.all (fun keyword => decide (IsAscii keyword)) = true := by decide
  exact of_decide_eq_true (List.all_eq_true.1 hascii keyword hm)

/-- Checking a template keeps to the rules. -/
theorem checkTemplate_eq (template : Text) : checkTemplate template = .ok (check template) := by
  unfold checkTemplate check
  split
  · rfl
  · rw [showsElement_eq, ok_bind]
    split
    · rfl
    · rw [findM?_beginsWith, ok_bind]
      cases leadingKeyword? template with
      | none => rfl
      | some keyword => rfl

end VueSfc.Offset
