import VueSfc.Proofs.Markup.BlankRun
import VueSfc.Proofs.Markup.Reading
import VueSfc.Proofs.Offset.Bytes

/-!
# Loops over markup that keep to the rules

The loops that take out elements, remove tags and collapse runs of blank characters keep to the
rules from every boundary between characters on. Each ends within as many rounds as there are
characters left (the one over elements within one round more than there are elements), and leaves
the text that cutting by characters leaves.
-/

namespace VueSfc.Offset

open Text Markup Element

/-! ## Elements -/

/-- A text has no more characters than bytes. -/
theorem length_le_byteSize (text : Text) : text.length ≤ byteSize text := by
  induction text with
  | nil => exact Nat.le_refl 0
  | cons c text ih =>
    have hc := c.utf8Size_pos
    rw [List.length_cons, byteSize_cons]
    omega

/-- An occurrence of a word of ASCII characters is as long as the word. -/
theorem byteSize_of_eqFold {word text : Text} (hw : IsAscii word) (h : eqFold word text = true) :
    byteSize text = byteSize word := by
  induction word generalizing text with
  | nil =>
    have hlength : text.length = 0 := length_eq_of_eqFold h
    rw [List.length_eq_zero_iff.1 hlength]
  | cons p word ih =>
    cases text with
    | nil => exact absurd (length_eq_of_eqFold h) (by simp)
    | cons c text =>
      obtain ⟨hp, hword⟩ := isAscii_cons.1 hw
      rw [eqFold_cons, Bool.and_eq_true] at h
      have hc : isAscii c = true := by
        by_contra hc
        rw [sameFold_eq_false hp (Bool.eq_false_iff.2 hc)] at h
        exact absurd h.1 Bool.false_ne_true
      have hsize : c.utf8Size = p.utf8Size := by
        rw [← String.length_utf8EncodeChar, ← String.length_utf8EncodeChar,
          utf8EncodeChar_of_isAscii hp, utf8EncodeChar_of_isAscii hc]
        rfl
      rw [byteSize_cons, byteSize_cons, ih hword h.2, hsize]

/-- The closing tag of a name of ASCII characters has only these. -/
theorem isAscii_closing {name : Text} (hn : IsAscii name) : IsAscii (closing name) := by
  have hslash : IsAscii "</" := by decide
  have hsign : IsAscii [('>' : Char)] := by decide
  unfold IsAscii at *
  rw [closing, List.all_append, List.all_append, hslash, hn, hsign]
  rfl

/-- The search for an element keeps to the rules from any offset, and finds what the search by
characters finds. -/
theorem findElement_eq {name : Text} (ha : IsAscii name) (text : Text) (start : Nat) :
    findElement name text start = .ok (findFrom? name text start) := by
  have hopening : IsAscii (opening name) := isAscii_cons.2 ⟨rfl, ha⟩
  have hclosing := isAscii_closing ha
  have hopen : opening name ≠ [] := List.cons_ne_nil _ _
  have hclose : closing name ≠ [] := List.cons_ne_nil _ _
  rw [findElement, findIgnoreCase_eq hopening, ok_bind, findFrom?]
  cases hcut : cutAtByte? start text with
  | none =>
    rw [findFold?, hcut]
    rfl
  | some parts =>
    obtain ⟨skipped, rest⟩ := parts
    rw [findFold?_of_cutAtByte? hopen hcut, Option.bind_some]
    obtain rfl := append_of_cutAtByte? hcut
    dsimp only
    rw [find?_eq]
    cases hfirst : cutBefore? (startsFold (opening name)) rest with
    | none => rfl
    | some parts =>
      obtain ⟨front, tail⟩ := parts
      obtain rfl := append_of_cutBefore? hfirst
      have hstarts := test_of_cutBefore? hfirst
      have hbehind : sliceFrom (skipped ++ (front ++ tail)) (byteSize skipped + byteSize front) =
          .ok tail :=
        sliceFrom_eq (List.append_assoc _ _ _).symm (byteSize_append _ _).symm
      rw [Option.map_some, Option.bind_some]
      dsimp only
      rw [hbehind, ok_bind, read?, if_pos hstarts]
      rcases exists_first (· == '>') tail with hnone | ⟨inner, c, inside, rfl, hinner, hc⟩
      · have hgt : '>' ∉ tail := fun hm => absurd (hnone _ hm) (by decide)
        rw [seekChar_eq_none hnone, cutAfter?_eq_none_iff.2 hgt]
        rfl
      · obtain rfl := beq_iff_eq.1 hc
        have hgt : '>' ∉ inner := fun hm => absurd (hinner _ hm) (by decide)
        have hbefore : skipped ++ (front ++ (inner ++ '>' :: inside)) =
            (skipped ++ front ++ inner ++ ['>']) ++ inside := by simp
        have hoffset : byteSize skipped + byteSize front + byteSize inner + 1 =
            byteSize (skipped ++ front ++ inner ++ ['>']) := by
          simp only [byteSize_append]
          rfl
        rw [seekChar_eq_some hinner hc, cutAfter?_append hgt]
        dsimp only
        rw [findIgnoreCase_eq hclosing, ok_bind, hoffset, hbefore,
          findFold?_of_cutAtByte? hclose (cutAtByte?_append _ _)]
        cases hcontent : cutBefore? (startsFold (closing name)) inside with
        | none => rfl
        | some parts =>
          obtain ⟨content, back⟩ := parts
          obtain ⟨middle, behind, rfl, hm⟩ := startsFold_iff.1 (test_of_cutBefore? hcontent)
          have hsize := byteSize_of_eqFold hclosing hm
          have htake : (middle ++ behind).take (closing name).length = middle := by
            rw [← length_eq_of_eqFold hm, List.take_left]
          rw [Option.map_some, Option.map_some, Option.map_some]
          simp only [spanAt, htake, byteSize_append, hsize, pure_eq_ok, Nat.add_assoc]

/-- Taking out elements from a boundary on keeps to the rules and ends within one round more than
there are elements left. -/
theorem exciseLoop_eq {name : Text} (ha : IsAscii name) {text front rest : Text} {rounds : Nat}
    (ht : text = front ++ rest) (hr : (excise name rest).2.length < rounds) :
    exciseLoop name text rounds (byteSize front) = .ok (excise name rest) := by
  induction rounds generalizing front rest with
  | zero => exact absurd hr (Nat.not_lt_zero _)
  | succ rounds ih =>
    rw [exciseLoop, findElement_eq ha, ok_bind, findFrom?, ht, cutAtByte?_append,
      Option.bind_some, ← ht]
    dsimp only
    cases hf : find? name rest with
    | none =>
      rw [Option.map_none, excise_of_find?_eq_none hf, sliceFrom_eq ht rfl]
      rfl
    | some found =>
      obtain ⟨before, e, back⟩ := found
      obtain ⟨tail, rfl, hread⟩ := Cutter.exists_of_find? hf
      obtain rfl := text_append_of_read? hread
      rw [excise_of_find? hf, List.length_cons] at hr
      have hcontent : slice text (byteSize front + byteSize before + byteSize e.openTag)
          (byteSize front + byteSize before + byteSize e.openTag + byteSize e.content) =
            .ok e.content := by
        refine slice_eq_ok_iff.2 ⟨front ++ before ++ e.openTag, e.closeTag ++ back, ?_, ?_, rfl⟩
        · rw [ht, Element.text]
          simp only [List.append_assoc]
        · simp only [byteSize_append]
      have hkept : slice text (byteSize front) (byteSize front + byteSize before) = .ok before :=
        slice_eq (ht.trans (List.append_assoc _ _ _).symm) rfl rfl
      have hstop : byteSize front + byteSize before + byteSize e.openTag + byteSize e.content +
          byteSize e.closeTag = byteSize (front ++ before ++ e.text) := by
        simp only [Element.text, byteSize_append, Nat.add_assoc]
      have hbehind : text = (front ++ before ++ e.text) ++ back := by
        rw [ht]
        simp only [List.append_assoc]
      rw [Option.map_some, excise_of_find? hf]
      simp only [spanAt]
      rw [hcontent, ok_bind, hkept, ok_bind, hstop, ih hbehind (Nat.lt_of_succ_lt_succ hr), ok_bind,
        pure_eq_ok]

/-- Taking out elements keeps to the rules. -/
theorem exciseElements_eq {name : Text} (ha : IsAscii name) (text : Text) :
    exciseElements name text = .ok (excise name text) := by
  have hrounds : (excise name text).2.length < byteSize text + 1 :=
    Nat.lt_succ_of_le ((length_contents_le name text).trans (length_le_byteSize text))
  have h : text = [] ++ text := rfl
  exact exciseLoop_eq ha h hrounds

/-! ## Tags -/

/-- The place of a tag's name keeps to the rules. -/
theorem skipSlash_eq (form : TagForm) {text front back : Text} {start : Nat}
    (ht : text = front ++ back) (hs : start = byteSize front) :
    ∃ slash, back = slash ++ Tag.afterSlash form back ∧ '>' ∉ slash ∧
      skipSlash form text start = .ok (byteSize (front ++ slash)) := by
  cases form with
  | opening =>
    refine ⟨[], rfl, List.not_mem_nil, ?_⟩
    rw [hs, List.append_nil]
    rfl
  | openingOrClosing =>
    rw [skipSlash, sliceFrom_eq ht hs, ok_bind, hs]
    rcases Tag.afterSlash_cases back with ⟨r, rfl, hafter⟩ | ⟨hne, hafter⟩
    · refine ⟨['/'], by rw [hafter]; rfl, by decide, ?_⟩
      rw [if_pos List.head?_cons, byteSize_append]
      rfl
    · refine ⟨[], by rw [hafter]; rfl, List.not_mem_nil, ?_⟩
      rw [if_neg hne, List.append_nil]
      rfl

/-- The look at a `<` keeps to the rules, and tells what becomes of it. -/
theorem scanTag_cases (form : TagForm) {name : Text} (ha : IsAscii name) {text front r : Text}
    {start : Nat} (ht : text = front ++ '<' :: r) (hs : start = byteSize front) :
    (scanTag form name text start = .ok .unnamed ∧
        Tag.strip form name ('<' :: r) = '<' :: Tag.strip form name r) ∨
      (scanTag form name text start = .ok .unclosed ∧
        Tag.strip form name ('<' :: r) = '<' :: r) ∨
      ∃ inner back, r = inner ++ '>' :: back ∧
        scanTag form name text start = .ok (.tag (byteSize (front ++ '<' :: (inner ++ ['>'])))) ∧
        Tag.strip form name ('<' :: r) = Tag.strip form name back := by
  have hbehind : text = (front ++ ['<']) ++ r := by
    rw [ht, List.append_assoc]
    rfl
  have hstart : start + 1 = byteSize (front ++ ['<']) := by
    rw [hs, byteSize_append]
    rfl
  obtain ⟨slash, hslash, hgt, hname⟩ := skipSlash_eq form hbehind hstart
  have hnamed : text = (front ++ ['<'] ++ slash) ++ Tag.afterSlash form r := by
    rw [List.append_assoc, ← hslash]
    exact hbehind
  rw [scanTag, hname, ok_bind, sliceFrom_eq hnamed rfl, ok_bind, startsIgnoreCase_eq ha, ok_bind]
  cases hstarts : startsFold name (Tag.afterSlash form r) with
  | false => exact .inl ⟨rfl, Tag.strip_cons_of_eq_false hstarts⟩
  | true =>
    rw [if_pos rfl]
    rcases exists_first (· == '>') (Tag.afterSlash form r) with
      hnone | ⟨inner, c, back, hafter, hinner, hc⟩
    · have hclose : '>' ∉ '<' :: r := by
        rw [hslash, List.mem_cons, List.mem_append]
        rintro (h | h | h)
        · exact absurd h (by decide)
        · exact hgt h
        · exact absurd (hnone _ h) (by decide)
      rw [seekChar_eq_none hnone]
      exact .inr (.inl ⟨rfl, Tag.strip_eq_self hclose⟩)
    · obtain rfl := beq_iff_eq.1 hc
      have hclose : '>' ∉ slash ++ inner := by
        rw [List.mem_append, not_or]
        exact ⟨hgt, fun hm => absurd (hinner _ hm) (by decide)⟩
      have hr : r = slash ++ inner ++ '>' :: back := by
        rw [List.append_assoc, ← hafter]
        exact hslash
      have hstop : byteSize (front ++ ['<'] ++ slash) + byteSize inner + 1 =
          byteSize (front ++ '<' :: (slash ++ inner ++ ['>'])) := by
        have hsplit : front ++ '<' :: (slash ++ inner ++ ['>']) =
            front ++ ['<'] ++ slash ++ inner ++ ['>'] := by simp
        rw [hsplit, byteSize_append _ ['>'], byteSize_append _ inner]
        rfl
      refine .inr (.inr ⟨slash ++ inner, back, hr, ?_, ?_⟩)
      · rw [hafter, seekChar_eq_some hinner hc, ← hstop]
        rfl
      · rw [hr] at hstarts ⊢
        exact Tag.strip_cons_of_eq_true hclose hstarts

/-- Removing tags from a boundary on keeps to the rules and ends within as many rounds as there are
characters left. What lies between the two places is kept. -/
theorem stripLoop_eq {form : TagForm} {name : Text} (ha : IsAscii name)
    {text front kept rest : Text} {rounds : Nat} (ht : text = front ++ (kept ++ rest))
    (hr : rest.length < rounds) :
    stripLoop form name text rounds (byteSize front) (byteSize (front ++ kept)) =
      .ok (kept ++ Tag.strip form name rest) := by
  induction rounds generalizing front kept rest with
  | zero => exact absurd hr (Nat.not_lt_zero _)
  | succ rounds ih =>
    have hcursor : sliceFrom text (byteSize front) = .ok (kept ++ rest) := sliceFrom_eq ht rfl
    rw [stripLoop, sliceFrom_eq (ht.trans (List.append_assoc _ _ _).symm) rfl, ok_bind]
    rcases exists_first (· == '<') rest with hnone | ⟨before, c, r, rfl, hbefore, hc⟩
    · have hlt : '<' ∉ rest := fun hm => absurd (hnone _ hm) (by decide)
      rw [seekChar_eq_none hnone, Tag.strip_of_notMem hlt]
      exact hcursor
    · obtain rfl := beq_iff_eq.1 hc
      have hlt : '<' ∉ before := fun hm => absurd (hbefore _ hm) (by decide)
      have hstart : byteSize (front ++ kept) + byteSize before =
          byteSize (front ++ kept ++ before) := (byteSize_append _ _).symm
      have hat : text = (front ++ kept ++ before) ++ '<' :: r := by
        rw [ht]
        simp only [List.append_assoc]
      simp only [List.length_append, List.length_cons] at hr
      rw [seekChar_eq_some hbefore hc, Tag.strip_append hlt]
      dsimp only
      rcases scanTag_cases form ha hat hstart with
        ⟨hscan, hstrip⟩ | ⟨hscan, hstrip⟩ | ⟨inner, back, rfl, hscan, hstrip⟩
      · have hkept : text = front ++ ((kept ++ before ++ ['<']) ++ r) := by
          rw [ht]
          simp
        have hsearch : byteSize (front ++ kept) + byteSize before + 1 =
            byteSize (front ++ (kept ++ before ++ ['<'])) := by
          rw [hstart, ← List.append_assoc, ← List.append_assoc, byteSize_append _ ['<']]
          rfl
        rw [hscan, ok_bind]
        dsimp only
        rw [hsearch, ih hkept (by omega), hstrip]
        simp
      · rw [hscan, ok_bind, hstrip]
        exact hcursor
      · have hkept : slice text (byteSize front) (byteSize (front ++ kept) + byteSize before) =
            .ok (kept ++ before) := by
          refine slice_eq_ok_iff.2 ⟨front, '<' :: (inner ++ '>' :: back), ?_, rfl, ?_⟩
          · rw [ht]
            simp
          · rw [byteSize_append, byteSize_append, Nat.add_assoc]
        have hback : text = (front ++ kept ++ before ++ '<' :: (inner ++ ['>'])) ++
            ([] ++ back) := by
          rw [ht]
          simp
        simp only [List.length_append, List.length_cons] at hr
        have hleft := ih hback (by omega)
        rw [List.append_nil] at hleft
        rw [hscan, ok_bind]
        dsimp only
        rw [hkept, ok_bind, hleft, ok_bind, hstrip, List.nil_append, List.append_assoc]
        rfl

/-- Removing tags keeps to the rules. -/
theorem stripTags_eq (form : TagForm) {name : Text} (ha : IsAscii name) (text : Text) :
    stripTags form name text = .ok (Tag.strip form name text) := by
  have hrounds : text.length < byteSize text + 1 := Nat.lt_succ_of_le (length_le_byteSize text)
  have h : text = [] ++ ([] ++ text) := rfl
  exact stripLoop_eq ha h hrounds

/-! ## Runs of blank characters -/

/-- Squeezing a run keeps to the rules. -/
theorem squeezeRun_eq (run : Text) : squeezeRun run = .ok (squeeze run) := by
  unfold squeezeRun squeeze
  split
  · rename_i hcount
    have hfeed : '\n' ∈ run := List.count_pos_iff.1 (by omega)
    obtain ⟨front, back, hfirst, hfront⟩ : ∃ front back, run = front ++ '\n' :: back ∧
        ∀ c ∈ front, (c == '\n') = false := by
      rcases exists_first (· == '\n') run with hnone | ⟨front, c, back, he, hf, hc⟩
      · exact absurd (hnone _ hfeed) (by decide)
      · exact ⟨front, back, beq_iff_eq.1 hc ▸ he, hf⟩
    obtain ⟨front', back', hlast, hback⟩ : ∃ front' back', run = front' ++ '\n' :: back' ∧
        ∀ c ∈ back', (c == '\n') = false := by
      rcases exists_first (· == '\n') run.reverse with hnone | ⟨back, c, front, he, hb, hc⟩
      · exact absurd (hnone _ (List.mem_reverse.2 hfeed)) (by decide)
      · refine ⟨front.reverse, back.reverse, ?_, fun d hd => hb d (List.mem_reverse.1 hd)⟩
        rw [← List.reverse_reverse run, he, beq_iff_eq.1 hc]
        simp
    have hbefore : beforeFirstFeed run = front := by
      rw [hfirst]
      exact beforeFirstFeed_append (fun hm => absurd (hfront _ hm) (by decide)) back
    have hafter : afterLastFeed run = back' := by
      rw [hlast]
      exact afterLastFeed_append front' fun hm => absurd (hback _ hm) (by decide)
    have hpos : 1 ≤ byteSize run := by
      have hl := length_le_byteSize run
      have hc := List.count_le_length (a := '\n') (l := run)
      omega
    have hseek : seekChar (· == '\n') run = some (byteSize front) := by
      rw [hfirst]
      exact seekChar_eq_some hfront rfl
    have hseekLast : seekLast (· == '\n') run = some (byteSize front') := by
      rw [hlast]
      exact seekLast_eq_some hback rfl
    have hbehind : sliceFrom run (byteSize front' + 1) = .ok back' := by
      have hsplit : run = (front' ++ ['\n']) ++ back' := by
        rw [hlast]
        simp
      exact sliceFrom_eq hsplit (byteSize_append front' ['\n']).symm
    rw [minus_eq_ok hpos, ok_bind, hseek, hseekLast, Option.getD_some, Option.getD_some,
      sliceTo_eq hfirst rfl, ok_bind, hbehind, hbefore, hafter]
    rfl
  · rfl

/-- A run of blank characters ends before the first character that is not blank, or else with the
text. -/
theorem exists_run (text : Text) : ∃ run tail, text = run ++ tail ∧
    (∀ c ∈ run, isBlank c = true) ∧ (∀ c ∈ tail.head?, isBlank c = false) ∧
      (seekChar (fun c => !isBlank c) text).getD (byteSize text) = byteSize run := by
  rcases exists_first (fun c => !isBlank c) text with hall | ⟨run, d, tail, he, hf, hd⟩
  · refine ⟨text, [], (List.append_nil _).symm, fun c hc => by simpa using hall c hc,
      fun c hc => by simp at hc, ?_⟩
    rw [seekChar_eq_none hall]
    rfl
  · refine ⟨run, d :: tail, he, fun c hc => by simpa using hf c hc, ?_, ?_⟩
    · rintro _ ⟨⟩
      simpa using hd
    · rw [he, seekChar_eq_some hf hd]
      rfl

/-- Squeezing runs keeps to the rules and ends within as many rounds as there are characters
left. -/
theorem collapseLoop_eq {rounds : Nat} {rest : Text} (hr : rest.length < rounds) :
    collapseLoop rounds rest = .ok (collapse rest) := by
  induction rounds generalizing rest with
  | zero => exact absurd hr (Nat.not_lt_zero _)
  | succ rounds ih =>
    rw [collapseLoop]
    rcases exists_first isBlank rest with hnone | ⟨before, c, r, rfl, hbefore, hc⟩
    · rw [seekChar_eq_none hnone, collapse_eq_self hnone]
      rfl
    · rw [seekChar_eq_some hbefore hc]
      dsimp only
      have hsize : byteSize (before ++ c :: r) - byteSize before = byteSize (c :: r) := by
        rw [byteSize_append]
        omega
      have hle : byteSize before ≤ byteSize (before ++ c :: r) := by
        rw [byteSize_append]
        omega
      obtain ⟨run, tail, hsplit, hrun, htail, hstop⟩ := exists_run (c :: r)
      have hne : run ≠ [] := by
        rintro rfl
        rw [List.nil_append] at hsplit
        rw [htail c (by rw [← hsplit]; rfl)] at hc
        contradiction
      have hlength := congrArg List.length hsplit
      rw [List.length_append] at hr hlength
      have hpos := List.length_pos_iff.2 hne
      have hslice : slice (before ++ c :: r) (byteSize before) (byteSize before + byteSize run) =
          .ok run :=
        slice_eq (by rw [hsplit, List.append_assoc]) rfl rfl
      have htailSlice : sliceFrom (before ++ c :: r) (byteSize before + byteSize run) = .ok tail :=
        sliceFrom_eq (by rw [hsplit, List.append_assoc]) (byteSize_append _ _).symm
      have hcollapse : collapse (before ++ c :: r) = before ++ squeeze run ++ collapse tail := by
        rw [hsplit, ← List.append_assoc, collapse_of_run hbefore hne hrun htail]
      rw [sliceTo_eq rfl rfl, ok_bind, sliceFrom_eq rfl rfl, ok_bind, minus_eq_ok hle, ok_bind,
        hsize, hstop, hslice, ok_bind, squeezeRun_eq, ok_bind, htailSlice, ok_bind,
        ih (by omega), ok_bind, hcollapse]
      rfl

/-- Collapsing keeps to the rules. -/
theorem collapseBlankLines_eq (text : Text) : collapseBlankLines text = .ok (collapse text) :=
  collapseLoop_eq (Nat.lt_succ_of_le (length_le_byteSize text))

end VueSfc.Offset
