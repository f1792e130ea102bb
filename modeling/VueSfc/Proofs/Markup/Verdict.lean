import VueSfc.Proofs.Offset.Page
import VueSfc.Proofs.Text.LetterCase

/-!
# The verdict on a template

A template is accepted, or it is turned down for the first of three reasons that holds of it. Only
the first `<` with a letter behind it is looked at, but a `>` behind a later one stands behind the
first one as well, so an element is found wherever there is one. A keyword ends at the first
character that is no letter, so a text opens with one keyword at most.
-/

namespace VueSfc.Markup.Template

open Text

/-- A `<` stands right before an ASCII letter, and a `>` anywhere behind the two. -/
def ShowsElement (text : Text) : Prop :=
  ∃ i j c, text[i]? = some '<' ∧ text[i + 1]? = some c ∧ c.isAlpha = true ∧ i + 2 ≤ j ∧
    text[j]? = some '>'

/-- The text begins with a keyword of source code, in any letter case, and right behind it stands a
blank character. -/
def OpensAsCode (text keyword : Text) : Prop :=
  keyword ∈ (["const", "let", "var", "function", "class", "import", "export"] : List Text) ∧
    ∃ word c rest, text = word ++ c :: rest ∧ eqFold keyword word = true ∧ isBlank c = true

/-- What is said of a template. -/
inductive IsVerdict (text : Text) : Except TemplateFault Unit → Prop
  /-- There is nothing but blank characters. -/
  | empty (blank : ∀ c ∈ text, isBlank c = true) : IsVerdict text (.error .empty)
  /-- There is something else, but no element. -/
  | noElements (content : ∃ c ∈ text, isBlank c = false) (h : ¬ ShowsElement text) :
      IsVerdict text (.error (.notMarkup .noElements))
  /-- There is an element, but the text opens as code does. -/
  | code {keyword : Text} (content : ∃ c ∈ text, isBlank c = false) (element : ShowsElement text)
      (h : OpensAsCode text keyword) :
      IsVerdict text (.error (.notMarkup (.startsLikeCode keyword)))
  /-- There is an element, and the text does not open as code does. -/
  | accepted (content : ∃ c ∈ text, isBlank c = false) (element : ShowsElement text)
      (h : ∀ keyword, ¬ OpensAsCode text keyword) : IsVerdict text (.ok ())

variable {text keyword : Text}

/-! ## Elements -/

/-- The search for an element finds one just when there is one anywhere. -/
theorem hasElementSyntax_iff (text : Text) : hasElementSyntax text = true ↔ ShowsElement text := by
  induction text using hasElementSyntax.induct with
  | case1 => simp [hasElementSyntax, ShowsElement]
  | case2 c => simp [hasElementSyntax, ShowsElement]
  | case3 c d text h =>
    rw [hasElementSyntax, if_pos h, List.contains_iff_mem]
    obtain ⟨hc, hd⟩ := Bool.and_eq_true_iff.1 h
    constructor
    · intro hm
      obtain ⟨k, hk⟩ := List.mem_iff_getElem?.1 hm
      exact ⟨0, k + 2, d, by rw [beq_iff_eq.1 hc]; rfl, rfl, hd, Nat.le_add_left _ _, hk⟩
    · -- Wherever the element begins, its end stands behind the first two characters.
      rintro ⟨i, j, -, -, -, -, hj, hend⟩
      obtain ⟨k, rfl⟩ := Nat.exists_eq_add_of_le' (Nat.le_of_add_left_le hj)
      exact List.mem_of_getElem? hend
  | case4 c d text h ih =>
    rw [hasElementSyntax, if_neg h, ih]
    constructor
    · rintro ⟨i, j, e, hi, he, ha, hj, hend⟩
      exact ⟨i + 1, j + 1, e, hi, he, ha, Nat.succ_le_succ hj, hend⟩
    · rintro ⟨i, j, e, hi, he, ha, hj, hend⟩
      cases i with
      | zero =>
        obtain rfl : c = '<' := Option.some.inj hi
        obtain rfl : d = e := Option.some.inj he
        exact absurd (Bool.and_eq_true_iff.2 ⟨rfl, ha⟩) h
      | succ i =>
        obtain ⟨k, rfl⟩ := Nat.exists_eq_add_of_le' (Nat.le_of_add_left_le hj)
        exact ⟨i, k + 1, e, hi, he, ha, by omega, hend⟩

/-! ## Keywords -/

/-- A keyword is found in front of a blank character just when the text opens with it. -/
theorem opensWith_iff : opensWith text keyword = true ↔ ∃ word c rest, text = word ++ c :: rest ∧
    eqFold keyword word = true ∧ isBlank c = true := by
  rw [opensWith, Bool.and_eq_true, startsFold_iff]
  constructor
  · rintro ⟨⟨word, back, rfl, hw⟩, hb⟩
    rw [← length_eq_of_eqFold hw, List.drop_left] at hb
    cases back with
    | nil => contradiction
    | cons c rest => exact ⟨word, c, rest, rfl, hw, hb⟩
  · rintro ⟨word, c, rest, rfl, hw, hc⟩
    refine ⟨⟨word, c :: rest, rfl, hw⟩, ?_⟩
    rw [← length_eq_of_eqFold hw, List.drop_left]
    exact hc

/-- A text opens as code with those words that are tried on it. -/
theorem opensAsCode_iff : OpensAsCode text keyword ↔
    keyword ∈ codeKeywords ∧ opensWith text keyword = true :=
  and_congr Iff.rfl opensWith_iff.symm

/-- The keyword of a text that opens as code are its first letters, in lower case. -/
theorem OpensAsCode.eq (h : OpensAsCode text keyword) :
    keyword = lowerAscii (text.takeWhile Char.isAlpha) := by
  have hplain : ∀ k ∈ codeKeywords, lowerAscii k = k ∧ k.all Char.isAlpha = true := by decide
  obtain ⟨hlower, hletters⟩ := hplain keyword (opensAsCode_iff.1 h).1
  obtain ⟨-, word, c, rest, rfl, hw, hc⟩ := h
  have hword : lowerAscii word = keyword := (eqFold_iff.1 hw).symm.trans hlower
  have halpha : ∀ d ∈ word, d.isAlpha = true := by
    intro d hd
    have hd' : d.toLower ∈ keyword := hword ▸ List.mem_map_of_mem hd
    exact (Char.isAlpha_toLower_eq_isAlpha d).symm.trans (List.all_eq_true.1 hletters _ hd')
  have hstop : ¬ c.isAlpha = true := fun ha => by
    rw [isBlank_eq_false_of_isAlpha ha] at hc
    contradiction
  rw [List.takeWhile_append_of_pos halpha, List.takeWhile_cons_of_neg hstop, List.append_nil, hword]

/-- The keyword that is looked for is the one that the text opens with. -/
theorem leadingKeyword?_eq_some_iff : leadingKeyword? text = some keyword ↔
    OpensAsCode text keyword := by
  have hopens {found : Text} (hf : leadingKeyword? text = some found) : OpensAsCode text found :=
    opensAsCode_iff.2 ⟨List.mem_of_find?_eq_some hf, List.find?_some hf⟩
  refine ⟨hopens, fun h => ?_⟩
  obtain ⟨hm, hw⟩ := opensAsCode_iff.1 h
  cases hf : leadingKeyword? text with
  | none => exact absurd hw (List.find?_eq_none.1 hf keyword hm)
  | some found => rw [(hopens hf).eq, h.eq]

/-- No keyword is found just when the text opens with none. -/
theorem leadingKeyword?_eq_none_iff : leadingKeyword? text = none ↔
    ∀ keyword, ¬ OpensAsCode text keyword := by
  simp only [Option.eq_none_iff_forall_ne_some, Ne, leadingKeyword?_eq_some_iff]

/-! ## Verdicts -/

/-- Checking a template gives a verdict on it. -/
theorem isVerdict_check (text : Text) : IsVerdict text (check text) := by
  rw [check]
  cases hb : allBlank text with
  | true => exact .empty (List.all_eq_true.1 hb)
  | false =>
    have hcontent : ∃ c ∈ text, isBlank c = false := by
      simpa [allBlank] using hb
    rw [if_neg Bool.false_ne_true]
    cases he : hasElementSyntax text with
    | false =>
      refine .noElements hcontent fun hs => ?_
      rw [(hasElementSyntax_iff text).2 hs] at he
      contradiction
    | true =>
      have helement := (hasElementSyntax_iff text).1 he
      cases hk : leadingKeyword? text with
      | none => exact .accepted hcontent helement (leadingKeyword?_eq_none_iff.1 hk)
      | some keyword => exact .code hcontent helement (leadingKeyword?_eq_some_iff.1 hk)

/-- There is one verdict on a template. -/
theorem IsVerdict.unique {verdict other : Except TemplateFault Unit} (h : IsVerdict text verdict)
    (ho : IsVerdict text other) : verdict = other := by
  have hclash : (∃ c ∈ text, isBlank c = false) → ¬ ∀ c ∈ text, isBlank c = true := by
    rintro ⟨c, hm, hc⟩ hblank
    rw [hblank c hm] at hc
    contradiction
  cases h with
  | empty blank =>
    cases ho with
    | empty => rfl
    | noElements content | code content | accepted content => exact absurd blank (hclash content)
  | noElements content none =>
    cases ho with
    | empty blank => exact absurd blank (hclash content)
    | noElements => rfl
    | code _ element | accepted _ element => exact absurd element none
  | code content element opens =>
    cases ho with
    | empty blank => exact absurd blank (hclash content)
    | noElements _ none => exact absurd element none
    | code _ _ opens' => rw [opens.eq, opens'.eq]
    | accepted _ _ plain => exact absurd opens (plain _)
  | accepted content element plain =>
    cases ho with
    | empty blank => exact absurd blank (hclash content)
    | noElements _ none => exact absurd element none
    | code _ _ opens => exact absurd opens (plain _)
    | accepted => rfl

/-- A template is checked with some result just when that is the verdict on it. -/
theorem check_eq_iff {verdict : Except TemplateFault Unit} :
    check text = verdict ↔ IsVerdict text verdict :=
  ⟨fun h => h ▸ isVerdict_check text, fun h => (isVerdict_check text).unique h⟩

/-- Templates are judged exactly. A text is empty just when all its characters are blank. Any other
text has no elements just when no `<` stands before a letter with a `>` somewhere behind the two.
A text with an element looks like code just when it opens with a keyword and a blank character, in
any letter case, which it does with one keyword at most, and it is accepted when it opens with none.
The search that goes over the bytes of the text and cuts it behind the keyword never cuts a
character, and comes to the same verdict. -/
theorem template_verdict_is_exact (text : Text) :
    (check text = .error .empty ↔ ∀ c ∈ text, isBlank c = true) ∧
      (check text = .error (.notMarkup .noElements) ↔
        (∃ c ∈ text, isBlank c = false) ∧ ¬ ShowsElement text) ∧
      (∀ keyword, check text = .error (.notMarkup (.startsLikeCode keyword)) ↔
        (∃ c ∈ text, isBlank c = false) ∧ ShowsElement text ∧ OpensAsCode text keyword) ∧
      (∀ keyword other, OpensAsCode text keyword → OpensAsCode text other → keyword = other) ∧
      (check text = .ok () ↔
        (∃ c ∈ text, isBlank c = false) ∧ ShowsElement text ∧
          ∀ keyword, ¬ OpensAsCode text keyword) ∧
      Offset.checkTemplate text = .ok (check text) := by
  refine ⟨check_eq_iff.trans ⟨?_, .empty⟩, check_eq_iff.trans ⟨?_, fun h => .noElements h.1 h.2⟩,
    fun keyword => check_eq_iff.trans ⟨?_, fun h => .code h.1 h.2.1 h.2.2⟩,
    fun keyword other h ho => h.eq.trans ho.eq.symm,
    check_eq_iff.trans ⟨?_, fun h => .accepted h.1 h.2.1 h.2.2⟩, Offset.checkTemplate_eq text⟩
  · rintro (blank | _)
    exact blank
  · rintro (_ | ⟨content, none⟩)
    exact ⟨content, none⟩
  · rintro (_ | _ | ⟨content, element, opens⟩)
    exact ⟨content, element, opens⟩
  · rintro (_ | _ | _ | ⟨content, element, plain⟩)
    exact ⟨content, element, plain⟩

end VueSfc.Markup.Template
