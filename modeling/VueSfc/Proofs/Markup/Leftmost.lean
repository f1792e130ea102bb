import VueSfc.Proofs.Offset.Markup
import VueSfc.Proofs.Text.Cutting

/-!
# Elements and tags taken out one by one

Taking out the elements of a name cuts a text up in the one way in which no opening word stands in
front of an element that is taken out, each element ends at the first closing tag behind its opening
tag, and no element is left behind the last one. Removing the tags of a name cuts it up in the one
way in which none of their opening words stands in front of a tag that is removed, and no tag is
left behind the last one. The loop over the elements ends since each round goes on behind an
element.
-/

namespace VueSfc.Markup

open Text Offset

/-! ## Elements -/

namespace Element

/-- An opening word of the name stands in the text, with a `>` and then a closing tag somewhere
behind it. -/
def HoldsElement (name text : Text) : Prop :=
  ∃ front word middle close back : Text, text = front ++ (word ++ middle ++ close ++ back) ∧
    eqFold (opening name) word = true ∧ '>' ∈ middle ∧ eqFold (closing name) close = true

/-- Elements are taken out from left to right. -/
def elementRule (name : Text) : CutRule Element where
  write := Element.text
  IsPart stretch e _ := e.IsNamed name ∧ ¬ OccursFold (opening name) stretch
  IsLast stretch := ¬ HoldsElement name stretch

/-- An element of the name is held by every text it ends or stands in. -/
theorem IsNamed.holdsElement {name : Text} {e : Element} (h : e.IsNamed name) (front back : Text) :
    HoldsElement name (front ++ (e.text ++ back)) := by
  obtain ⟨word, attributes, ho, hw, -⟩ := h.openTag
  refine ⟨front, word, attributes ++ ['>'] ++ e.content, e.closeTag, back, ?_, hw, by simp,
    h.closeTag⟩
  rw [Element.text, ho]
  simp only [List.append_assoc]

/-- The cutter of elements takes them out from left to right. -/
theorem follows_elementRule {name : Text} (hn : IsPlainName name) :
    (cutter name).Follows (elementRule name) where
  find?_eq_none {text} := by
    rw [Cutter.find?_eq_none_iff]
    constructor
    · rintro hnone ⟨front, word, middle, close, back, rfl, hw, hm, hc⟩
      exact read?_ne_none hw hm hc (hnone _ (List.suffix_append _ _))
    · rintro hlast s ⟨front, rfl⟩
      cases hr : (cutter name).read? s with
      | none => rfl
      | some found =>
        obtain ⟨rfl, hnamed⟩ := (read?_eq_some_iff hn).1 hr
        exact absurd (hnamed.holdsElement front found.2) hlast
  find?_eq_some {text stretch e rest} := by
    rw [Cutter.find?_eq_some_iff]
    constructor
    · rintro ⟨tail, rfl, hread, hnone⟩
      obtain ⟨rfl, hnamed⟩ := (read?_eq_some_iff hn).1 hread
      refine ⟨rfl, hnamed, fun ho => ?_⟩
      obtain ⟨front, s, rfl, hstart⟩ := occursFold_iff.1 ho
      have hne : s ≠ [] := by
        rintro rfl
        exact Bool.false_ne_true hstart
      -- What would be read at the word in front ends no later than the element behind it.
      have hafter := read?_eq_none_of_suffix (startsFold_append hstart (e.text ++ rest))
        (hnone s (List.suffix_append _ _) hne) (List.suffix_append _ _)
      rw [(read?_eq_some_iff hn).2 ⟨rfl, hnamed⟩] at hafter
      contradiction
    · rintro ⟨rfl, hnamed, hfree⟩
      refine ⟨e.text ++ rest, rfl, (read?_eq_some_iff hn).2 ⟨rfl, hnamed⟩, fun s hs hne => ?_⟩
      obtain ⟨word, attributes, ho, hw, -⟩ := hnamed.openTag
      obtain ⟨tail, rfl, -⟩ := (isTagWord_opening hn).exists_cons hw
      refine read?_append_eq_none hn hfree hs hne ?_
      rw [Element.text, ho]
      rintro _ ⟨⟩
      rfl

/-- A text is cut at an offset or behind it. -/
theorem le_byteSize_of_cutAtByte? {n : Nat} {text front back : Text}
    (h : cutAtByte? n text = some (front, back)) : n ≤ byteSize front := by
  induction text generalizing n front with
  | nil =>
    cases n with
    | zero => exact Nat.zero_le _
    | succ n => simp [cutAtByte?] at h
  | cons c text ih =>
    cases n with
    | zero => exact Nat.zero_le _
    | succ n =>
      rw [cutAtByte?] at h
      obtain ⟨⟨front', back'⟩, hf, he⟩ := Option.map_eq_some_iff.1 h
      simp only [Prod.mk.injEq] at he
      obtain ⟨rfl, rfl⟩ := he
      have hle := ih hf
      rw [byteSize]
      omega

/-- An element that is found from an offset on begins there or behind, and ends further behind,
within the text. -/
theorem findFrom?_advances {name text : Text} {start : Nat} {span : Span}
    (h : findFrom? name text start = some span) :
    start ≤ span.start ∧ span.start < span.stop ∧ span.stop ≤ byteSize text := by
  obtain ⟨⟨skipped, rest⟩, hcut, h⟩ := Option.bind_eq_some_iff.1 h
  obtain ⟨⟨front, e, back⟩, hfind, rfl⟩ := Option.map_eq_some_iff.1 h
  obtain ⟨tail, rfl, hread⟩ := Cutter.exists_of_find? hfind
  have hskipped := le_byteSize_of_cutAtByte? hcut
  have hopen : 0 < byteSize e.openTag := by
    have hlength := List.length_pos_iff.2 (openTag_ne_nil_of_read? hread)
    exact Nat.lt_of_lt_of_le hlength (length_le_byteSize _)
  have hsize : byteSize text = byteSize skipped + (byteSize front +
      (byteSize e.openTag + byteSize e.content + byteSize e.closeTag + byteSize back)) := by
    rw [append_of_cutAtByte? hcut, text_append_of_read? hread, Element.text]
    simp only [byteSize_append]
  simp only [spanAt]
  omega

/-- The names of the elements that are taken out of pages. -/
def excisedNames : List Text := ["style", "script", "head", "title"]

private theorem facts_of_mem_excisedNames {name : Text} (hn : name ∈ excisedNames) :
    IsPlainName name ∧ IsAscii name := by
  simp only [excisedNames, List.mem_cons, List.not_mem_nil, or_false] at hn
  rcases hn with rfl | rfl | rfl | rfl <;> decide

/-- Taking the elements of a name out of a text cuts it up from left to right, in the only way there
is: what is left are the stretches, and the contents come in the order of the elements. The search
from any offset leads behind an element, and so the loop ends, in one round more than there are
elements. -/
theorem elements_are_taken_leftmost {name : Text} (hn : name ∈ excisedNames) (text : Text) :
    (∃ c : Cutting Element, (elementRule name).Cuts text c ∧ c.text Element.text = text ∧
      excise name text = (c.kept, c.pieces.map content) ∧
      (∀ other, (elementRule name).Cuts text other → other = c) ∧
      ∀ rounds, c.pieces.length < rounds →
        exciseLoop name text rounds 0 = .ok (c.kept, c.pieces.map content)) ∧
    ∀ cursor span, findElement name text cursor = .ok (some span) →
      cursor ≤ span.start ∧ span.start < span.stop ∧ span.stop ≤ byteSize text := by
  obtain ⟨hplain, hascii⟩ := facts_of_mem_excisedNames hn
  constructor
  · obtain ⟨c, hcuts, hcut, hunique⟩ := (follows_elementRule hplain).exists_unique text
    have hexcise : excise name text = (c.kept, c.pieces.map content) := by
      rw [excise, hcut]
    refine ⟨c, hcuts, hcuts.text_eq, hexcise, hunique, fun rounds hr => ?_⟩
    have hlength : (excise name text).2.length < rounds := by
      rwa [hexcise, List.length_map]
    have hsplit : text = [] ++ text := rfl
    exact (exciseLoop_eq hascii hsplit hlength).trans (congrArg Except.ok hexcise)
  · intro cursor span hfound
    rw [findElement_eq hascii, Except.ok.injEq] at hfound
    exact findFrom?_advances hfound

/-- A style element in mixed case with another opening tag in its content, and one that does not
end. -/
def openStylePage : Text := "a<STYLE x>b<style>c</Style>d</style><style e>f"

/-- One element is taken out, from the first opening tag to the first closing tag. -/
theorem openStylePage_is_cut_up :
    "style".toList ∈ excisedNames ∧ ∃ c : Cutting Element,
      (elementRule "style").Cuts openStylePage c ∧ c.kept = "ad</style><style e>f".toList ∧
      c.pieces.map content = ["b<style>c".toList] ∧
      exciseLoop "style" openStylePage 2 0 = .ok (c.kept, c.pieces.map content) := by
  have hname : "style".toList ∈ excisedNames := by decide
  obtain ⟨⟨c, hcuts, -, hexcise, -, hloop⟩, -⟩ := elements_are_taken_leftmost hname openStylePage
  have hvalue : excise "style" openStylePage =
      ("ad</style><style e>f".toList, ["b<style>c".toList]) := by decide +kernel
  rw [hvalue, Prod.mk.injEq] at hexcise
  have hpieces : c.pieces.length < 2 := by
    have hlength := congrArg List.length hexcise.2
    rw [List.length_map] at hlength
    exact hlength ▸ Nat.lt_succ_self 1
  exact ⟨hname, c, hcuts, hexcise.1.symm, hexcise.2.symm, hloop 2 hpieces⟩

end Element

/-! ## Tags -/

namespace Tag

open Element (IsPlainName)

/-- What the tags of a form and name begin with. -/
def openings : TagForm → Text → List Text
  | .opening, name => ['<' :: name]
  | .openingOrClosing, name => ['<' :: name, '<' :: '/' :: name]

/-- A tag of the form and name as written: an opening word in any letter case, what follows it, and
the first `>`. -/
def IsTag (form : TagForm) (name tag : Text) : Prop :=
  ∃ opening ∈ openings form name, ∃ word attributes, tag = word ++ attributes ++ ['>'] ∧
    eqFold opening word = true ∧ '>' ∉ attributes

/-- Tags are removed from left to right. -/
def tagRule (form : TagForm) (name : Text) : CutRule Text where
  write := id
  IsPart stretch tag _ :=
    IsTag form name tag ∧ ∀ opening ∈ openings form name, ¬ OccursFold opening stretch
  IsLast stretch := ∀ tag, IsTag form name tag → ¬ tag <:+: stretch

variable {form : TagForm} {name : Text}

/-- A word with `<` in front stands in front of a text that has a `<` and then the word. -/
private theorem startsFold_cons_iff {c : Char} (hc : c.isAlpha = false) {word source : Text} :
    startsFold (c :: word) source = true ↔
      ∃ rest, source = c :: rest ∧ startsFold word rest = true := by
  cases source with
  | nil => simp [startsFold]
  | cons d rest =>
    rw [startsFold, Bool.and_eq_true, sameFold_iff hc]
    constructor
    · rintro ⟨rfl, h⟩
      exact ⟨rest, rfl, h⟩
    · rintro ⟨rest', he, h⟩
      obtain ⟨rfl, rfl⟩ := List.cons.inj he
      exact ⟨rfl, h⟩

/-- An opening word stands in front of a text just when the name stands behind its `<` and, where
closing tags are meant and there is one, a slash. -/
theorem startsFold_openings_iff (form : TagForm) (hs : '/' ∉ name) {source : Text} :
    (∃ opening ∈ openings form name, startsFold opening source = true) ↔
      ∃ rest, source = '<' :: rest ∧ startsFold name (afterSlash form rest) = true := by
  cases form with
  | opening =>
    simp only [openings, List.mem_singleton, exists_eq_left, afterSlash]
    exact startsFold_cons_iff rfl
  | openingOrClosing =>
    simp only [openings, List.mem_cons, List.not_mem_nil, or_false, exists_eq_or_imp,
      exists_eq_left, startsFold_cons_iff (c := '<') rfl, startsFold_cons_iff (c := '/') rfl]
    constructor
    · rintro (⟨rest, rfl, h⟩ | ⟨_, rfl, rest, rfl, h⟩)
      · refine ⟨rest, rfl, ?_⟩
        rcases afterSlash_cases rest with ⟨r, rfl, he⟩ | ⟨-, he⟩
        · -- Only the empty name stands in front of a slash.
          have hnil : startsFold name [] = true :=
            startsFold_of_startsFold_append_cons hs rfl h
          exact startsFold_append hnil _
        · rwa [he]
      · exact ⟨'/' :: rest, rfl, h⟩
    · rintro ⟨rest, rfl, h⟩
      rcases afterSlash_cases rest with ⟨r, rfl, he⟩ | ⟨-, he⟩
      · exact .inr ⟨_, rfl, r, rfl, he ▸ h⟩
      · exact .inl ⟨rest, rfl, he ▸ h⟩

/-- Opening words are tag words. -/
theorem isTagWord_of_mem_openings (hn : IsPlainName name) {opening : Text}
    (ho : opening ∈ openings form name) : IsTagWord opening ∧ '>' ∉ opening := by
  have hopen : IsTagWord ('<' :: name) ∧ '>' ∉ '<' :: name :=
    ⟨⟨rfl, hn.1⟩, by simp [hn.2]⟩
  have hclose : IsTagWord ('<' :: '/' :: name) ∧ '>' ∉ '<' :: '/' :: name :=
    ⟨⟨rfl, by simp [hn.1]⟩, by simp [hn.2]⟩
  cases form with
  | opening =>
    rw [List.mem_singleton.1 ho]
    exact hopen
  | openingOrClosing =>
    rcases List.mem_cons.1 ho with rfl | ho
    · exact hopen
    · rw [List.mem_singleton.1 ho]
      exact hclose

/-- Tags are what is read at the front of a text. -/
theorem read?_eq_some_iff_isTag (hn : IsPlainName name) (hs : '/' ∉ name) {source tag rest : Text} :
    read? form name source = some (tag, rest) ↔ source = tag ++ rest ∧ IsTag form name tag := by
  rw [read?_eq_some_iff hn.2]
  refine and_congr_right fun _ => ?_
  constructor
  · rintro ⟨inner, rfl, hi, hname⟩
    obtain ⟨opening, ho, hstart⟩ :=
      (startsFold_openings_iff form hs).2 ⟨inner, rfl, hname⟩
    obtain ⟨word, attributes, hsplit, hw⟩ := startsFold_iff.1 hstart
    refine ⟨opening, ho, word, attributes, by rw [← hsplit]; rfl, hw, fun ha => ?_⟩
    have hmem : '>' ∈ '<' :: inner := hsplit ▸ List.mem_append_right word ha
    exact hi ((List.mem_cons.1 hmem).resolve_left (by decide))
  · rintro ⟨opening, ho, word, attributes, rfl, hw, ha⟩
    obtain ⟨inner, hsplit, hname⟩ := (startsFold_openings_iff form hs).1
      ⟨opening, ho, startsFold_append_of_eqFold hw attributes⟩
    refine ⟨inner, by rw [hsplit, List.cons_append], fun hi => ?_, hname⟩
    have hmem : '>' ∈ word ++ attributes := hsplit ▸ List.mem_cons_of_mem '<' hi
    rcases List.mem_append.1 hmem with hm | hm
    · exact (isTagWord_of_mem_openings hn ho).2 ((mem_iff_of_eqFold rfl hw).1 hm)
    · exact ha hm

/-- A tag is read wherever an opening word stands with a `>` behind it. -/
theorem read?_ne_none (hs : '/' ∉ name) {opening source : Text}
    (ho : opening ∈ openings form name) (hstart : startsFold opening source = true)
    (hgt : '>' ∈ source) : read? form name source ≠ none := by
  obtain ⟨rest, rfl, hname⟩ := (startsFold_openings_iff form hs).1 ⟨opening, ho, hstart⟩
  have hrest : '>' ∈ rest := (List.mem_cons.1 hgt).resolve_left (by decide)
  rw [read?, if_pos hname, Ne, Option.map_eq_none_iff, cutAfter?_eq_none_iff]
  exact fun h => h hrest

/-- A tag begins with `<` and has a `>`. -/
theorem IsTag.facts (hn : IsPlainName name) {tag : Text} (h : IsTag form name tag) :
    (∃ tail, tag = '<' :: tail) ∧ '>' ∈ tag := by
  obtain ⟨opening, ho, word, attributes, rfl, hw, -⟩ := h
  obtain ⟨tail, rfl, -⟩ := (isTagWord_of_mem_openings hn ho).1.exists_cons hw
  exact ⟨⟨_, rfl⟩, by simp⟩

/-- The cutter of tags removes them from left to right. -/
theorem follows_tagRule (form : TagForm) (hn : IsPlainName name) (hs : '/' ∉ name) :
    (cutter form name).Follows (tagRule form name) where
  find?_eq_none {text} := by
    rw [Cutter.find?_eq_none_iff]
    constructor
    · intro hnone tag htag hin
      obtain ⟨_, ⟨rest, rfl⟩, hsuffix⟩ := List.infix_iff_prefix_suffix.1 hin
      have hread : read? form name (tag ++ rest) = some (tag, rest) :=
        (read?_eq_some_iff_isTag hn hs).2 ⟨rfl, htag⟩
      exact Option.some_ne_none _ (hread.symm.trans (hnone _ hsuffix))
    · intro hlast s hsuffix
      cases hr : (cutter form name).read? s with
      | none => rfl
      | some found =>
        obtain ⟨rfl, htag⟩ := (read?_eq_some_iff_isTag hn hs).1 hr
        exact absurd ((List.prefix_append _ _).isInfix.trans hsuffix.isInfix) (hlast _ htag)
  find?_eq_some {text stretch tag rest} := by
    rw [Cutter.find?_eq_some_iff]
    constructor
    · rintro ⟨tail, rfl, hread, hnone⟩
      obtain ⟨rfl, htag⟩ := (read?_eq_some_iff_isTag hn hs).1 hread
      refine ⟨rfl, htag, fun opening ho hoccurs => ?_⟩
      obtain ⟨front, s, rfl, hstart⟩ := occursFold_iff.1 hoccurs
      have hne : s ≠ [] := by
        rintro rfl
        obtain ⟨word, back, he, hw⟩ := startsFold_iff.1 hstart
        obtain ⟨tail, rfl, -⟩ := (isTagWord_of_mem_openings hn ho).1.exists_cons hw
        contradiction
      -- The `>` of the tag behind would end a tag that begins with the word in front.
      have hgt : '>' ∈ s ++ (tag ++ rest) :=
        List.mem_append_right s (List.mem_append_left rest (htag.facts hn).2)
      exact read?_ne_none hs ho (startsFold_append hstart _) hgt
        (hnone s (List.suffix_append _ _) hne)
    · rintro ⟨rfl, htag, hfree⟩
      refine ⟨tag ++ rest, rfl, (read?_eq_some_iff_isTag hn hs).2 ⟨rfl, htag⟩,
        fun s hsuffix hne => ?_⟩
      cases hr : (cutter form name).read? (s ++ (tag ++ rest)) with
      | none => rfl
      | some found =>
        obtain ⟨he, opening, ho, word, attributes, hfound, hw, -⟩ :=
          (read?_eq_some_iff_isTag hn hs).1 hr
        obtain ⟨⟨tail, rfl⟩, -⟩ := htag.facts hn
        obtain ⟨front, rfl⟩ := hsuffix
        have hstart : startsFold opening (s ++ '<' :: (tail ++ rest)) = true := by
          rw [← List.cons_append, he, hfound]
          simp only [List.append_assoc]
          exact startsFold_append_of_eqFold hw _
        have hin := (isTagWord_of_mem_openings hn ho).1.startsFold_of_append hne hstart
        exact absurd (occursFold_iff.2 ⟨front, s, rfl, hin⟩) (hfree opening ho)

/-- The names of the tags that are removed from pages. -/
def strippedNames : List Text := ["!doctype", "html", "body", "meta", "link"]

private theorem facts_of_mem_strippedNames (hn : name ∈ strippedNames) :
    IsPlainName name ∧ '/' ∉ name ∧ IsAscii name := by
  simp only [strippedNames, List.mem_cons, List.not_mem_nil, or_false] at hn
  rcases hn with rfl | rfl | rfl | rfl | rfl <;> decide

/-- Removing the tags of a form and name from a text cuts it up from left to right, in the only way
there is, and leaves the stretches. The loop that searches and copies by offsets comes to its end
with the same text. A text without such tags is left as it is. -/
theorem tags_are_removed_leftmost (form : TagForm) {name : Text} (hn : name ∈ strippedNames)
    (text : Text) :
    (∃ c : Cutting Text, (tagRule form name).Cuts text c ∧ c.text id = text ∧
      strip form name text = c.kept ∧ stripTags form name text = .ok c.kept ∧
      ∀ other, (tagRule form name).Cuts text other → other = c) ∧
    ((∀ tag, IsTag form name tag → ¬ tag <:+: text) → strip form name text = text) := by
  obtain ⟨hplain, hslash, hascii⟩ := facts_of_mem_strippedNames hn
  obtain ⟨c, hcuts, hcut, hunique⟩ :=
    (follows_tagRule form hplain hslash).exists_unique text
  have hstrip : strip form name text = c.kept := congrArg Prod.fst hcut
  have hloop : stripTags form name text = .ok c.kept := by
    rw [stripTags_eq form hascii, hstrip]
  refine ⟨⟨c, hcuts, hcuts.text_eq, hstrip, hloop, hunique⟩, fun hnone => ?_⟩
  rw [hstrip, ← hunique ⟨[], text⟩ (.last hnone)]
  rfl

/-- A page with tags in mixed case, one behind a `<` that begins none, and one that does not end. -/
def openTagPage : Text := "<<HTML a>x</p></html>y<html"

/-- The two tags that end are removed. -/
theorem openTagPage_is_cut_up :
    "html".toList ∈ strippedNames ∧ ∃ c : Cutting Text,
      (tagRule .openingOrClosing "html").Cuts openTagPage c ∧ c.kept = "<x</p>y<html".toList := by
  have hname : "html".toList ∈ strippedNames := by decide
  obtain ⟨⟨c, hcuts, -, hstrip, -⟩, -⟩ :=
    tags_are_removed_leftmost .openingOrClosing hname openTagPage
  have hvalue : strip .openingOrClosing "html" openTagPage = "<x</p>y<html".toList := by
    decide +kernel
  exact ⟨hname, c, hcuts, hstrip.symm.trans hvalue⟩

end Tag

end VueSfc.Markup
