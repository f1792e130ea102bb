import VueSfc.Proofs.Markup.Gaps
import VueSfc.Proofs.Markup.Leftmost
import VueSfc.Proofs.Offset.Page

/-!
# Pages wrapped around a content

A page with the usual tags around the content of its body is unwrapped again: each pass takes away
its own tags and finds none of them elsewhere. Names are compared by what they begin with, so it has
to be shown of each tag that the words of the other passes do not stand there. What is left is the
content, trimmed and collapsed; all of the head is gone, and the elements of the content are there,
those whose names begin like that of a wrapping tag among them.
-/

namespace VueSfc.Markup

open Text

/-! ## Words that stand nowhere -/

/-- None of the words stands in the text, in whatever letter case. -/
def Lacks (words : List Text) (text : Text) : Prop := ∀ word ∈ words, ¬ OccursFold word text

instance (words : List Text) (text : Text) : Decidable (Lacks words text) :=
  inferInstanceAs (Decidable (∀ word ∈ words, ¬ OccursFold word text))

/-- A text that lacks some words lacks those that are among them. -/
theorem Lacks.mono {words fewer : List Text} {text : Text} (h : Lacks words text)
    (hs : fewer ⊆ words) : Lacks fewer text := fun word hw => h word (hs hw)

/-- A tag word stands nowhere in a text in which no tag begins. -/
theorem not_occursFold_of_notMem {word text : Text} (hw : IsTagWord word) (h : '<' ∉ text) :
    ¬ OccursFold word text := by
  rintro ⟨front, middle, back, rfl, hm⟩
  obtain ⟨tail, rfl, -⟩ := hw.exists_cons hm
  exact h (by simp)

/-- No tag begins in a blank text. -/
theorem lt_notMem_of_forall {gap : Text} (h : ∀ c ∈ gap, isBlank c = true) : '<' ∉ gap :=
  fun hm => absurd (h _ hm) (by decide)

/-- A word that stands neither where an opening tag of the name stands nor where a closing one does,
whatever follows the tag. -/
structure IsOther (word name : Text) : Prop where
  /-- It does not stand where an opening tag stands. -/
  opening : ∀ rest, startsFold word (Element.opening name ++ rest) = false
  /-- It does not stand where a closing tag stands. -/
  closing : ∀ rest, startsFold word (Element.closing name ++ rest) = false

/-- A word that does not stand where a tag stands, nor behind the tag. -/
theorem not_occursFold_tag {word stem tag tail rest : Text} (hw : IsTagWord word)
    (hs : IsTagWord stem) (htag : eqFold stem tag = true) (ht : '<' ∉ tail)
    (hclash : ∀ rest, startsFold word (stem ++ rest) = false) (hr : ¬ OccursFold word rest) :
    ¬ OccursFold word (tag ++ (tail ++ rest)) := by
  obtain ⟨inner, rfl, hi⟩ := hs.exists_cons htag
  rw [List.cons_append, occursFold_cons]
  rintro (h | h)
  · rw [← List.cons_append, startsFold_congr htag, hclash] at h
    contradiction
  · exact hr (hw.occursFold_of_append ht (hw.occursFold_of_append hi h))

/-! ## Elements that are not there -/

namespace Element

/-- A text that holds an element has its opening word and its closing tag. -/
theorem HoldsElement.occursFold {name text : Text} (h : HoldsElement name text) :
    OccursFold (opening name) text ∧ OccursFold (closing name) text := by
  obtain ⟨front, word, middle, close, back, rfl, hw, -, hc⟩ := h
  exact ⟨⟨front, word, middle ++ close ++ back, by simp only [List.append_assoc], hw⟩,
    ⟨front ++ word ++ middle, close, back, by simp only [List.append_assoc], hc⟩⟩

/-- A closing tag ends in a `>`. -/
theorem exists_of_closing {name tag : Text} (h : eqFold (closing name) tag = true) :
    ∃ word, tag = word ++ ['>'] ∧ eqFold ('<' :: '/' :: name) word = true := by
  obtain ⟨word, last, rfl, hword, hlast⟩ := exists_of_eqFold_append h
  obtain ⟨c, rfl⟩ := List.length_eq_one_iff.1 (length_eq_of_eqFold hlast)
  rw [eqFold_cons, Bool.and_eq_true, sameFold_iff rfl] at hlast
  obtain rfl := hlast.1
  exact ⟨word, rfl, hword⟩

/-- An element begins with `<` and ends with `>`. -/
theorem IsNamed.ends {name : Text} {e : Element} (h : e.IsNamed name) :
    e.text.head? = some '<' ∧ e.text.getLast? = some '>' := by
  obtain ⟨word, attributes, ho, hw, -⟩ := h.openTag
  obtain ⟨close, hc, -⟩ := exists_of_closing h.closeTag
  constructor
  · cases word with
    | nil => exact absurd (length_eq_of_eqFold hw) (by simp [opening])
    | cons c word =>
      rw [opening, eqFold_cons, Bool.and_eq_true, sameFold_iff rfl] at hw
      obtain rfl := hw.1
      simp [text, ho]
  · rw [text, hc, ← List.append_assoc, List.getLast?_concat]

/-- Nothing is taken out of a text that holds no element. -/
theorem excise_of_not_holdsElement {name text : Text} (hn : IsPlainName name)
    (h : ¬ HoldsElement name text) : (excise name text).1 = text := by
  rw [excise_of_find?_eq_none ((follows_elementRule hn).find?_eq_none.2 h)]

end Element

/-- Tags of which no opening word stands in the text are not removed. -/
theorem Tag.strip_of_lacks {form : TagForm} {name text : Text} (hn : Element.IsPlainName name)
    (hs : '/' ∉ name) (h : Lacks (openings form name) text) : strip form name text = text := by
  have hlast : (tagRule form name).IsLast text := by
    rintro _ ⟨opening, ho, word, attributes, rfl, hw, -⟩ ⟨front, back, rfl⟩
    exact h opening ho
      ⟨front, word, attributes ++ ['>'] ++ back, by simp only [List.append_assoc], hw⟩
  have hnone := (follows_tagRule form hn hs).find?_eq_none.2 hlast
  exact congrArg Prod.fst (Cutter.cut_of_find?_eq_none hnone)

/-! ## Tags around a content -/

/-- The two tags of an element as written, with the name in any letter case. -/
structure Enclosure (name : Text) where
  /-- What the opening tag begins with. -/
  word : Text
  /-- What stands behind it in the opening tag. -/
  attributes : Text
  /-- The closing tag. -/
  closeTag : Text
  /-- The opening tag has the name. -/
  word_eq : eqFold (Element.opening name) word = true
  /-- The opening tag ends where it seems to. -/
  attributes_plain : '<' ∉ attributes ∧ '>' ∉ attributes
  /-- The closing tag has the name. -/
  closeTag_eq : eqFold (Element.closing name) closeTag = true

namespace Enclosure

variable {name : Text} (t : Enclosure name) {front content back : Text}

/-- The element with a given content. -/
def element (content : Text) : Element := ⟨t.word ++ t.attributes ++ ['>'], content, t.closeTag⟩

/-- The tags with a content between them. -/
def around (content : Text) : Text := (t.element content).text

/-- The element has its name if its content does not close it. -/
theorem isNamed (h : ¬ OccursFold (Element.closing name) content) :
    (t.element content).IsNamed name :=
  ⟨⟨t.word, t.attributes, rfl, t.word_eq, t.attributes_plain.2⟩, h, t.closeTag_eq⟩

/-- A word that stands neither at the tags nor in the content nor behind it all. -/
theorem not_occursFold {word : Text} (hn : Element.IsPlainName name) (hw : IsTagWord word)
    (ho : IsOther word name) (hc : ¬ OccursFold word content) (hb : ¬ OccursFold word back) :
    ¬ OccursFold word (t.around content ++ back) := by
  have htail : '<' ∉ t.attributes ++ ['>'] := by simp [t.attributes_plain.1]
  have hclosing : ¬ OccursFold word (t.closeTag ++ ([] ++ back)) :=
    not_occursFold_tag hw (Element.isTagWord_closing hn) t.closeTag_eq List.not_mem_nil
      ho.closing hb
  have hinside : ¬ OccursFold word (content ++ (t.closeTag ++ back)) := by
    obtain ⟨tail, he, -⟩ := (Element.isTagWord_closing hn).exists_cons t.closeTag_eq
    rw [List.nil_append] at hclosing
    rw [he, List.cons_append] at hclosing ⊢
    exact fun h => (hw.occursFold_append_cons h).elim hc hclosing
  have htext : t.around content ++ back =
      t.word ++ ((t.attributes ++ ['>']) ++ (content ++ (t.closeTag ++ back))) := by
    simp only [around, element, Element.text, List.append_assoc]
  rw [htext]
  exact not_occursFold_tag hw (Element.isTagWord_opening hn) t.word_eq htail ho.opening hinside

/-- The element is found behind a text in which no tag begins. -/
theorem find?_around (hn : Element.IsPlainName name) (hf : '<' ∉ front)
    (hc : ¬ OccursFold (Element.closing name) content) (back : Text) :
    Element.find? name (front ++ (t.around content ++ back)) =
      some (front, t.element content, back) :=
  (Element.follows_elementRule hn).find?_eq_some.2
    ⟨rfl, t.isNamed hc, not_occursFold_of_notMem (Element.isTagWord_opening hn) hf⟩

/-- The element is taken out, and nothing else is, if its closing tag does not stand again. -/
theorem excise_around (hn : Element.IsPlainName name) (hf : '<' ∉ front)
    (hc : ¬ OccursFold (Element.closing name) content)
    (hb : ¬ OccursFold (Element.closing name) back) :
    (Element.excise name (front ++ (t.around content ++ back))).1 = front ++ back := by
  rw [Element.excise_of_find? (t.find?_around hn hf hc back),
    Element.excise_of_not_holdsElement hn fun h => hb h.occursFold.2]

/-- The closing tag is a tag of its name. -/
theorem isTag_closeTag : Tag.IsTag .openingOrClosing name t.closeTag := by
  obtain ⟨word, he, hword⟩ := Element.exists_of_closing t.closeTag_eq
  exact ⟨'<' :: '/' :: name, by simp [Tag.openings], word, [], by simp [he], hword,
    List.not_mem_nil⟩

/-- Both tags are removed, and nothing else is. -/
theorem strip_around (hn : Element.IsPlainName name) (hs : '/' ∉ name) (hf : '<' ∉ front)
    (hc : Lacks (Tag.openings .openingOrClosing name) content) (hb : '<' ∉ back) :
    Tag.strip .openingOrClosing name (front ++ (t.around content ++ back)) =
      front ++ (content ++ back) := by
  let rule := Tag.tagRule .openingOrClosing name
  let openTag := (t.element content).openTag
  have hopen : rule.IsPart front openTag (content ++ (t.closeTag ++ back)) := by
    refine ⟨⟨'<' :: name, by simp [Tag.openings], t.word, t.attributes, rfl, t.word_eq,
      t.attributes_plain.2⟩, fun word hw => ?_⟩
    exact not_occursFold_of_notMem (Tag.isTagWord_of_mem_openings hn hw).1 hf
  have hclose : rule.IsPart content t.closeTag back := ⟨t.isTag_closeTag, hc⟩
  have hlast : rule.IsLast back := by
    intro tag htag hin
    obtain ⟨⟨tail, rfl⟩, -⟩ := htag.facts hn
    exact hb (hin.subset List.mem_cons_self)
  have hcuts : rule.Cuts (front ++ (openTag ++ (content ++ (t.closeTag ++ back))))
      ⟨[(front, openTag), (content, t.closeTag)], back⟩ := .part hopen (.part hclose (.last hlast))
  have htext : front ++ (t.around content ++ back) =
      front ++ (openTag ++ (content ++ (t.closeTag ++ back))) := by
    simp only [openTag, around, element, Element.text, List.append_assoc]
  rw [htext, Tag.strip, Cutter.remove, Cutter.cut_eq,
    ← (Tag.follows_tagRule .openingOrClosing hn hs).cuts_iff.1 hcuts]
  simp [Cutting.kept]

end Enclosure

/-! ## Texts without metadata -/

/-- The words that do not stand in the head of a wrapped page. -/
def headWords : List Text := ["<html", "</html", "</head>"]

/-- The words that do not stand in the content of a wrapped page. -/
def contentWords : List Text :=
  ["<html", "</html", "</head>", "<body", "</body", "<meta", "<link", "<title"]

namespace Template

variable {text : Text}

/-- What is left of a text without its metadata is settled by what is left without its body tags. -/
theorem withoutMetadata_congr {left : Text}
    (h : Tag.strip .openingOrClosing "body" text = left)
    (hl : Tag.strip .openingOrClosing "body" left = left) :
    withoutMetadata text = withoutMetadata left := by
  rw [withoutMetadata, withoutMetadata, h, hl]

theorem strip_body_of_lacks (h : Lacks contentWords text) :
    Tag.strip .openingOrClosing "body" text = text :=
  Tag.strip_of_lacks (by decide) (by decide) (h.mono (by decide))

/-- A text without the words is left as it is. -/
theorem withoutMetadata_of_lacks (h : Lacks contentWords text) : withoutMetadata text = text := by
  have hmeta : Tag.strip .opening "meta" text = text :=
    Tag.strip_of_lacks (by decide) (by decide) (h.mono (by decide))
  have hlink : Tag.strip .opening "link" text = text :=
    Tag.strip_of_lacks (by decide) (by decide) (h.mono (by decide))
  have htitle : (Element.excise "title" text).1 = text :=
    Element.excise_of_not_holdsElement (by decide) fun ho => h _ (by decide) ho.occursFold.1
  simp only [withoutMetadata, strip_body_of_lacks h, hmeta, hlink, htitle]

end Template

/-! ## Wrapped pages -/

/-- The usual tags of a page, blanks between them, and what stands in the head. -/
structure Wrapper where
  /-- The tags of the page. -/
  html : Enclosure "html"
  /-- The tags of the head. -/
  head : Enclosure "head"
  /-- The tags of the body. -/
  body : Enclosure "body"
  /-- What stands in front of the page. -/
  before : Text
  /-- What stands in front of the head. -/
  beforeHead : Text
  /-- What stands in front of the body. -/
  beforeBody : Text
  /-- What stands behind the body. -/
  afterBody : Text
  /-- What stands behind the page. -/
  after : Text
  /-- What stands in the head. -/
  headContent : Text
  /-- Only blanks stand between the tags. -/
  blank : ∀ gap ∈ [before, beforeHead, beforeBody, afterBody, after], allBlank gap = true
  /-- The head does not end early, nor does the page begin or end in it. -/
  headContent_lacks : Lacks headWords headContent

namespace Wrapper

variable (w : Wrapper) {content : Text}

/-- The page around the content of its body. -/
def around (content : Text) : Text :=
  w.before ++ (w.html.around (w.beforeHead ++ (w.head.around w.headContent ++
    (w.beforeBody ++ (w.body.around content ++ w.afterBody)))) ++ w.after)

/-- No tag begins in a gap. -/
theorem lt_notMem {gap : Text}
    (h : gap ∈ [w.before, w.beforeHead, w.beforeBody, w.afterBody, w.after]) : '<' ∉ gap :=
  lt_notMem_of_forall (List.all_eq_true.1 (w.blank gap h))

/-- A word that stands nowhere in the body and what follows. -/
theorem not_occursFold_body {word rest : Text} (hw : IsTagWord word) (ho : IsOther word "body")
    (hc : ¬ OccursFold word content) (hr : '<' ∉ rest) :
    ¬ OccursFold word (w.beforeBody ++ (w.body.around content ++ rest)) := fun h =>
  w.body.not_occursFold (by decide) hw ho hc (not_occursFold_of_notMem hw hr)
    (hw.occursFold_of_append (w.lt_notMem (by simp)) h)

/-- The tags of the page are removed. -/
theorem strip_around (h : Lacks contentWords content) :
    Tag.strip .openingOrClosing "html" (w.around content) =
      w.before ++ ((w.beforeHead ++ (w.head.around w.headContent ++
        (w.beforeBody ++ (w.body.around content ++ w.afterBody)))) ++ w.after) := by
  refine w.html.strip_around (by decide) (by decide) (w.lt_notMem (by simp)) ?_
    (w.lt_notMem (by simp))
  have hinside {word : Text} (hw : IsTagWord word) (hhead : IsOther word "head")
      (hbody : IsOther word "body") (hh : word ∈ headWords) (hc : word ∈ contentWords) :
      ¬ OccursFold word (w.beforeHead ++ (w.head.around w.headContent ++
        (w.beforeBody ++ (w.body.around content ++ w.afterBody)))) := fun ho =>
    w.head.not_occursFold (by decide) hw hhead (w.headContent_lacks _ hh)
      (w.not_occursFold_body hw hbody (h _ hc) (w.lt_notMem (by simp)))
      (hw.occursFold_of_append (w.lt_notMem (by simp)) ho)
  intro word hword
  simp only [Tag.openings, List.mem_cons, List.not_mem_nil, or_false] at hword
  rcases hword with rfl | rfl
  · exact hinside (by decide) ⟨fun _ => rfl, fun _ => rfl⟩ ⟨fun _ => rfl, fun _ => rfl⟩ (by decide)
      (by decide)
  · exact hinside (by decide) ⟨fun _ => rfl, fun _ => rfl⟩ ⟨fun _ => rfl, fun _ => rfl⟩ (by decide)
      (by decide)

/-- The head is taken out of what is left. -/
theorem excise_head (h : Lacks contentWords content) :
    (Element.excise "head" (Tag.strip .openingOrClosing "html" (w.around content))).1 =
      (w.before ++ w.beforeHead ++ w.beforeBody) ++
        (w.body.around content ++ (w.afterBody ++ w.after)) := by
  have hclosing : IsTagWord (Element.closing "head") := Element.isTagWord_closing (by decide)
  have hbefore : '<' ∉ w.before ++ w.beforeHead :=
    List.not_mem_append (w.lt_notMem (by simp)) (w.lt_notMem (by simp))
  have hafter : '<' ∉ w.afterBody ++ w.after :=
    List.not_mem_append (w.lt_notMem (by simp)) (w.lt_notMem (by simp))
  have hbody := w.not_occursFold_body hclosing ⟨fun _ => rfl, fun _ => rfl⟩
    (h _ (by decide)) hafter
  have hexcise := w.head.excise_around (by decide) hbefore
    (w.headContent_lacks _ (by decide)) hbody
  rw [w.strip_around h]
  simp only [List.append_assoc] at hexcise ⊢
  exact hexcise

/-- What is left around the content of the body is blank, so it makes no difference whether the
content is taken or, where there is none, the whole text. -/
theorem trim_bodyOrAll (h : Lacks contentWords content) {front back : Text}
    (hf : ∀ c ∈ front, isBlank c = true) (hb : ∀ c ∈ back, isBlank c = true) :
    trim (Template.withoutMetadata
      (Template.bodyOrAll (front ++ (w.body.around content ++ back)))) = trim content := by
  have hclosing : ¬ OccursFold (Element.closing "body") content := by
    have hword : Element.closing "body" = "</body" ++ ['>'] := rfl
    rw [hword]
    exact fun ho => h _ (by decide) ho.of_word_append
  have hfind := w.body.find?_around (by decide) (lt_notMem_of_forall hf) hclosing back
  by_cases hc : content = []
  · -- nothing stands in the body, and the whole text is blank without its tags
    have hleft : ∀ c ∈ front ++ (content ++ back), isBlank c = true := by
      rw [hc, List.nil_append]
      exact List.forall_mem_append.2 ⟨hf, hb⟩
    have hlacks : Lacks contentWords (front ++ (content ++ back)) := fun word hw =>
      not_occursFold_of_notMem ((by decide : ∀ word ∈ contentWords, IsTagWord word) word hw)
        (lt_notMem_of_forall hleft)
    have hall : Template.bodyOrAll (front ++ (w.body.around content ++ back)) =
        front ++ (w.body.around content ++ back) := by
      rw [Template.bodyOrAll, hfind]
      simp [Enclosure.element, hc]
    have hstrip := w.body.strip_around (by decide) (by decide) (lt_notMem_of_forall hf)
      (h.mono (by decide)) (lt_notMem_of_forall hb)
    rw [hall, Template.withoutMetadata_congr hstrip (Template.strip_body_of_lacks hlacks),
      Template.withoutMetadata_of_lacks hlacks, trim_eq_nil_iff.2 (List.all_eq_true.2 hleft), hc]
    rfl
  · have hbody : Template.bodyOrAll (front ++ (w.body.around content ++ back)) = content := by
      rw [Template.bodyOrAll, hfind]
      simp [Enclosure.element, hc]
    rw [hbody, Template.withoutMetadata_of_lacks h]

/-- A wrapped page is unwrapped. -/
theorem isolate_around_eq (h : Lacks contentWords content) :
    Template.isolate (w.around content) = collapse (trim content) := by
  have hgap := w.blank
  simp only [List.forall_mem_cons, List.not_mem_nil, allBlank, List.all_eq_true] at hgap
  obtain ⟨hbefore, hbeforeHead, hbeforeBody, hafterBody, hafter, -⟩ := hgap
  have hfront : ∀ c ∈ w.before ++ w.beforeHead ++ w.beforeBody, isBlank c = true :=
    List.forall_mem_append.2 ⟨List.forall_mem_append.2 ⟨hbefore, hbeforeHead⟩, hbeforeBody⟩
  have hback : ∀ c ∈ w.afterBody ++ w.after, isBlank c = true :=
    List.forall_mem_append.2 ⟨hafterBody, hafter⟩
  rw [Template.isolate]
  simp only [w.excise_head h]
  rw [w.trim_bodyOrAll h hfront hback]

end Wrapper

/-! ## What is kept of the content -/

/-- Trimming keeps the characters that are not blank. -/
theorem marks_trim (text : Text) : marks (trim text) = marks text := by
  have hstart (text : Text) : marks (trimStart text) = marks text := by
    conv_rhs => rw [← List.takeWhile_append_dropWhile (p := isBlank) (l := text)]
    rw [marks, marks, List.filter_append]
    have hfront := marks_of_forall fun c (hc : c ∈ text.takeWhile isBlank) =>
      List.mem_takeWhile_imp hc
    rw [marks] at hfront
    rw [hfront]
    rfl
  have hend (text : Text) : marks (trimEnd text) = marks text := by
    have hreverse := hstart text.reverse
    rw [marks, marks, List.filter_reverse, trimStart] at hreverse
    rw [marks, trimEnd, List.filter_reverse, hreverse, List.reverse_reverse]
    rfl
  rw [trim, hend, hstart]

/-- Blanks in front of a text are dropped, and no more. -/
theorem exists_trimStart_append (front : Text) {rest : Text}
    (h : ∀ c ∈ rest.head?, isBlank c = false) :
    ∃ left, trimStart (front ++ rest) = left ++ rest := by
  have hrest : trimStart rest = rest := by
    cases rest with
    | nil => rfl
    | cons c rest => exact List.dropWhile_cons_of_neg (by simp [h c rfl])
  rw [trimStart, List.dropWhile_append]
  split
  · exact ⟨[], hrest⟩
  · exact ⟨_, rfl⟩

/-- A stretch that neither begins nor ends with a blank is not trimmed. -/
theorem isInfix_trim_of_isInfix {word text : Text} (h : word <:+: text)
    (hs : ∀ c ∈ word.head?, isBlank c = false) (he : ∀ c ∈ word.getLast?, isBlank c = false) :
    word <:+: trim text := by
  obtain ⟨front, back, rfl⟩ := h
  by_cases hn : word = []
  · rw [hn]
    exact List.nil_infix
  have hhead : ∀ c ∈ (word ++ back).head?, isBlank c = false := by
    rwa [List.head?_append_of_ne_nil _ hn]
  obtain ⟨left, hleft⟩ := exists_trimStart_append front hhead
  have hlast : ∀ c ∈ (word.reverse ++ left.reverse).head?, isBlank c = false := by
    rwa [List.head?_append_of_ne_nil _ (mt List.reverse_eq_nil_iff.1 hn), List.head?_reverse]
  obtain ⟨right, hright⟩ := exists_trimStart_append back.reverse hlast
  have htrim : trim (front ++ word ++ back) = left ++ word ++ right.reverse := by
    rw [trim, List.append_assoc, hleft, trimEnd, List.reverse_append, List.reverse_append,
      List.append_assoc, ← trimStart, hright]
    simp
  exact ⟨left, right.reverse, htrim.symm⟩

/-- A page wrapped around a content is unwrapped again, when the words of the tags that are taken
away do not stand in the content, nor those of the page and the end of the head in the head. The
template is the content, trimmed and collapsed. So it has the characters of the content, but for
blanks, and none of the head; and an element of the content stands in it, collapsed, even if its
name begins like that of a wrapping tag. The passes that search by byte offsets give the same
template, and none of them breaks off. -/
theorem wrapped_page_is_unwrapped (w : Wrapper) {content : Text}
    (h : Lacks contentWords content) :
    Template.isolate (w.around content) = collapse (trim content) ∧
    Offset.isolateTemplate (w.around content) = .ok (collapse (trim content)) ∧
    marks (Template.isolate (w.around content)) = marks content ∧
    ∀ name e, Element.IsNamed name e → e.text <:+: content →
      collapse e.text <:+: Template.isolate (w.around content) := by
  have hisolate := w.isolate_around_eq h
  refine ⟨hisolate, ?_, ?_, fun name e he hin => ?_⟩
  · rw [Offset.isolateTemplate_eq, hisolate]
  · rw [hisolate, marks_collapse, marks_trim]
  · obtain ⟨hhead, hlast⟩ := he.ends
    have hstart : ∀ c ∈ e.text.head?, isBlank c = false := by
      rw [hhead]
      rintro _ ⟨⟩
      rfl
    have hend : ∀ c ∈ e.text.getLast?, isBlank c = false := by
      rw [hlast]
      rintro _ ⟨⟩
      rfl
    rw [hisolate]
    exact isInfix_collapse (isInfix_trim_of_isInfix hin hstart hend) hstart hend

/-- Tags in mixed case, and a head with a header and a body in it. -/
def mixedWrapper : Wrapper where
  html := ⟨"<HTML", " lang=en", "</html>", rfl, by decide, rfl⟩
  head := ⟨"<head", "er x", "</HEAD>", rfl, by decide, rfl⟩
  body := ⟨"<Body", [], "</body>", rfl, by decide, rfl⟩
  before := "\n"
  beforeHead := []
  beforeBody := "\n\n"
  afterBody := []
  after := " "
  headContent := "<title>t</title><header><body>h</header>"
  blank := by decide
  headContent_lacks := by decide

/-- A header and a paragraph, with blank lines between them. -/
def headerContent : Text := " <header>a</header>\n\n \n<p>b</p>\n"

/-- The content is what is left of the page, with its header. -/
theorem headerContent_is_unwrapped :
    Lacks contentWords headerContent ∧
    Template.isolate (mixedWrapper.around headerContent) = "<header>a</header>\n\n<p>b</p>".toList ∧
    "<header>a</header>".toList <:+: Template.isolate (mixedWrapper.around headerContent) := by
  have hlacks : Lacks contentWords headerContent := by decide
  obtain ⟨hisolate, -, -, hkept⟩ := wrapped_page_is_unwrapped mixedWrapper hlacks
  have hnamed : Element.IsNamed "header" ⟨"<header>", "a", "</header>"⟩ :=
    ⟨⟨"<header", [], rfl, rfl, List.not_mem_nil⟩, by decide, rfl⟩
  have hheader := hkept _ _ hnamed ⟨[' '], "\n\n \n<p>b</p>\n", rfl⟩
  refine ⟨hlacks, hisolate.trans (by decide +kernel), ?_⟩
  have hcollapse : collapse (Element.text ⟨"<header>", "a", "</header>"⟩) =
      "<header>a</header>".toList := by decide +kernel
  rwa [hcollapse] at hheader

end VueSfc.Markup
