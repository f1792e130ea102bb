import VueSfc.Proofs.Component.TemplateLines

/-!
# The blocks of the style section

Each style block of a page leaves its lines that are not blank, trimmed, behind one empty line. None
of these lines is empty and every block has one, so the empty lines are the places where a block
begins, and reading between them gives the blocks back up to indentation and blank lines. No block
holds a closing tag, and none is made by taking its lines apart, so the section is closed by its
last line only.
-/

namespace VueSfc

open Text Markup Component

namespace Component

/-- The lines of a block that are not blank, trimmed. -/
def contentLines (block : Text) : List Text :=
  ((lines block).filter fun line => !allBlank line).map trim

/-- Two blocks have the same text but for indentation and blank lines. -/
def LaidOutAlike (block other : Text) : Prop := contentLines block = contentLines other

/-- The blocks that a style section is read as: what stands between the two header lines and the
closing line, divided at the empty lines. -/
def readStyles (text : Text) : List Text :=
  ((((lines text).drop 2).dropLast.splitOn []).tail).map unlines

/-- A style section that carries some blocks. -/
structure IsStyleSectionOf (blocks : List Text) (text : Text) : Prop where
  /-- Behind two header lines stand an empty line and the content of each block, in order, and then
  the closing line. -/
  lines_eq : lines text = [styleOpening, styleReviewComment] ++
    blocks.flatMap (fun block => [] :: contentLines block) ++ [styleClosing]
  /-- Every block has a line of content. -/
  content : ∀ block ∈ blocks, contentLines block ≠ []
  /-- There are as many empty lines as blocks. -/
  count : (lines text).count [] = blocks.length
  /-- The blocks are read back one by one. -/
  read : List.Forall₂ LaidOutAlike (readStyles text) blocks
  /-- A closing tag, in any letter case, is nowhere but at the end, and is written as it should. -/
  closes : ∀ front middle back, text = front ++ middle ++ back →
    eqFold styleClosing middle = true → middle = styleClosing ∧ back = []

variable {block : Text} {blocks : List Text}

/-! ## Lines of blocks -/

/-- The lines that are written for a block are those of its content. -/
theorem styleLines_eq (block : Text) : styleLines block = contentLines block := by
  rw [styleLines, contentLines, List.filter_map]
  congr 1
  refine List.filter_congr fun line _ => ?_
  rw [Function.comp_apply, Bool.eq_iff_iff, Bool.not_eq_true', Bool.not_eq_true',
    ← Bool.not_eq_true, ← Bool.not_eq_true, List.isEmpty_iff, trim_eq_nil_iff]

/-- A line of content is a trimmed line of the block, and not empty. -/
theorem of_mem_contentLines {line : Text} (h : line ∈ contentLines block) :
    line ≠ [] ∧ '\n' ∉ line ∧ trim line = line ∧ line <:+: block := by
  obtain ⟨source, hs, rfl⟩ := List.mem_map.1 h
  obtain ⟨hm, hb⟩ := List.mem_filter.1 hs
  have hblank : allBlank source ≠ true := by simpa using hb
  exact ⟨mt trim_eq_nil_iff.1 hblank,
    fun hf => feed_notMem_of_mem_lines hm ((isInfix_trim source).subset hf), trim_trim source,
    (isInfix_trim source).trans (isInfix_of_mem_lines hm)⟩

/-- A block that begins with a character that is not blank has a line of content. -/
theorem contentLines_ne_nil (hn : block ≠ []) (h : ∀ c ∈ block.head?, isBlank c = false) :
    contentLines block ≠ [] := by
  obtain ⟨line, hl, hb⟩ := allBlank_head?_lines hn h
  refine List.ne_nil_of_mem (List.mem_map_of_mem (List.mem_filter.2 ⟨List.mem_of_mem_head? hl, ?_⟩))
  rw [hb]
  rfl

/-- The lines of content are a block that is laid out like the block itself. -/
theorem contentLines_unlines (hn : contentLines block ≠ []) :
    LaidOutAlike (unlines (contentLines block)) block := by
  have hlines : lines (unlines (contentLines block)) = contentLines block :=
    lines_unlines_of_notMem hn fun line hl => (of_mem_contentLines hl).2.1
  rw [LaidOutAlike, ← styleLines_eq]
  refine (trimmedLines_eq_lines fun line hl => ?_).trans hlines
  rw [hlines] at hl
  obtain ⟨hne, -, htrim, -⟩ := of_mem_contentLines hl
  exact ⟨htrim, by simpa using hne⟩

/-! ## Sections -/

/-- The lines of the style section. -/
theorem styleSection_eq (blocks : List Text) :
    styleSection blocks = [styleOpening, styleReviewComment] ++
      blocks.flatMap (fun block => [] :: contentLines block) ++ [styleClosing] := by
  simp only [styleSection, styleLines_eq]

/-- The section has the lines that are written. -/
theorem lines_unlines_styleSection (blocks : List Text) :
    lines (unlines (styleSection blocks)) = styleSection blocks := by
  refine lines_unlines_of_notMem (List.cons_ne_nil _ _) fun line hl => ?_
  have hheader : ∀ line ∈ [styleOpening, styleReviewComment], '\n' ∉ line := by decide
  rw [styleSection_eq, List.mem_append, List.mem_append, List.mem_flatMap] at hl
  rcases hl with (hl | ⟨block, -, hl⟩) | hl
  · exact hheader line hl
  · rcases List.mem_cons.1 hl with rfl | hl
    · exact List.not_mem_nil
    · exact (of_mem_contentLines hl).2.1
  · rw [List.mem_singleton.1 hl]
    decide

/-- Of the lines of some blocks, those in front of the blocks are empty. -/
theorem count_nil_blockLines (blocks : List Text) :
    (blocks.flatMap fun block => [] :: contentLines block).count [] = blocks.length := by
  induction blocks with
  | nil => rfl
  | cons block blocks ih =>
    have hnone : (contentLines block).count [] = 0 :=
      List.count_eq_zero.2 fun h => (of_mem_contentLines h).1 rfl
    rw [List.flatMap_cons, List.count_append, List.count_cons_self, hnone, ih, List.length_cons]
    omega

/-- The blocks that the section is read as are made of the lines of content. -/
theorem readStyles_styleSection (blocks : List Text) :
    readStyles (unlines (styleSection blocks)) =
      blocks.map fun block => unlines (contentLines block) := by
  have hgroups : (blocks.flatMap fun block => [] :: contentLines block).splitOn [] =
      [] :: blocks.map contentLines := by
    have hmap : blocks.flatMap (fun block => [] :: contentLines block) =
        [([] : Text)].intercalate ([] :: blocks.map contentLines) := by
      rw [intercalate_singleton_cons, List.nil_append, List.flatMap_map]
    rw [hmap]
    refine List.splitOn_intercalate [] (fun group hg => ?_) (List.cons_ne_nil _ _)
    rcases List.mem_cons.1 hg with rfl | hg
    · exact List.not_mem_nil
    · obtain ⟨block, -, rfl⟩ := List.mem_map.1 hg
      exact fun h => (of_mem_contentLines h).1 rfl
  rw [readStyles, lines_unlines_styleSection, styleSection_eq, List.append_assoc]
  change (((blocks.flatMap fun block => [] :: contentLines block) ++
    [styleClosing]).dropLast.splitOn []).tail.map unlines = _
  rw [List.dropLast_concat, hgroups, List.tail_cons, List.map_map]
  rfl

/-- A section of blocks that hold no closing tag is closed by its last line. -/
theorem eq_of_eqFold_styleClosing (hb : ∀ block ∈ blocks, ¬ OccursFold styleClosing block)
    {front middle back : Text} (h : unlines (styleSection blocks) = front ++ middle ++ back)
    (hm : eqFold styleClosing middle = true) : middle = styleClosing ∧ back = [] := by
  have hne : styleClosing ≠ [] := List.cons_ne_nil _ _
  have hheader : ∀ line ∈ [styleOpening, styleReviewComment], ¬ OccursFold styleClosing line := by
    decide
  have hlines : [styleOpening, styleReviewComment] ++
      blocks.flatMap (fun block => [] :: contentLines block) ≠ [] := List.cons_ne_nil _ _
  rw [styleSection_eq] at h
  refine eq_of_unlines_concat hne (by decide) hlines (fun line hl ho => ?_) h hm
  rcases List.mem_append.1 hl with hl | hl
  · exact hheader line hl ho
  · obtain ⟨block, hblock, hl⟩ := List.mem_flatMap.1 hl
    rcases List.mem_cons.1 hl with rfl | hl
    · exact not_occursFold_nil hne ho
    · -- A line of content is a stretch of its block.
      obtain ⟨left, right, he⟩ := (of_mem_contentLines hl).2.2.2
      exact hb block hblock (he ▸ ho.append left right)

/-- The style section carries blocks that begin with content and hold no closing tag. -/
theorem isStyleSectionOf_styleSection
    (hc : ∀ block ∈ blocks, block ≠ [] ∧ ∀ c ∈ block.head?, isBlank c = false)
    (hb : ∀ block ∈ blocks, ¬ OccursFold styleClosing block) :
    IsStyleSectionOf blocks (unlines (styleSection blocks)) := by
  have hcontent : ∀ block ∈ blocks, contentLines block ≠ [] := fun block hm =>
    contentLines_ne_nil (hc block hm).1 (hc block hm).2
  refine ⟨?lines_eq, hcontent, ?count, ?read, fun front middle back => ?closes⟩
  case lines_eq => rw [lines_unlines_styleSection, styleSection_eq]
  case count =>
    have hheader : [styleOpening, styleReviewComment].count [] = 0 := by decide
    have hclosing : [styleClosing].count [] = 0 := by decide
    rw [lines_unlines_styleSection, styleSection_eq, List.count_append, List.count_append, hheader,
      hclosing, count_nil_blockLines]
    omega
  case read =>
    rw [readStyles_styleSection, List.forall₂_map_left_iff, List.forall₂_same]
    exact fun block hm => contentLines_unlines (hcontent block hm)
  case closes => exact eq_of_eqFold_styleClosing hb

end Component

/-- A style block of a page begins with content and holds no closing tag. -/
theorem of_mem_styles {html block : Text} (h : block ∈ (PageParts.ofPage html).styles) :
    (block ≠ [] ∧ ∀ c ∈ block.head?, isBlank c = false) ∧ ¬ OccursFold styleClosing block := by
  have hname : Element.IsPlainName "style" := by decide
  have hplain : styleClosing.all (fun c => !isBlank c) = true := by decide
  have hblank : ∀ c ∈ styleClosing, isBlank c = false := by simpa using hplain
  refine ⟨?_, not_occursFold_of_mem_trimmedBlocks hname hblank h⟩
  obtain ⟨hm, hne⟩ := List.mem_filter.1 h
  obtain ⟨content, -, rfl⟩ := List.mem_map.1 hm
  exact ⟨by simpa using hne, fun c => not_isBlank_of_head?_trim⟩

/-- The styles of a page are carried over completely and safely. Wherever a page is read and has
style blocks, its component ends, in either dialect, with a style section behind an empty line.
There are two header lines, then for each block, in order, an empty line and the lines of the block
that are not blank, trimmed, of which there is at least one, and then the closing line. The empty
lines are as many as the blocks, and the blocks are read back one by one, up to indentation and
blank lines. A closing tag, in any letter case, is nowhere in the section but in its last line. -/
theorem styles_are_carried_over (dialect : Dialect) {html : Text} {page : Page}
    (h : Page.read html = .ok page) (hs : page.styles ≠ []) :
    (convert dialect html).outcome = .converted ∧
      (convert dialect html).output = beforeScript page ++
        unlines (scriptSection dialect page.script) ++
          '\n' :: '\n' :: unlines (styleSection page.styles) ∧
      IsStyleSectionOf page.styles (unlines (styleSection page.styles)) := by
  have hstyles : page.styles = (PageParts.ofPage html).styles := by
    rw [(Page.read_eq_ok_iff.1 h).2]
  have hafter : afterScript page = '\n' :: '\n' :: unlines (styleSection page.styles) := by
    rw [afterScript, if_neg (mt List.isEmpty_iff.1 hs)]
    rfl
  have hconvert : convert dialect html =
      ⟨unlines (componentLines dialect page), .converted, some (.ofPage page)⟩ := by
    simp only [convert, readPage_eq_ok_iff.2 h]
  rw [hconvert, ← hafter]
  refine ⟨rfl, unlines_componentLines dialect page, ?_⟩
  rw [hstyles]
  exact isStyleSectionOf_styleSection (fun block hb => (of_mem_styles hb).1)
    fun block hb => (of_mem_styles hb).2

/-- A page with two style blocks, of which one has a blank line and indentation. -/
def twoStylesPage : Text :=
  "<style>\n  p \x7b\n \n    x\n  \x7d</style><p>a</p><STYLE> b \x7b\x7d </style>"

/-- Both blocks are carried over into its components. -/
theorem twoStylesPage_styles_are_carried_over :
    ∃ page, Page.read twoStylesPage = .ok page ∧
      page.styles = ["p \x7b\n \n    x\n  \x7d".toList, "b \x7b\x7d".toList] ∧ ∀ dialect,
        (convert dialect twoStylesPage).outcome = .converted ∧
          IsStyleSectionOf page.styles (unlines (styleSection page.styles)) := by
  cases hr : Page.read twoStylesPage with
  | error fault =>
    have hb : (Page.read twoStylesPage).toBool = true := by decide +kernel
    rw [hr] at hb
    contradiction
  | ok page =>
    have hstyles : page.styles = ["p \x7b\n \n    x\n  \x7d".toList, "b \x7b\x7d".toList] := by
      rw [(Page.read_eq_ok_iff.1 hr).2]
      decide +kernel
    have hn : page.styles ≠ [] := hstyles ▸ List.cons_ne_nil _ _
    refine ⟨page, rfl, hstyles, fun dialect => ?_⟩
    obtain ⟨houtcome, -, hsection⟩ := styles_are_carried_over dialect hr hn
    exact ⟨houtcome, hsection⟩

end VueSfc
