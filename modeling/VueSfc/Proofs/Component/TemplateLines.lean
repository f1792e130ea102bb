import VueSfc.Proofs.Component.Dialects
import VueSfc.Proofs.Markup.BlankRun

/-!
# The lines of the template section

A template is trimmed before its blank runs are squeezed, and each of its lines is trimmed again
when it is written. The three steps agree on which characters are blank. Two empty lines next to
each other in the section would be a blank stretch with three line feeds in the template, since
neither of them is the first or the last line, and squeezing leaves no such stretch.
-/

namespace VueSfc

open Text Markup Component

/-! ## Lines of a text without long blank stretches -/

namespace Text

/-- A text that begins with a character that is not blank has such a first line. -/
theorem allBlank_head?_lines {text : Text} (hn : text ≠ [])
    (h : ∀ c ∈ text.head?, isBlank c = false) :
    ∃ line ∈ (lines text).head?, allBlank line = false := by
  obtain ⟨c, text, rfl⟩ := List.exists_cons_of_ne_nil hn
  have hc : isBlank c = false := h c rfl
  have hfeed : c ≠ '\n' := by
    rintro rfl
    exact absurd hc (by decide)
  obtain ⟨line, rest, -, hl⟩ := lines_cons hfeed text
  refine ⟨c :: line, by rw [hl]; rfl, ?_⟩
  rw [allBlank, List.all_cons, hc, Bool.false_and]

/-- A text that ends with a character that is not blank has such a last line. -/
theorem allBlank_getLast?_lines {text : Text} (hn : text ≠ [])
    (h : ∀ c ∈ text.getLast?, isBlank c = false) :
    ∃ line ∈ (lines text).getLast?, allBlank line = false := by
  obtain ⟨text, c, rfl⟩ := (List.eq_nil_or_concat text).resolve_left hn
  rw [List.concat_eq_append] at h ⊢
  have hc : isBlank c = false := h c List.getLast?_concat
  have hfeed : c ≠ '\n' := by
    rintro rfl
    exact absurd hc (by decide)
  obtain ⟨front, line, -, hl⟩ := lines_concat hfeed text
  refine ⟨line ++ [c], by rw [hl]; exact List.getLast?_concat, ?_⟩
  simp [allBlank, hc]

/-- Two blank lines next to each other, with lines around them, are a blank stretch with three line
feeds. -/
theorem exists_blanks_of_lines_eq {text : Text} {front back : List Text} {line next : Text}
    (hl : lines text = front ++ line :: next :: back) (hf : front ≠ []) (hb : back ≠ [])
    (hline : allBlank line = true) (hnext : allBlank next = true) :
    ∃ blanks, blanks <:+: text ∧ (∀ c ∈ blanks, isBlank c = true) ∧ 3 ≤ blanks.count '\n' := by
  have htext : text =
      unlines front ++ ('\n' :: line ++ '\n' :: next ++ ['\n']) ++ unlines back := by
    have hjoined : unlines (lines text) = text := List.intercalate_splitOn '\n'
    rw [← hjoined, hl, unlines_append hf (List.cons_ne_nil _ _),
      unlines_cons_of_ne_nil (List.cons_ne_nil _ _), unlines_cons_of_ne_nil hb]
    simp only [List.append_assoc, List.cons_append, List.nil_append]
  refine ⟨'\n' :: line ++ '\n' :: next ++ ['\n'], ⟨_, _, htext.symm⟩, ?_, ?_⟩
  · rw [allBlank, List.all_eq_true] at hline hnext
    have hfeed : isBlank '\n' = true := by decide
    simp only [List.mem_append, List.mem_cons, List.not_mem_nil, or_false]
    rintro c (((rfl | hc) | (rfl | hc)) | rfl)
    · exact hfeed
    · exact hline c hc
    · exact hfeed
    · exact hnext c hc
    · exact hfeed
  · simp only [List.count_append, List.count_cons_self, List.count_nil]
    omega

end Text

namespace Component

/-! ## Normal sections -/

/-- A line of content is four spaces and then text without blank characters at its ends. -/
def IsContentLine (line : Text) : Prop :=
  ∃ text : Text, line = "    ".toList ++ text ∧ text ≠ [] ∧
    (∀ c ∈ text.head?, isBlank c = false) ∧ ∀ c ∈ text.getLast?, isBlank c = false

/-- Lines that begin and end with content, and are content but for single empty lines. -/
structure IsNormal (body : List Text) : Prop where
  /-- There is a first line and it is not blank. -/
  head : ∃ line ∈ body.head?, allBlank line = false
  /-- There is a last line and it is not blank. -/
  getLast : ∃ line ∈ body.getLast?, allBlank line = false
  /-- No two blank lines stand next to each other. -/
  apart : body.IsChain fun line next => ¬ (allBlank line = true ∧ allBlank next = true)
  /-- Blank lines are empty. -/
  empty : ∀ line ∈ body, allBlank line = true → line = []
  /-- All other lines are content. -/
  content : ∀ line ∈ body, allBlank line = false → IsContentLine line

/-- A line of the section is blank where the line of the template is. -/
theorem allBlank_templateLine (line : Text) : allBlank (templateLine line) = allBlank line := by
  rw [templateLine]
  split
  · rename_i h
    rw [trim_eq_nil_iff.1 (List.isEmpty_iff.1 h)]
    rfl
  · rename_i h
    have hline : allBlank line = false := by
      rw [← Bool.not_eq_true, ← trim_eq_nil_iff]
      simpa using h
    have htrim : allBlank (trim line) = false := by
      rw [← Bool.not_eq_true, ← trim_eq_nil_iff, trim_trim]
      simpa using h
    have happend : allBlank ("    ".toList ++ trim line) = (true && allBlank (trim line)) :=
      List.all_append
    rw [hline, happend, htrim, Bool.and_false]

/-- A blank line is written as the empty one. -/
theorem templateLine_of_allBlank {line : Text} (h : allBlank line = true) :
    templateLine line = [] := by
  rw [templateLine, trim_eq_nil_iff.2 h]
  rfl

/-- A line that is not blank is written as a line of content. -/
theorem isContentLine_templateLine {line : Text} (h : allBlank line = false) :
    IsContentLine (templateLine line) := by
  have hne : trim line ≠ [] := by
    rw [Ne, trim_eq_nil_iff, h]
    exact Bool.false_ne_true
  refine ⟨trim line, ?_, hne, fun _ => not_isBlank_of_head?_trim,
    fun _ => not_isBlank_of_getLast?_trim⟩
  rw [templateLine, if_neg (mt List.isEmpty_iff.1 hne)]

/-- Without the four spaces a line is the trimmed one. -/
theorem drop_templateLine (line : Text) : (templateLine line).drop 4 = trim line := by
  rw [templateLine]
  split
  · rename_i h
    rw [List.isEmpty_iff.1 h]
    rfl
  · rfl

/-- A text with content at its ends and no long blank stretch inside has a normal section. -/
theorem isNormal_map_templateLine {text : Text} (hn : text ≠ [])
    (hs : ∀ c ∈ text.head?, isBlank c = false) (he : ∀ c ∈ text.getLast?, isBlank c = false)
    (hblank : ∀ blanks, blanks <:+: text → (∀ c ∈ blanks, isBlank c = true) →
      blanks.count '\n' ≤ 2) : IsNormal ((lines text).map templateLine) where
  head := by
    obtain ⟨line, hl, h⟩ := allBlank_head?_lines hn hs
    exact ⟨templateLine line, by simp [Option.mem_def.1 hl], (allBlank_templateLine line).trans h⟩
  getLast := by
    obtain ⟨line, hl, h⟩ := allBlank_getLast?_lines hn he
    exact ⟨templateLine line, by simp [Option.mem_def.1 hl], (allBlank_templateLine line).trans h⟩
  apart := by
    rw [List.isChain_map]
    simp only [allBlank_templateLine]
    rw [List.isChain_iff_forall_rel_of_append_cons_cons]
    rintro line next front back hl ⟨hline, hnext⟩
    obtain ⟨first, hfirst, hf⟩ := allBlank_head?_lines hn hs
    obtain ⟨last, hlast, hb⟩ := allBlank_getLast?_lines hn he
    -- Neither of the two lines is the first or the last one.
    have hfront : front ≠ [] := by
      rintro rfl
      rw [hl] at hfirst
      obtain rfl : line = first := Option.some.inj hfirst
      rw [hline] at hf
      contradiction
    have hback : back ≠ [] := by
      rintro rfl
      rw [hl, List.getLast?_append_cons] at hlast
      obtain rfl : next = last := Option.some.inj hlast
      rw [hnext] at hb
      contradiction
    obtain ⟨blanks, hi, hall, hcount⟩ := exists_blanks_of_lines_eq hl hfront hback hline hnext
    have hle := hblank blanks hi hall
    omega
  empty := by
    intro line hl h
    obtain ⟨line, -, rfl⟩ := List.mem_map.1 hl
    rw [allBlank_templateLine] at h
    exact templateLine_of_allBlank h
  content := by
    intro line hl h
    obtain ⟨line, -, rfl⟩ := List.mem_map.1 hl
    rw [allBlank_templateLine] at h
    exact isContentLine_templateLine h

/-! ## Sections found in components -/

/-- The line that closes the wrapping element. -/
def wrapperClosing : Text := "  </div>"

/-- The lines from the two that open the template section to the first one that closes its
wrapping element. -/
def innerLines (output : Text) : List Text :=
  ((lines output).drop templateOpening.length).takeWhile fun line => line != wrapperClosing

/-- No line of the template is written as the one that closes the wrapping element. -/
theorem templateLine_ne_wrapperClosing (line : Text) : templateLine line ≠ wrapperClosing := by
  rw [templateLine]
  split
  · decide
  · intro h
    have hfront : ("    ".toList ++ trim line).take 3 = wrapperClosing.take 3 := by rw [h]
    rw [List.take_append_of_le_length (by decide)] at hfront
    exact absurd hfront (by decide)

/-- The lines of a component begin with those of its template section. -/
theorem exists_lines_componentLines (dialect : Dialect) (page : Page) :
    ∃ rest, lines (unlines (componentLines dialect page)) = templateOpening ++
      (lines page.template).map templateLine ++ templateClosing ++ rest := by
  have hsection : (templateSection page.template).flatMap lines =
      templateSection page.template := by
    refine flatMap_lines_of_notMem fun line hl => ?_
    rw [templateSection, List.mem_append, List.mem_append, List.mem_map] at hl
    rcases hl with (hl | ⟨l, hm, rfl⟩) | hl
    · exact (by decide : ∀ line ∈ templateOpening, '\n' ∉ line) line hl
    · have hfeed : '\n' ∉ trim l := fun hc =>
        feed_notMem_of_mem_lines hm ((isInfix_trim l).subset hc)
      rw [templateLine]
      split
      · exact List.not_mem_nil
      · rw [List.mem_append, not_or]
        exact ⟨by decide, hfeed⟩
    · exact (by decide : ∀ line ∈ templateClosing, '\n' ∉ line) line hl
  refine ⟨([[]] ++ scriptSection dialect page.script ++ styleTail page.styles).flatMap lines, ?_⟩
  rw [lines_unlines (by simp [componentLines]), componentLines, List.append_assoc,
    List.append_assoc, List.flatMap_append, hsection, templateSection, List.append_assoc [[]]]

/-- What stands between the opening and the closing lines is found. -/
theorem innerLines_of_lines_eq {output template : Text} {rest : List Text}
    (h : lines output =
      templateOpening ++ (lines template).map templateLine ++ templateClosing ++ rest) :
    innerLines output = (lines template).map templateLine := by
  have hclosing : templateClosing = [wrapperClosing, templateEnd] := rfl
  rw [innerLines, h, List.append_assoc, List.append_assoc, List.drop_left, hclosing,
    List.takeWhile_append_of_pos, List.cons_append, List.takeWhile_cons_of_neg (by simp),
    List.append_nil]
  intro line hl
  obtain ⟨line, -, rfl⟩ := List.mem_map.1 hl
  exact bne_iff_ne.2 (templateLine_ne_wrapperClosing line)

end Component

/-! ## Templates of pages -/

/-- A page that is converted is read, and its component is written from what was read. -/
theorem exists_read_of_outcome_converted {dialect : Dialect} {html : Text}
    (h : (convert dialect html).outcome = .converted) :
    ∃ page, Page.read html = .ok page ∧
      (convert dialect html).output = unlines (componentLines dialect page) := by
  unfold convert at h ⊢
  cases hr : readPage html with
  | error fault =>
    rw [hr] at h
    cases fault <;> contradiction
  | ok page => exact ⟨page, readPage_eq_ok_iff.1 hr, rfl⟩

/-- An accepted template is not blank, and it is some text trimmed and then squeezed. -/
theorem template_of_read {html : Text} {page : Page} (h : Page.read html = .ok page) :
    allBlank page.template = false ∧ ∃ text, page.template = collapse (trim text) := by
  obtain ⟨hcheck, rfl⟩ := Page.read_eq_ok_iff.1 h
  refine ⟨?_, _, rfl⟩
  rw [Template.check] at hcheck
  split at hcheck
  · contradiction
  · rename_i hblank
    simpa using hblank

/-- The template section is normalised. In every component, in either dialect, some lines stand
between the two that open the template section and the first one that closes its wrapping element,
which is followed by the one that closes the section. The first and the last of them are not blank,
no two blank ones stand next to each other, the blank ones are empty, and each other one is four
spaces and text without a blank character at its ends. Without the four spaces they are the trimmed
lines of the template of the page. -/
theorem template_section_is_normal (dialect : Dialect) (html : Text)
    (h : (convert dialect html).outcome = .converted) :
    ∃ page rest, Page.read html = .ok page ∧
      lines (convert dialect html).output =
        templateOpening ++ innerLines (convert dialect html).output ++ templateClosing ++ rest ∧
      IsNormal (innerLines (convert dialect html).output) ∧
      (innerLines (convert dialect html).output).map (List.drop 4) =
        (lines page.template).map trim := by
  obtain ⟨page, hread, houtput⟩ := exists_read_of_outcome_converted h
  obtain ⟨rest, hlines⟩ := exists_lines_componentLines dialect page
  rw [← houtput] at hlines
  have hinner := innerLines_of_lines_eq hlines
  obtain ⟨hblank, text, htemplate⟩ := template_of_read hread
  have hstart : (collapse (trim text)).head? = (trim text).head? :=
    head?_collapse fun _ => not_isBlank_of_head?_trim
  have hend : (collapse (trim text)).getLast? = (trim text).getLast? :=
    getLast?_collapse fun _ => not_isBlank_of_getLast?_trim
  refine ⟨page, rest, hread, by rw [hinner, hlines], ?_, ?_⟩
  · rw [hinner]
    apply isNormal_map_templateLine
    · intro hn
      rw [hn] at hblank
      contradiction
    · rw [htemplate, hstart]
      exact fun _ => not_isBlank_of_head?_trim
    · rw [htemplate, hend]
      exact fun _ => not_isBlank_of_getLast?_trim
    · intro blanks hi hb
      rw [htemplate] at hi
      exact count_le_of_isInfix_collapse hb hi
  · rw [hinner, List.map_map]
    exact List.map_congr_left fun line _ => drop_templateLine line

/-- A page with long blank runs, in which there are carriage returns, tabs and a no-break space. -/
def roomyPage : Text := "\n<div>\r\n\u00a0\n\r\n\n\t<p>a</p>\t\r\n \r\n</div>\n\n"

/-- Its section is normal: the long run and the short one each leave a single empty line. -/
theorem roomyPage_section_is_normal :
    (convert .options roomyPage).outcome = .converted ∧
      IsNormal (innerLines (convert .options roomyPage).output) ∧
      innerLines (convert .options roomyPage).output =
        ["    <div>".toList, [], "    <p>a</p>".toList, [], "    </div>".toList] := by
  have h : (convert .options roomyPage).outcome = .converted := by decide +kernel
  obtain ⟨-, -, -, -, hnormal, -⟩ := template_section_is_normal .options roomyPage h
  exact ⟨h, hnormal, by decide +kernel⟩

end VueSfc
