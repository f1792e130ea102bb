import VueSfc.Component.Conversion
import VueSfc.Proofs.Page.Extraction

/-!
# What the dialect changes

A page is read in the same way for both dialects, so the outcome and the counts of a conversion do
not depend on the dialect, and neither does what stands in for a component. Of a component only
the script section depends on it: the text in front of that section and the text behind it are the
same. The text in front holds the end of the template section, so the two components agree
through the first place where a template is closed, wherever the markup of the page puts it.
-/

namespace VueSfc

open Text Markup Script Component

/-! ## Pages that are read -/

/-- A page that can be read is not blank, so it can be converted. -/
theorem readPage_eq_ok_iff {html : Text} {page : Page} :
    readPage html = .ok page ↔ Page.read html = .ok page := by
  have hok : Page.read html = .ok page → allBlank html = false := by
    intro h
    have hcheck := (Page.read_eq_ok_iff.1 h).1
    rw [← Bool.not_eq_true]
    intro hblank
    have htemplate : allBlank (Template.isolate (PageParts.ofPage html).markup) = true :=
      List.all_eq_true.2 fun c hc =>
        List.all_eq_true.1 hblank c ((Pass.template.run_sublist html).subset hc)
    rw [Template.check, if_pos htemplate] at hcheck
    contradiction
  rw [readPage]
  split
  · rename_i hblank
    refine ⟨fun h => by contradiction, fun h => ?_⟩
    rw [hok h] at hblank
    contradiction
  · cases Page.read html with
    | error fault => exact ⟨fun h => by contradiction, fun h => by contradiction⟩
    | ok read => rw [Except.ok.injEq, Except.ok.injEq]

/-- A page that can be converted is read, and the text is its component. -/
theorem exists_readPage_of_convert? {dialect : Dialect} {html output : Text}
    (h : convert? dialect html = .ok output) :
    ∃ page, readPage html = .ok page ∧ output = unlines (componentLines dialect page) := by
  unfold convert? at h
  split at h
  · contradiction
  · rename_i page hr
    exact ⟨page, hr, (Except.ok.inj h).symm⟩

/-! ## The first occurrence of a word -/

namespace Text

/-- The text through the end of the first occurrence of a word, if there is one. -/
def throughFirst? (word text : Text) : Option Text :=
  (cutBefore? word.isPrefixOf text).map fun (front, _) => front ++ word

/-- A text that holds the word has the same first occurrence of it, however it goes on. -/
theorem throughFirst?_append {word front : Text} (h : word <:+: front) (back : Text) :
    throughFirst? word (front ++ back) = throughFirst? word front := by
  induction front with
  | nil =>
    obtain rfl := List.infix_nil.1 h
    cases back <;> rfl
  | cons c front ih =>
    unfold throughFirst? at ih ⊢
    rw [List.cons_append, cutBefore?, cutBefore?]
    by_cases hp : word <+: c :: front
    · have hlong : word <+: c :: (front ++ back) := hp.trans (List.prefix_append _ back)
      rw [if_pos (List.isPrefixOf_iff_prefix.2 hp), if_pos (List.isPrefixOf_iff_prefix.2 hlong)]
      rfl
    · -- A later occurrence leaves room for the word, so it does not reach into the rest.
      have htail : word <:+: front := (List.infix_cons_iff.1 h).resolve_left hp
      have hlong : ¬ word <+: c :: (front ++ back) := by
        intro hl
        rw [← List.cons_append] at hl
        apply hp
        refine List.prefix_of_prefix_length_le hl (List.prefix_append _ back) ?_
        have hle := htail.length_le
        rw [List.length_cons]
        omega
      rw [if_neg (mt List.isPrefixOf_iff_prefix.1 hp),
        if_neg (mt List.isPrefixOf_iff_prefix.1 hlong)]
      have hrest := ih htail
      cases hf : cutBefore? word.isPrefixOf front with
      | none =>
        rw [hf, Option.map_none, Option.map_eq_none_iff] at hrest
        rw [hrest]
      | some cut =>
        rw [hf] at hrest
        obtain ⟨cut', hc, he⟩ := Option.map_eq_some_iff.1 hrest
        simpa [hc] using he

/-- There is a first occurrence where the word stands. -/
theorem throughFirst?_ne_none {word text : Text} (h : word <:+: text) :
    throughFirst? word text ≠ none := by
  induction text with
  | nil =>
    obtain rfl := List.infix_nil.1 h
    exact Option.some_ne_none _
  | cons c text ih =>
    unfold throughFirst? at ih ⊢
    rw [cutBefore?]
    split
    · exact Option.some_ne_none _
    · rename_i hp
      have htail := (List.infix_cons_iff.1 h).resolve_left fun hw =>
        hp (List.isPrefixOf_iff_prefix.2 hw)
      intro hn
      rw [Option.map_eq_none_iff, Option.map_eq_none_iff] at hn
      exact ih htail (by rw [hn]; rfl)

end Text

/-! ## The parts of a component -/

namespace Component

/-- The line that ends the template section. -/
def templateEnd : Text := "</template>"

/-- What stands in front of the script section: the template section and an empty line. -/
def beforeScript (page : Page) : Text := unlines (templateSection page.template) ++ ['\n', '\n']

/-- What stands behind the script section: nothing, or an empty line and the style section. -/
def afterScript (page : Page) : Text :=
  if page.styles.isEmpty then [] else ['\n', '\n'] ++ unlines (styleSection page.styles)

/-- A text that runs from a line which opens a script section to the line that closes it. -/
def IsScriptSection (text : Text) : Prop :=
  ∃ (opening : Text) (body : List Text), "<script".toList <+: opening ∧ ['>'] <:+ opening ∧
    '\n' ∉ opening ∧ text = unlines ([opening] ++ body ++ [scriptClosing])

/-- In either dialect the script section runs from the line that opens it to the closing one. -/
theorem isScriptSection (dialect : Dialect) (script : Analysis) :
    IsScriptSection (unlines (scriptSection dialect script)) := by
  cases dialect with
  | composition =>
    exact ⟨compositionOpening, compositionBody script, by decide, by decide, by decide, rfl⟩
  | options =>
    refine ⟨"<script lang=\"ts\">", optionsOpening.tail ++ dataLines script.state ++
      optionsBetween ++ methodsBlock script.functions ++ optionsClosing.dropLast, by decide,
      by decide, by decide, ?_⟩
    apply congrArg unlines
    simp [scriptSection, optionsSection, optionsOpening, optionsClosing]

/-- No script section is without lines. -/
theorem scriptSection_ne_nil (dialect : Dialect) (script : Analysis) :
    scriptSection dialect script ≠ [] := by
  cases dialect with
  | composition => exact List.cons_ne_nil _ _
  | options => exact List.cons_ne_nil _ _

/-- A component is its script section between two texts that the dialect does not change. -/
theorem unlines_componentLines (dialect : Dialect) (page : Page) :
    unlines (componentLines dialect page) =
      beforeScript page ++ unlines (scriptSection dialect page.script) ++ afterScript page := by
  have hscript := scriptSection_ne_nil dialect page.script
  have htemplate : templateSection page.template ≠ [] := List.cons_ne_nil _ _
  have hfront : unlines (templateSection page.template ++ [[]] ++
      scriptSection dialect page.script) =
      beforeScript page ++ unlines (scriptSection dialect page.script) := by
    rw [unlines_append (List.append_ne_nil_of_left_ne_nil htemplate _) hscript,
      unlines_append htemplate (List.cons_ne_nil _ _), beforeScript]
    simp [unlines, joinWith]
  unfold componentLines styleTail afterScript
  split
  · rw [List.append_nil, List.append_nil, hfront]
  · have hstyle : styleSection page.styles ≠ [] := List.cons_ne_nil _ _
    rw [unlines_append (List.append_ne_nil_of_right_ne_nil _ hscript) (List.cons_ne_nil _ _),
      hfront, unlines_cons_of_ne_nil hstyle]
    rfl

/-- The template is closed in front of the script section. -/
theorem templateEnd_isInfix (page : Page) : templateEnd <:+: beforeScript page := by
  have hlast : templateEnd <:+ unlines (templateSection page.template) := by
    rw [templateSection, unlines_append (by simp [templateOpening]) (by simp [templateClosing])]
    refine List.IsSuffix.trans ?_ (List.suffix_append _ _)
    exact ⟨"\n  </div>\n".toList, rfl⟩
  exact hlast.isInfix.trans (List.prefix_append _ _).isInfix

end Component

/-! ## Conversions in both dialects -/

/-- The dialect changes the script section and nothing else. Both dialects give the same outcome
and the same counts. Where a page cannot be converted, what stands in for the component is the
same; where it can, the two components have a script section each, from the line that opens it to
the line that closes it, between the same two texts, which are the template section with an empty
line and, if there are styles, an empty line with the style section. Through the first place where
a template is closed the two components are the same. -/
theorem dialect_changes_script_only (html : Text) :
    (convert .composition html).outcome = (convert .options html).outcome ∧
      (convert .composition html).counts = (convert .options html).counts ∧
      ((convert .composition html).outcome ≠ .converted →
        (convert .composition html).output = (convert .options html).output) ∧
      ((convert .composition html).outcome = .converted →
        (∃ page, readPage html = .ok page ∧ ∀ dialect,
          IsScriptSection (unlines (scriptSection dialect page.script)) ∧
            (convert dialect html).output = beforeScript page ++
              unlines (scriptSection dialect page.script) ++ afterScript page) ∧
        ∃ front, throughFirst? templateEnd (convert .composition html).output = some front ∧
          throughFirst? templateEnd (convert .options html).output = some front) := by
  unfold convert
  cases readPage html with
  | error fault =>
    refine ⟨rfl, rfl, fun _ => rfl, fun h => ?_⟩
    cases fault <;> contradiction
  | ok page =>
    refine ⟨rfl, rfl, fun h => absurd rfl h, fun _ => ⟨⟨page, rfl, fun dialect => ?_⟩, ?_⟩⟩
    · exact ⟨isScriptSection dialect page.script, unlines_componentLines dialect page⟩
    · have hfirst (dialect : Dialect) :
          throughFirst? templateEnd (unlines (componentLines dialect page)) =
            throughFirst? templateEnd (beforeScript page) := by
        rw [unlines_componentLines, List.append_assoc,
          throughFirst?_append (templateEnd_isInfix page)]
      obtain ⟨front, h⟩ :=
        Option.ne_none_iff_exists'.1 (throughFirst?_ne_none (templateEnd_isInfix page))
      exact ⟨front, (hfirst .composition).trans h, (hfirst .options).trans h⟩

/-- A page whose markup closes a template of its own, with a script and a style. -/
def nestedTemplatePage : Text :=
  "<template><p>a</p></template><script>let a = 1</script><style>p {}</style>"

/-- Its components differ, but not through the end of the template in its markup, which comes before
that of the template section. -/
theorem nestedTemplatePage_changes_script_only :
    (convert .composition nestedTemplatePage).output ≠ (convert .options nestedTemplatePage).output ∧
      throughFirst? templateEnd (convert .options nestedTemplatePage).output = some
        "<template>\n  <div class=\"app-wrapper\">\n    <template><p>a</p></template>".toList := by
  have hc : (convert .composition nestedTemplatePage).outcome = .converted := by decide +kernel
  have hn : throughFirst? templateEnd (convert .composition nestedTemplatePage).output = some
      "<template>\n  <div class=\"app-wrapper\">\n    <template><p>a</p></template>".toList := by
    decide +kernel
  obtain ⟨front, h, h'⟩ := ((dialect_changes_script_only nestedTemplatePage).2.2.2 hc).2
  refine ⟨by decide +kernel, ?_⟩
  rw [h', ← h, hn]

end VueSfc
