import VueSfc.Proofs.Component.Dialects
import VueSfc.Proofs.Component.Recovery
import VueSfc.Proofs.Markup.Reading
import VueSfc.Proofs.Page.Extraction
import VueSfc.Proofs.Script.Diagnostic
import VueSfc.Proofs.Text.Separator

/-!
# Where a script section ends

A script section is read up to the first closing tag in it. In either dialect the statements are
written without making a closing tag or losing one, so a section closes before its last line just
when the source of one of its statements has a closing tag. No script block of a page has one. A
source can have one all the same, because diagnostic calls are taken out of a block and what stood
before and after a call is put together; every closing tag in a source was made in this way.
-/

namespace VueSfc

open Text Markup Element Script Component

/-! ## Closing tags in lines -/

namespace Component

/-- The closing tag of scripts, in any letter case, stands somewhere before the end of the text. -/
def ClosesEarly (text : Text) : Prop :=
  ∃ front middle back, text = front ++ middle ++ back ∧ eqFold scriptClosing middle = true ∧
    back ≠ []

/-- A closing tag before the end is one without the last character. -/
theorem closesEarly_iff {text : Text} :
    ClosesEarly text ↔ OccursFold scriptClosing text.dropLast :=
  (occursFold_dropLast_iff (by decide)).symm

instance (text : Text) : Decidable (ClosesEarly text) := decidable_of_iff _ closesEarly_iff.symm

/-- A closing tag occurs in one of the texts. -/
def HoldsEnd (texts : List Text) : Prop := ∃ text ∈ texts, OccursFold scriptClosing text

instance (texts : List Text) : Decidable (HoldsEnd texts) :=
  inferInstanceAs (Decidable (∃ _ ∈ texts, _))

/-- The closing tag has neither blank characters nor a second `<`. -/
private theorem scriptClosing_plain :
    scriptClosing ≠ [] ∧ '\n' ∉ scriptClosing ∧ (∀ c ∈ scriptClosing, isBlank c = false) ∧
      IsTagWord scriptClosing := by
  refine ⟨by decide, by decide, ?_, by decide⟩
  intro c hc
  have h : scriptClosing.all (fun d => !isBlank d) = true := by decide
  simpa using List.all_eq_true.1 h c hc

theorem holdsEnd_append {front back : List Text} :
    HoldsEnd (front ++ back) ↔ HoldsEnd front ∨ HoldsEnd back := by
  simp only [HoldsEnd, List.mem_append, or_and_right, exists_or]

theorem holdsEnd_cons {text : Text} {texts : List Text} :
    HoldsEnd (text :: texts) ↔ OccursFold scriptClosing text ∨ HoldsEnd texts :=
  List.exists_mem_cons_iff _ _ _

/-- A change that makes no closing tag and loses none, for each of some items. -/
theorem holdsEnd_map_iff {α : Type} {items : List α} {f g : α → Text}
    (h : ∀ a ∈ items, OccursFold scriptClosing (f a) ↔ OccursFold scriptClosing (g a)) :
    HoldsEnd (items.map f) ↔ HoldsEnd (items.map g) := by
  simp only [HoldsEnd, List.mem_map, exists_exists_and_eq_and]
  exact exists_congr fun a => and_congr_right fun ha => h a ha

/-- A section whose last line is the closing tag closes early where one of its other lines does. -/
theorem closesEarly_unlines_iff {ls : List Text} (hn : ls ≠ []) :
    ClosesEarly (unlines (ls ++ [scriptClosing])) ↔ HoldsEnd ls := by
  obtain ⟨hne, hfeed, -, -⟩ := scriptClosing_plain
  rw [closesEarly_iff, occursFold_dropLast_unlines_iff hne hfeed hn]
  rfl

/-! ## Lines of variables -/

/-- Spaces have no `<`. -/
private theorem lt_notMem_of_isSpaces {text : Text} (h : IsSpaces text) : '<' ∉ text :=
  fun hm => absurd (h _ hm) (by decide)

/-- A word has no `<`. -/
private theorem lt_notMem_of_isWord {text : Text} (h : ∀ c ∈ text, isWordChar c = true) :
    '<' ∉ text :=
  fun hm => absurd (h _ hm) (by decide)

/-- The source of a variable has a closing tag where its value has one. -/
theorem occursFold_source_iff {s : StateStatement} {space gap tail value : Text}
    (h : IsWritten s space gap tail) (hv : s.initializer = some value) :
    OccursFold scriptClosing s.source ↔ OccursFold scriptClosing value := by
  obtain ⟨hne, -, hblank, htag⟩ := scriptClosing_plain
  have hfront : '<' ∉ s.word.text ++ space ++ s.name ++ gap ++ "=" := by
    have hword : '<' ∉ s.word.text := by cases s.word <;> decide
    have hsign : '<' ∉ "=".toList := by decide
    simp only [List.mem_append, hword, lt_notMem_of_isSpaces h.isSpaces.1,
      lt_notMem_of_isWord h.name.chars, lt_notMem_of_isSpaces h.isSpaces_gap, hsign, or_self,
      not_false_eq_true]
  rw [h.source_eq, htag.occursFold_append_iff hfront, ← occursFold_trim_iff hne hblank]
  rcases h.initializer_eq value hv with ht | ⟨ht, -⟩
  · rw [ht]
    refine occursFold_append_right_iff hne ?_ value
    intro c hc
    rw [List.mem_singleton.1 hc]
    exact ⟨by decide, rfl⟩
  · rw [ht]

/-- The line of a variable has a closing tag where its source has one, if nothing that is written
around the value begins or ends a tag. -/
theorem occursFold_write_iff {s : StateStatement} {space gap tail : Text}
    (h : IsWritten s space gap tail) (style : LineStyle) (hf : '<' ∉ style.front)
    (hb : '<' ∉ style.between) (hl : Separates style.last scriptClosing) :
    OccursFold scriptClosing (style.write s) ↔ OccursFold scriptClosing s.source := by
  obtain ⟨hne, -, -, htag⟩ := scriptClosing_plain
  unfold LineStyle.write
  cases hv : s.initializer with
  | none => rfl
  | some value =>
    have hfront : '<' ∉ style.front ++ s.name ++ style.between := by
      simp only [List.mem_append, hf, lt_notMem_of_isWord h.name.chars, hb, or_self,
        not_false_eq_true]
    dsimp only
    rw [List.append_assoc _ value, htag.occursFold_append_iff hfront, occursFold_source_iff h hv]
    refine occursFold_append_right_iff hne ?_ value
    intro c hc
    rw [List.mem_singleton.1 hc]
    exact hl

/-! ## Lines of methods -/

/-- An assignment has no `<` before the value. -/
private theorem lt_notMem_of_isAssignment {name front after : Text}
    (h : IsAssignment name front after) : '<' ∉ front := by
  obtain ⟨hs, -, hg, hg', hname⟩ := h
  have hword : '<' ∉ "const".toList := by decide
  have hsign : '<' ∉ "=".toList := by decide
  simp only [List.mem_append, hword, lt_notMem_of_isSpaces hs, lt_notMem_of_isWord hname.chars,
    lt_notMem_of_isSpaces hg, hsign, lt_notMem_of_isSpaces hg', or_self, not_false_eq_true]

/-- The text of a method has a closing tag where the source of its function has one. -/
theorem occursFold_methodShorthand_iff {f : FunctionStatement} {head : Text}
    (h : IsHead f.form f.name f.params head f.body) (hsource : f.source = head ++ f.body) :
    OccursFold scriptClosing (methodShorthand f) ↔ OccursFold scriptClosing f.source := by
  obtain ⟨hne, -, hblank, htag⟩ := scriptClosing_plain
  unfold methodShorthand
  cases hform : f.form with
  | declaration =>
    dsimp only
    cases ha : after? "function".toList f.source with
    | none => rfl
    | some rest =>
      have hword : '<' ∉ "function".toList := by decide
      rw [after?_eq_some_iff.1 ha, htag.occursFold_append_iff hword]
      exact occursFold_trimStart_iff hne hblank rest
  | expression => rfl
  | arrow =>
    rw [hform] at h
    generalize hname : f.name = name, hparams : f.params = params, hbody : f.body = body
      at h hsource
    cases h with
    | @arrow _ _ front gap gap' _ hg hg' hassign _ =>
      have hspace : ∀ c ∈ gap, Separates c scriptClosing := fun c hc =>
        separates_of_isBlank (isBlank_of_isSpaceChar (hg c hc)) hblank
      have hgap : '<' ∉ '>' :: gap' := by
        have hsign : '<' ≠ '>' := by decide
        rw [List.mem_cons, not_or]
        exact ⟨hsign, lt_notMem_of_isSpaces hg'⟩
      have hshort : '<' ∉ name := by
        cases hassign with
        | intro _ _ _ _ hword => exact lt_notMem_of_isWord hword.chars
      have htext : f.source = front ++ (params ++ gap ++ '=' :: (('>' :: gap') ++ body)) := by
        rw [hsource]
        simp
      dsimp only
      rw [htext, htag.occursFold_append_iff (lt_notMem_of_isAssignment hassign),
        occursFold_append_cons_iff ⟨by decide, rfl⟩, occursFold_append_right_iff hne hspace,
        htag.occursFold_append_iff hgap, List.append_assoc, List.append_assoc,
        htag.occursFold_append_iff hshort, List.singleton_append,
        occursFold_append_cons_iff ⟨by decide, rfl⟩]

/-- A change of the last line that makes no closing tag and loses none. -/
theorem holdsEnd_onLast_iff {change : Text → Text}
    (h : ∀ line, OccursFold scriptClosing (change line) ↔ OccursFold scriptClosing line)
    (ls : List Text) : HoldsEnd (onLast change ls) ↔ HoldsEnd ls := by
  induction ls with
  | nil => rfl
  | cons line ls ih =>
    cases ls with
    | nil => rw [onLast, holdsEnd_cons, holdsEnd_cons, h]
    | cons next ls =>
      rw [onLast, holdsEnd_cons, ih]
      exact holdsEnd_cons.symm

/-- A comma at the end is part of no closing tag. -/
private theorem occursFold_comma_iff (line : Text) :
    OccursFold scriptClosing (line ++ [',']) ↔ OccursFold scriptClosing line := by
  refine occursFold_append_right_iff scriptClosing_plain.1 ?_ line
  intro c hc
  rw [List.mem_singleton.1 hc]
  exact ⟨by decide, rfl⟩

theorem occursFold_addComma_iff (line : Text) :
    OccursFold scriptClosing (addComma line) ↔ OccursFold scriptClosing line := by
  unfold addComma
  split
  · rfl
  · exact occursFold_comma_iff line

theorem occursFold_dropComma_iff (line : Text) :
    OccursFold scriptClosing (dropComma line) ↔ OccursFold scriptClosing line := by
  unfold dropComma
  split
  · rename_i hl
    conv_rhs => rw [← List.dropLast_append_getLast? _ hl]
    exact (occursFold_comma_iff _).symm
  · rfl

/-- The lines of a method have a closing tag where its text has one. -/
theorem holdsEnd_methodLines_iff (f : FunctionStatement) :
    HoldsEnd (methodLines f) ↔ OccursFold scriptClosing (methodShorthand f) := by
  obtain ⟨hne, hfeed, -, htag⟩ := scriptClosing_plain
  have hlines : HoldsEnd ((methodShorthand f).lines.map ("    ".toList ++ ·)) ↔
      OccursFold scriptClosing (methodShorthand f) := by
    have hindent : '<' ∉ "    ".toList := by decide
    rw [occursFold_iff_lines hne hfeed]
    refine (holdsEnd_map_iff (g := id) fun line _ => ?_).trans (by rw [List.map_id]; rfl)
    exact htag.occursFold_append_iff hindent line
  unfold methodLines
  dsimp only
  split
  · exact hlines
  · rw [holdsEnd_onLast_iff occursFold_addComma_iff, hlines]

/-! ## Sections -/

/-- The sources of all statements. -/
def sources (script : Analysis) : List Text :=
  script.state.map StateStatement.source ++ script.functions.map FunctionStatement.source

/-- The statements are put together from their parts. -/
structure IsReassembled (script : Analysis) : Prop where
  /-- Every variable is written from its parts. -/
  state : ∀ s ∈ script.state, ∃ space gap tail, IsWritten s space gap tail
  /-- Every function is a written head and its body. -/
  functions : ∀ f ∈ script.functions, ∃ head, IsHead f.form f.name f.params head f.body ∧
    f.source = head ++ f.body

/-- The statements of some scripts are put together from their parts. -/
theorem isReassembled_classifyAll (scripts : List Text) : IsReassembled (classifyAll scripts) := by
  rw [classifyAll_eq]
  constructor
  · intro s hs
    obtain ⟨script, -, hs⟩ := List.mem_flatMap.1 hs
    obtain ⟨line, -, hl⟩ := mem_state_classify hs
    exact isWritten_of_state hl
  · intro f hf
    obtain ⟨script, -, hf⟩ := List.mem_flatMap.1 hf
    exact exists_head_of_mem_functions hf

/-- The block of the variables has a closing tag where one of their sources has one. -/
theorem holdsEnd_stateBlock_iff {script : Analysis} (h : IsReassembled script) :
    HoldsEnd (stateBlock script.state) ↔ HoldsEnd (script.state.map StateStatement.source) := by
  have hlines : HoldsEnd (script.state.map reactiveLine) ↔
      HoldsEnd (script.state.map StateStatement.source) := by
    refine holdsEnd_map_iff fun s hs => ?_
    obtain ⟨space, gap, tail, hw⟩ := h.state s hs
    exact occursFold_write_iff hw .reactive (by decide) (by decide) ⟨by decide, rfl⟩
  have hheading : ¬ HoldsEnd [stateHeading] := by decide +kernel
  have hempty : ¬ HoldsEnd [[]] := by decide
  unfold stateBlock
  split
  · rename_i he
    rw [List.isEmpty_iff.1 he]
    rfl
  · rw [holdsEnd_append, holdsEnd_append, or_iff_left hempty, or_iff_right hheading, hlines]

/-- The block of the functions has a closing tag where one of their sources has one. -/
theorem holdsEnd_functionBlock_iff (functions : List FunctionStatement) :
    HoldsEnd (functionBlock functions) ↔ HoldsEnd (functions.map FunctionStatement.source) := by
  have hheading : ¬ HoldsEnd [functionHeading] := by decide
  have hempty : ¬ HoldsEnd [[]] := by decide
  unfold functionBlock
  split
  · rename_i he
    rw [List.isEmpty_iff.1 he]
    rfl
  · rw [holdsEnd_append, holdsEnd_append, or_iff_left hempty, or_iff_right hheading]

/-- The data has a closing tag where the source of a variable has one. -/
theorem holdsEnd_dataLines_iff {script : Analysis} (h : IsReassembled script) :
    HoldsEnd (dataLines script.state) ↔ HoldsEnd (script.state.map StateStatement.source) := by
  have hstarter : ¬ HoldsEnd [dataStarter] := by decide +kernel
  unfold dataLines
  split
  · rename_i he
    rw [List.isEmpty_iff.1 he]
    exact iff_of_false hstarter (by decide)
  · refine holdsEnd_map_iff fun s hs => ?_
    obtain ⟨space, gap, tail, hw⟩ := h.state s hs
    exact occursFold_write_iff hw .field (by decide) (by decide) ⟨by decide, rfl⟩

/-- The methods have a closing tag where the source of a function has one. -/
theorem holdsEnd_methodsBlock_iff {script : Analysis} (h : IsReassembled script) :
    HoldsEnd (methodsBlock script.functions) ↔
      HoldsEnd (script.functions.map FunctionStatement.source) := by
  have hstarter : ¬ HoldsEnd ["    // Add your component methods here".toList] := by
    decide +kernel
  have hlines : HoldsEnd (script.functions.flatMap methodLines) ↔
      HoldsEnd (script.functions.map methodShorthand) := by
    simp only [HoldsEnd, List.mem_flatMap, List.mem_map, exists_exists_and_eq_and]
    constructor
    · rintro ⟨line, ⟨f, hf, hl⟩, ho⟩
      exact ⟨f, hf, (holdsEnd_methodLines_iff f).1 ⟨line, hl, ho⟩⟩
    · rintro ⟨f, hf, ho⟩
      obtain ⟨line, hl, ho⟩ := (holdsEnd_methodLines_iff f).2 ho
      exact ⟨line, ⟨f, hf, hl⟩, ho⟩
  unfold methodsBlock
  split
  · rename_i he
    rw [List.isEmpty_iff.1 he]
    exact iff_of_false hstarter (by decide)
  · rw [methodsLines, holdsEnd_onLast_iff occursFold_dropComma_iff, hlines]
    refine holdsEnd_map_iff fun f hf => ?_
    obtain ⟨head, hh, hsource⟩ := h.functions f hf
    exact occursFold_methodShorthand_iff hh hsource

/-- In either dialect the script section closes early where the source of a statement has a closing
tag, and nowhere else. -/
theorem closesEarly_scriptSection_iff {script : Analysis} (h : IsReassembled script)
    (dialect : Dialect) :
    ClosesEarly (unlines (scriptSection dialect script)) ↔ HoldsEnd (sources script) := by
  cases dialect with
  | composition =>
    have hopening : ¬ HoldsEnd [compositionOpening] := by decide
    rw [scriptSection, compositionSection, closesEarly_unlines_iff (by simp),
      holdsEnd_append, or_iff_right hopening]
    unfold compositionBody
    split
    · rename_i he
      obtain ⟨state, functions⟩ := script
      simp only [Analysis.isEmpty, Bool.and_eq_true, List.isEmpty_iff] at he
      obtain ⟨rfl, rfl⟩ := he
      exact iff_of_false (by decide +kernel) (by decide)
    · have himport : ¬ HoldsEnd [refImport, []] := by decide
      have hreview : ¬ HoldsEnd [reviewComment] := by decide +kernel
      rw [holdsEnd_append, holdsEnd_append, holdsEnd_append, or_iff_right himport,
        or_iff_left hreview, holdsEnd_stateBlock_iff h, holdsEnd_functionBlock_iff, sources,
        holdsEnd_append]
  | options =>
    have hopening : ¬ HoldsEnd optionsOpening := by decide +kernel
    have hbetween : ¬ HoldsEnd optionsBetween := by decide
    have hclosing : ¬ HoldsEnd optionsClosing.dropLast := by decide +kernel
    have hsection : optionsSection script = (optionsOpening ++ dataLines script.state ++
        optionsBetween ++ methodsBlock script.functions ++ optionsClosing.dropLast) ++
          [scriptClosing] := by
      rw [optionsSection, List.append_assoc _ optionsClosing.dropLast]
      rfl
    rw [scriptSection, hsection, closesEarly_unlines_iff (by simp [optionsOpening]),
      holdsEnd_append, holdsEnd_append, holdsEnd_append, holdsEnd_append, or_iff_left hclosing,
      or_iff_left hbetween, or_iff_right hopening, holdsEnd_dataLines_iff h,
      holdsEnd_methodsBlock_iff h, sources, holdsEnd_append]

/-- A source of several scripts is the source of one of them. -/
theorem holdsEnd_sources_classifyAll (scripts : List Text) :
    HoldsEnd (sources (classifyAll scripts)) ↔
      ∃ script ∈ scripts, HoldsEnd (sources (classify script)) := by
  simp only [HoldsEnd, sources, classifyAll_eq, List.mem_append, List.mem_map, List.mem_flatMap]
  constructor
  · rintro ⟨source, (⟨s, ⟨script, hm, hs⟩, he⟩ | ⟨f, ⟨script, hm, hf⟩, he⟩), ho⟩
    · exact ⟨script, hm, source, .inl ⟨s, hs, he⟩, ho⟩
    · exact ⟨script, hm, source, .inr ⟨f, hf, he⟩, ho⟩
  · rintro ⟨script, hm, source, (⟨s, hs, he⟩ | ⟨f, hf, he⟩), ho⟩
    · exact ⟨source, .inl ⟨s, ⟨script, hm, hs⟩, he⟩, ho⟩
    · exact ⟨source, .inr ⟨f, ⟨script, hm, hf⟩, he⟩, ho⟩

end Component

/-! ## Closing tags in script blocks -/

/-- The characters stand in the script without its diagnostic calls, but did not all stand next to
each other in the script: a call between them was taken out. -/
def IsPutTogether (script middle : Text) : Prop :=
  ∃ stretch : Placed, stretch <:+: Pass.diagnosticFree.placed script ∧ stretch.letters = middle ∧
    ¬ stretch.IsUnbroken

/-- No script block of a page has a closing tag. -/
theorem not_occursFold_of_mem_scripts {page script : Text}
    (h : script ∈ (PageParts.ofPage page).scripts) : ¬ OccursFold scriptClosing script := by
  have hname : IsPlainName "script" := by decide
  obtain ⟨-, -, hblank, -⟩ := scriptClosing_plain
  exact not_occursFold_of_mem_trimmedBlocks hname hblank h

/-- A stretch of a statement's source on one line is a stretch of the script without its
diagnostic calls. -/
theorem isInfix_stripDiagnostics {script source middle : Text}
    (hs : source ∈ sources (classify script)) (hm : middle <:+: source) (hn : middle ≠ [])
    (hf : '\n' ∉ middle) : middle <:+: stripDiagnostics script := by
  have hlines : ∀ line ∈ lines source, line ∈ analysedLines script := by
    rcases List.mem_append.1 hs with hs | hs
    · obtain ⟨s, hstate, rfl⟩ := List.mem_map.1 hs
      obtain ⟨line, hl, hh⟩ := mem_state_classify hstate
      rw [source_of_state hh, lines_eq_singleton (of_mem_analysedLines hl).2.1]
      intro l hm
      rwa [List.mem_singleton.1 hm]
    · obtain ⟨f, hf, rfl⟩ := List.mem_map.1 hs
      obtain ⟨p, rfl, -, hl⟩ := mem_functions_classify hf
      rwa [lines_source hl]
  obtain ⟨line, hl, hm⟩ := (isInfix_iff_lines hf hn source).1 hm
  exact hm.trans (isInfix_of_mem_analysedLines (hlines line hl))

/-- A closing tag in the source of a statement of a page's script was put together. -/
theorem isPutTogether_of_mem_sources {page script source middle : Text}
    (hscript : script ∈ (PageParts.ofPage page).scripts)
    (hs : source ∈ sources (classify script)) (hm : middle <:+: source)
    (hclosing : eqFold scriptClosing middle = true) : IsPutTogether script middle := by
  have hn : middle ≠ [] := by
    rintro rfl
    exact absurd hclosing (by decide)
  have hf : '\n' ∉ middle := by
    rw [mem_iff_of_eqFold rfl hclosing]
    decide
  have hleft := isInfix_stripDiagnostics hs hm hn hf
  have hrun : (Pass.diagnosticFree.placed script).letters = stripDiagnostics script :=
    Pass.letters_placed _ script
  obtain ⟨front, back, he⟩ := hleft
  rw [← he, List.append_assoc] at hrun
  obtain ⟨front', rest, hplaced, -, hrest⟩ := Placed.exists_append_of_letters hrun
  obtain ⟨stretch, back', rfl, hletters, -⟩ := Placed.exists_append_of_letters hrest
  have hstretch : stretch <:+: Pass.diagnosticFree.placed script :=
    ⟨front', back', by rw [hplaced, List.append_assoc]⟩
  refine ⟨stretch, hstretch, hletters, fun hu => ?_⟩
  apply not_occursFold_of_mem_scripts hscript
  have hwhole := hu.letters_isInfix hstretch (Pass.diagnosticFree.leave_sublist _)
  rw [hletters] at hwhole
  obtain ⟨left, right, h⟩ := hwhole
  exact ⟨left, middle, right, h.symm, hclosing⟩

/-! ## Converted pages -/

/-- The script of a page is what its script blocks say. -/
theorem script_of_readPage {html : Text} {page : Page} (h : readPage html = .ok page) :
    page.script = classifyAll (PageParts.ofPage html).scripts := by
  rw [(Page.read_eq_ok_iff.1 (readPage_eq_ok_iff.1 h)).2]

/-- The script section of a component closes before its last line just when the source of a
statement in one of the script blocks of the page has a closing tag. Every closing tag in such a
source was put together where a diagnostic call was taken out of the block, so a page without
diagnostic calls has a component whose script section has its only closing tag at the end. -/
theorem script_section_closes_early_iff (dialect : Dialect) (html output : Text)
    (h : convert? dialect html = .ok output) :
    ∃ page, readPage html = .ok page ∧ output = beforeScript page ++
        unlines (scriptSection dialect page.script) ++ afterScript page ∧
      (ClosesEarly (unlines (scriptSection dialect page.script)) ↔
        ∃ script ∈ (PageParts.ofPage html).scripts, HoldsEnd (sources (classify script))) ∧
      (∀ script ∈ (PageParts.ofPage html).scripts, ∀ source ∈ sources (classify script),
        ∀ front middle back, source = front ++ middle ++ back →
          eqFold scriptClosing middle = true → IsPutTogether script middle) ∧
      ((∀ script ∈ (PageParts.ofPage html).scripts, ¬ consoleWord <:+: script) →
        ¬ ClosesEarly (unlines (scriptSection dialect page.script))) := by
  obtain ⟨page, hpage, rfl⟩ := exists_readPage_of_convert? h
  have hscript := script_of_readPage hpage
  have hiff : ClosesEarly (unlines (scriptSection dialect page.script)) ↔
      ∃ script ∈ (PageParts.ofPage html).scripts, HoldsEnd (sources (classify script)) := by
    rw [hscript, closesEarly_scriptSection_iff (isReassembled_classifyAll _),
      holdsEnd_sources_classifyAll]
  refine ⟨page, hpage, unlines_componentLines dialect page, hiff, ?_, ?_⟩
  · intro script hs source hsource front middle back he hm
    exact isPutTogether_of_mem_sources hs hsource ⟨front, back, he.symm⟩ hm
  · intro hcalls hearly
    obtain ⟨script, hs, source, hsource, front, middle, back, rfl, hm⟩ := hiff.1 hearly
    have hn : middle ≠ [] := by
      rintro rfl
      exact absurd hm (by decide)
    have hf : '\n' ∉ middle := by
      rw [mem_iff_of_eqFold rfl hm]
      decide
    obtain ⟨left, right, he⟩ := isInfix_stripDiagnostics hsource ⟨front, back, rfl⟩ hn hf
    rw [stripDiagnostics_eq_self (hcalls script hs)] at he
    exact not_occursFold_of_mem_scripts hs ⟨left, middle, right, he.symm, hm⟩

/-- A page with a diagnostic call inside of a closing tag. -/
def splitTagPage : Text := "<p>a</p><script>let a = \"</scrconsole.log(1)ipt>\"</script>"

/-- The script section of its component closes early in both dialects. -/
theorem splitTagPage_closesEarly :
    ∃ page, readPage splitTagPage = .ok page ∧ ∀ dialect,
      (convert dialect splitTagPage).outcome = .converted ∧
      (convert dialect splitTagPage).output = beforeScript page ++
        unlines (scriptSection dialect page.script) ++ afterScript page ∧
      ClosesEarly (unlines (scriptSection dialect page.script)) := by
  cases hr : readPage splitTagPage with
  | error fault =>
    have hb : (readPage splitTagPage).toBool = true := by decide +kernel
    rw [hr] at hb
    contradiction
  | ok page =>
    have hearly : ∀ dialect, ClosesEarly (unlines (scriptSection dialect page.script)) := by
      rw [script_of_readPage hr]
      intro dialect
      cases dialect <;> decide +kernel
    refine ⟨page, rfl, fun dialect => ?_⟩
    have hconvert : convert dialect splitTagPage =
        ⟨unlines (componentLines dialect page), .converted, some (.ofPage page)⟩ := by
      simp only [convert, hr]
    rw [hconvert]
    exact ⟨rfl, unlines_componentLines dialect page, hearly dialect⟩

/-- The closing tag in the source of its variable was put together. -/
theorem splitTagPage_tag_isPutTogether :
    ∃ script ∈ (PageParts.ofPage splitTagPage).scripts, HoldsEnd (sources (classify script)) ∧
      IsPutTogether script "</script>" := by
  cases hc : convert? .options splitTagPage with
  | error fault =>
    have hb : (convert? .options splitTagPage).toBool = true := by decide +kernel
    rw [hc] at hb
    contradiction
  | ok output =>
    obtain ⟨page, hpage, -, hiff, hjoined, -⟩ :=
      script_section_closes_early_iff .options splitTagPage output hc
    have hearly : ClosesEarly (unlines (scriptSection .options page.script)) := by
      rw [script_of_readPage hpage]
      decide +kernel
    obtain ⟨script, hs, hsource⟩ := hiff.1 hearly
    refine ⟨script, hs, hsource, ?_⟩
    have hscripts : (PageParts.ofPage splitTagPage).scripts =
        ["let a = \"</scrconsole.log(1)ipt>\"".toList] := by decide +kernel
    have hone := hs
    rw [hscripts, List.mem_singleton] at hone
    subst hone
    exact hjoined _ hs "let a = \"</script>\"" (by decide +kernel) "let a = \"" "</script>" "\""
      rfl (by decide)

end VueSfc
