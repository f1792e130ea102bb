import Mathlib.Data.List.SplitBy
import VueSfc.Component.OptionsSection
import VueSfc.Proofs.Script.Statement

/-!
# Reading a script section back

Emission loses no statement. From the lines of a section in the composition dialect one reads off
the variables, each with its name and value or, where it has none, its source, and the functions
with their sources; from the lines of a section in the options dialect one reads off the same
variables. Headings, empty lines and copied lines cannot be taken for each other, because no line
of a statement is empty and only the first line of a function opens one.
-/

namespace VueSfc.Component

open Text Script

/-! ## Readers -/

/-- What a section shows of a variable. -/
inductive ShownVariable where
  /-- Its name and its value. -/
  | valued (name value : Text)
  /-- Its source, where it has no value. -/
  | copied (source : Text)
  deriving DecidableEq, Repr

/-- What a section is to show of a variable. -/
def shown (s : StateStatement) : ShownVariable :=
  match s.initializer with
  | some value => .valued s.name value
  | none => .copied s.source

/-- How a line is made from a name and a value: by what stands in front of the two, between them
and behind them. The name and the value can be told apart, and a line with a value cannot be taken
for a copied one. -/
structure LineStyle where
  /-- What stands in front. -/
  front : Text
  /-- What stands between the name and the value. -/
  between : Text
  /-- The character at the end. -/
  last : Char
  /-- No line ends in front of the name or behind it. -/
  feed_notMem : '\n' ∉ front ∧ '\n' ∉ between ∧ '\n' ≠ last
  /-- The name ends where it is followed by other text. -/
  between_start : ∃ c ∈ between.head?, isWordChar c = false
  /-- The end is not that of a source without a value. -/
  last_ne : last ≠ '='

namespace LineStyle

/-- The lines of reactive state. -/
def reactive : LineStyle where
  front := "const "
  between := " = ref("
  last := ')'
  feed_notMem := by decide
  between_start := ⟨' ', rfl, rfl⟩
  last_ne := by decide

/-- The fields of the data object. -/
def field : LineStyle where
  front := "      "
  between := ": "
  last := ','
  feed_notMem := by decide
  between_start := ⟨':', rfl, rfl⟩
  last_ne := by decide

/-- The line of a variable; one without a value is copied. -/
def write (style : LineStyle) (s : StateStatement) : Text :=
  match s.initializer with
  | some value => style.front ++ s.name ++ style.between ++ value ++ [style.last]
  | none => s.source

/-- Read the line of a variable. -/
def read (style : LineStyle) (line : Text) : ShownVariable :=
  if line.getLast? = some style.last then
    let pair := line.drop style.front.length
    .valued (pair.takeWhile isWordChar)
      ((pair.dropWhile isWordChar).drop style.between.length).dropLast
  else .copied line

end LineStyle

/-- The lines under a heading down to the next empty line, and the lines behind it; no lines and
all of them, if the heading is another one. -/
def under (heading : Text) (ls : List Text) : List Text × List Text :=
  if ls.head? = some heading then
    (ls.tail.takeWhile (!List.isEmpty ·), (ls.tail.dropWhile (!List.isEmpty ·)).tail)
  else ([], ls)

/-- The texts of the functions in some lines, each of which begins where a line opens one. -/
def functionTexts (ls : List Text) : List Text := (ls.splitBy fun _ next => !Opens next).map unlines

/-- Read the variables and the functions in the lines of a section in the composition dialect. -/
def readComposition (ls : List Text) : List ShownVariable × List Text :=
  let (state, rest) := under stateHeading (ls.drop [compositionOpening, refImport, []].length)
  (state.map LineStyle.reactive.read, functionTexts (under functionHeading rest).1)

/-- The line that stands for the data where there are no variables. -/
def dataStarter : Text := "      // Add your component data here"

/-- The line behind the data. -/
def dataClosing : Text := "    \x7d"

/-- The lines of the data in a section in the options dialect. -/
def dataPart (ls : List Text) : List Text :=
  (ls.drop optionsOpening.length).takeWhile (· != dataClosing)

/-- Read the variables in the lines of the data. -/
def readData (ls : List Text) : List ShownVariable :=
  if ls = [dataStarter] then [] else ls.map LineStyle.field.read

/-! ## Statements that can be read back -/

/-- What makes a variable readable: its name is a word, and what is written of it is one line, which
is its source where there is no value. -/
structure IsReadableVariable (s : StateStatement) : Prop where
  /-- The name is a word. -/
  name_chars : ∀ c ∈ s.name, isWordChar c = true
  /-- The value is on one line. -/
  value_line : ∀ value ∈ s.initializer, '\n' ∉ value
  /-- The source is on one line. -/
  source_line : '\n' ∉ s.source
  /-- A source without a value ends with the equals sign. -/
  source_end : s.initializer = none → s.source.getLast? = some '='
  /-- The source is all there is to a variable. -/
  ofLine_source : LineShape.ofLine s.source = .state s

/-- What makes a function readable: its first line opens a function, no later one does, and no line
is empty. -/
structure IsReadableFunction (f : FunctionStatement) : Prop where
  /-- The first line opens a function and no later one does. -/
  opens_first : ∃ first later, lines f.source = first :: later ∧ Opens first ∧
    ∀ line ∈ later, ¬ Opens line
  /-- No line is empty. -/
  line_ne_nil : ∀ line ∈ lines f.source, line ≠ []

/-- Every variable of a script is readable. -/
theorem isReadableVariable_of_mem {script : Text} {s : StateStatement}
    (h : s ∈ (classify script).state) : IsReadableVariable s := by
  obtain ⟨line, hm, hl⟩ := mem_state_classify h
  obtain ⟨space, gap, tail, hw⟩ := isWritten_of_state hl
  obtain ⟨-, hfeed, raw, hraw⟩ := of_mem_analysedLines hm
  have hs := source_of_state hl
  have htail : tail <:+ s.source := ⟨_, hw.source_eq.symm⟩
  refine ⟨hw.name.chars, fun value hv hc => ?_, hs ▸ hfeed, fun hn => ?_, hs.symm ▸ hl⟩
  · have hvalue : value <+: trim tail := by
      rcases hw.initializer_eq value hv with he | ⟨he, -⟩
      · exact ⟨[';'], he.symm⟩
      · exact he ▸ List.prefix_refl _
    exact hfeed (hs ▸ htail.subset ((isInfix_trim tail).subset (hvalue.subset hc)))
  · -- A blank tail would have been trimmed with the line, so there is none.
    have hblank := hw.initializer_eq_none.1 hn
    have hnil : tail = [] := by
      by_contra hne
      obtain ⟨c, hc⟩ := Option.ne_none_iff_exists'.1 (List.getLast?_eq_none_iff.not.2 hne)
      have hlast : c ∈ (trim raw).getLast? := by
        rw [← hraw, ← hs, hw.source_eq, List.getLast?_append_of_ne_nil _ hne]
        exact hc
      have hb := List.all_eq_true.1 hblank c (List.mem_of_getLast? hc)
      rw [not_isBlank_of_getLast?_trim hlast] at hb
      exact Bool.false_ne_true hb
    rw [hw.source_eq, hnil, List.append_nil, List.getLast?_append_of_ne_nil _ (by decide)]
    rfl

/-- Every function of a script is readable. -/
theorem isReadableFunction_of_mem {script : Text} {f : FunctionStatement}
    (h : f ∈ (classify script).functions) : IsReadableFunction f := by
  obtain ⟨p, rfl, hb, hm⟩ := mem_functions_classify h
  have hl := lines_source hm
  refine ⟨⟨p.firstLine, p.later, hl, ⟨p.head, hb.1⟩, hb.2⟩, fun line hline => ?_⟩
  rw [hl] at hline
  exact (of_mem_analysedLines (hm line hline)).1

/-- Every statement of several scripts is readable. -/
theorem isReadable_of_mem_classifyAll (scripts : List Text) :
    (∀ s ∈ (classifyAll scripts).state, IsReadableVariable s) ∧
      ∀ f ∈ (classifyAll scripts).functions, IsReadableFunction f := by
  rw [classifyAll_eq]
  constructor
  · intro s hs
    obtain ⟨script, -, hs⟩ := List.mem_flatMap.1 hs
    exact isReadableVariable_of_mem hs
  · intro f hf
    obtain ⟨script, -, hf⟩ := List.mem_flatMap.1 hf
    exact isReadableFunction_of_mem hf

/-! ## Lines of variables -/

namespace IsReadableVariable

variable {s : StateStatement} (h : IsReadableVariable s) (style : LineStyle)
include h

/-- The line of a variable ends as its style says, or as a source without a value. -/
theorem getLast?_write :
    (style.write s).getLast? = some style.last ∨ (style.write s).getLast? = some '=' := by
  rw [LineStyle.write]
  split
  · exact .inl List.getLast?_concat
  · rename_i hn
    exact .inr (h.source_end hn)

/-- The line of a variable is not empty. -/
theorem write_ne_nil : style.write s ≠ [] := by
  rintro he
  rcases h.getLast?_write style with hl | hl <;> simp [he] at hl

/-- The line of a variable is one line. -/
theorem feed_notMem_write : '\n' ∉ style.write s := by
  rw [LineStyle.write]
  split
  · rename_i value hv
    obtain ⟨hf, hb, hl⟩ := style.feed_notMem
    have hname : '\n' ∉ s.name := fun hc => absurd (h.name_chars _ hc) (by decide)
    simp only [List.mem_append, List.mem_singleton, hf, hname, hb, h.value_line value hv, hl,
      or_self, not_false_eq_true]
  · exact h.source_line

/-- From the line of a variable one reads what it is to show. -/
theorem read_write : style.read (style.write s) = shown s := by
  rw [LineStyle.write, shown]
  cases hv : s.initializer with
  | none =>
    have hl : some '=' ≠ some style.last := fun he => style.last_ne (Option.some.inj he).symm
    simp only [LineStyle.read]
    rw [h.source_end hv, if_neg hl]
  | some value =>
    obtain ⟨c, hc, hw⟩ := style.between_start
    obtain ⟨between, hb⟩ := List.head?_eq_some_iff.1 hc
    have hpair : (style.front ++ s.name ++ style.between ++ value ++ [style.last]).drop
        style.front.length = s.name ++ c :: (between ++ (value ++ [style.last])) := by
      simp [hb]
    have hrest : (c :: (between ++ (value ++ [style.last]))).drop style.between.length =
        value ++ [style.last] := by
      rw [hb, ← List.cons_append, List.drop_left]
    simp only [LineStyle.read]
    rw [if_pos List.getLast?_concat, hpair, List.takeWhile_append_of_pos h.name_chars,
      List.takeWhile_cons_of_neg (by simp [hw]), List.append_nil,
      List.dropWhile_append_of_pos h.name_chars, List.dropWhile_cons_of_neg (by simp [hw]), hrest,
      List.dropLast_concat]

end IsReadableVariable

/-! ## Blocks of lines -/

/-- Some lines under a heading and an empty line behind them, or nothing at all. -/
def headed (heading : Text) (body : List Text) : List Text :=
  if body.isEmpty then [] else [heading] ++ body ++ [[]]

/-- The lines under a heading are found, and what follows them, unless that begins with the same
heading. -/
theorem under_headed {heading : Text} {body rest : List Text} (hb : ∀ line ∈ body, line ≠ [])
    (hr : rest.head? ≠ some heading) :
    under heading (headed heading body ++ rest) = (body, rest) := by
  rw [headed]
  split
  · rename_i he
    rw [List.isEmpty_iff.1 he, List.nil_append, under, if_neg hr]
  · have hp : ∀ line ∈ body, (!line.isEmpty) = true := by
      intro line hl
      simpa using hb line hl
    simp only [List.cons_append, List.append_assoc, List.nil_append]
    rw [under, List.head?_cons, if_pos rfl, List.tail_cons, List.takeWhile_append_of_pos hp,
      List.dropWhile_append_of_pos hp, List.takeWhile_cons_of_neg (by simp),
      List.dropWhile_cons_of_neg (by simp), List.append_nil, List.tail_cons]

/-- The functions in lines are told apart by the lines that open them. -/
theorem functionTexts_flatMap {functions : List FunctionStatement}
    (h : ∀ f ∈ functions, IsReadableFunction f) :
    functionTexts (functions.flatMap fun f => lines f.source) =
      functions.map FunctionStatement.source := by
  have hsplit : (functions.flatMap fun f => lines f.source).splitBy (fun _ next => !Opens next) =
      functions.map fun f => lines f.source := by
    rw [List.flatMap_def]
    refine List.splitBy_flatten ?_ ?_ (List.Pairwise.isChain ?_)
    · simp only [List.mem_map, not_exists, not_and]
      exact fun f _ => List.splitOn_ne_nil '\n' f.source
    · -- Within a function no line but the first opens one.
      intro ls hls
      obtain ⟨f, hf, rfl⟩ := List.mem_map.1 hls
      obtain ⟨first, later, hl, -, hlater⟩ := (h f hf).opens_first
      rw [hl]
      refine List.Pairwise.isChain (List.pairwise_cons.2 ⟨fun line hm => ?_, ?_⟩)
      · simpa using hlater line hm
      · refine List.pairwise_of_forall_mem_list fun _ _ line hm => ?_
        simpa using hlater line hm
    · -- Between two functions the next line opens one.
      rw [List.pairwise_map]
      refine List.pairwise_of_forall_mem_list fun f _ g hg => ?_
      obtain ⟨first, later, hl, ho, -⟩ := (h g hg).opens_first
      refine ⟨List.splitOn_ne_nil '\n' f.source, List.splitOn_ne_nil '\n' g.source, ?_⟩
      simpa [hl] using ho
  rw [functionTexts, hsplit, List.map_map]
  exact List.map_congr_left fun f _ => List.intercalate_splitOn '\n'

/-! ## Sections -/

/-- The variables under their heading. -/
theorem stateBlock_eq (state : List StateStatement) :
    stateBlock state = headed stateHeading (state.map LineStyle.reactive.write) := by
  rw [stateBlock, headed, List.isEmpty_map]
  rfl

/-- The lines of the functions under their heading. -/
theorem lines_functionBlock (functions : List FunctionStatement) :
    (functionBlock functions).flatMap lines =
      headed functionHeading (functions.flatMap fun f => lines f.source) := by
  cases functions with
  | nil => rfl
  | cons f functions =>
    obtain ⟨line, rest, hl⟩ := List.exists_cons_of_ne_nil (List.splitOn_ne_nil '\n' f.source)
    have hne : ((f :: functions).flatMap fun f => lines f.source).isEmpty = false := by
      rw [List.flatMap_cons, lines, hl]
      rfl
    have hheading : lines functionHeading = [functionHeading] :=
      lines_eq_singleton (by decide)
    rw [headed, hne, functionBlock, List.isEmpty_cons, if_neg Bool.false_ne_true,
      if_neg Bool.false_ne_true, List.flatMap_append, List.flatMap_append, List.flatMap_map,
      List.flatMap_singleton, hheading]
    rfl

/-- The lines of a section with statements in the composition dialect. -/
theorem lines_compositionSection {script : Analysis}
    (hs : ∀ s ∈ script.state, IsReadableVariable s) (hn : script.isEmpty = false) :
    lines (unlines (compositionSection script)) =
      [compositionOpening, refImport, []] ++
        (headed stateHeading (script.state.map LineStyle.reactive.write) ++
          (headed functionHeading (script.functions.flatMap fun f => lines f.source) ++
            [reviewComment, scriptClosing])) := by
  have hstate : (stateBlock script.state).flatMap lines =
      headed stateHeading (script.state.map LineStyle.reactive.write) := by
    rw [stateBlock_eq]
    refine flatMap_lines_of_notMem fun line hl => ?_
    rw [headed] at hl
    split at hl
    · simp at hl
    · simp only [List.mem_append, List.mem_singleton, List.mem_map] at hl
      rcases hl with (rfl | ⟨s, hm, rfl⟩) | rfl
      · decide
      · exact (hs s hm).feed_notMem_write _
      · exact List.not_mem_nil
  have hfront : [compositionOpening, refImport, []].flatMap lines =
      [compositionOpening, refImport, []] := flatMap_lines_of_notMem (by decide)
  have hback : [reviewComment, scriptClosing].flatMap lines = [reviewComment, scriptClosing] :=
    flatMap_lines_of_notMem (by decide)
  have hsection : compositionSection script =
      [compositionOpening, refImport, []] ++ (stateBlock script.state ++
        (functionBlock script.functions ++ [reviewComment, scriptClosing])) := by
    rw [compositionSection, compositionBody, hn, if_neg Bool.false_ne_true]
    simp only [List.append_assoc, List.cons_append, List.nil_append]
  rw [hsection, lines_unlines (by simp), List.flatMap_append, List.flatMap_append,
    List.flatMap_append, hfront, hstate, lines_functionBlock, hback]

/-- From a section in the composition dialect one reads the variables and the functions. -/
theorem readComposition_compositionSection {script : Analysis}
    (hs : ∀ s ∈ script.state, IsReadableVariable s)
    (hf : ∀ f ∈ script.functions, IsReadableFunction f) :
    readComposition (lines (unlines (compositionSection script))) =
      (script.state.map shown, script.functions.map FunctionStatement.source) := by
  cases hn : script.isEmpty with
  | true =>
    obtain ⟨state, functions⟩ := script
    simp only [Analysis.isEmpty, Bool.and_eq_true, List.isEmpty_iff] at hn
    obtain ⟨rfl, rfl⟩ := hn
    decide +kernel
  | false =>
    have hstate : ∀ line ∈ script.state.map LineStyle.reactive.write, line ≠ [] := by
      intro line hl
      obtain ⟨s, hm, rfl⟩ := List.mem_map.1 hl
      exact (hs s hm).write_ne_nil _
    have hlines : ∀ line ∈ script.functions.flatMap fun f => lines f.source, line ≠ [] := by
      intro line hl
      obtain ⟨f, hm, hl⟩ := List.mem_flatMap.1 hl
      exact (hf f hm).line_ne_nil line hl
    have hrest : (headed functionHeading (script.functions.flatMap fun f => lines f.source) ++
        [reviewComment, scriptClosing]).head? ≠ some stateHeading := by
      rw [headed]
      split
      · decide
      · have hheadings : functionHeading ≠ stateHeading := by decide
        simpa using hheadings
    rw [lines_compositionSection hs hn, readComposition, List.drop_left,
      under_headed hstate hrest]
    simp only
    rw [under_headed hlines (by decide), functionTexts_flatMap hf, List.map_map]
    refine congrArg (·, _) (List.map_congr_left fun s hm => ?_)
    exact (hs s hm).read_write _

/-- The line of a field is none that ends in another way. -/
theorem dataField_ne {s : StateStatement} (h : IsReadableVariable s) {line : Text}
    (hl : line.getLast? ≠ some ',' ∧ line.getLast? ≠ some '=') : dataField s ≠ line := by
  rintro rfl
  rcases h.getLast?_write .field with he | he
  · exact hl.1 he
  · exact hl.2 he

/-- The lines of the data are lines, and none of them is the one behind the data. -/
theorem of_mem_dataLines {state : List StateStatement} (hs : ∀ s ∈ state, IsReadableVariable s) :
    ∀ line ∈ dataLines state, '\n' ∉ line ∧ (line != dataClosing) = true := by
  intro line hl
  rw [dataLines] at hl
  split at hl
  · rw [List.mem_singleton.1 hl]
    decide
  · obtain ⟨s, hm, rfl⟩ := List.mem_map.1 hl
    exact ⟨(hs s hm).feed_notMem_write .field, bne_iff_ne.2 (dataField_ne (hs s hm) (by decide))⟩

/-- The data of a section in the options dialect is found. -/
theorem dataPart_optionsSection {script : Analysis}
    (hs : ∀ s ∈ script.state, IsReadableVariable s) :
    dataPart (lines (unlines (optionsSection script))) = dataLines script.state := by
  have hfront : optionsOpening.flatMap lines = optionsOpening :=
    flatMap_lines_of_notMem (by decide)
  have hdata : (dataLines script.state).flatMap lines = dataLines script.state :=
    flatMap_lines_of_notMem fun line hl => (of_mem_dataLines hs line hl).1
  have hbetween : optionsBetween.flatMap lines = [dataClosing, "  \x7d,", "  methods: \x7b"] :=
    flatMap_lines_of_notMem (by decide)
  rw [lines_unlines (by simp [optionsSection, optionsOpening]), optionsSection]
  simp only [List.flatMap_append, List.append_assoc, hfront, hdata, hbetween]
  rw [dataPart, List.drop_left,
    List.takeWhile_append_of_pos fun line hl => (of_mem_dataLines hs line hl).2, List.cons_append,
    List.takeWhile_cons_of_neg (by simp), List.append_nil]

/-- From the data one reads the variables. -/
theorem readData_dataLines {state : List StateStatement}
    (hs : ∀ s ∈ state, IsReadableVariable s) : readData (dataLines state) = state.map shown := by
  cases state with
  | nil => rfl
  | cons s state =>
    have hstarter : (s :: state).map dataField ≠ [dataStarter] := by
      rw [List.map_cons]
      intro he
      exact dataField_ne (hs s List.mem_cons_self) (by decide) (List.cons.inj he).1
    rw [dataLines, List.isEmpty_cons, if_neg Bool.false_ne_true, readData, if_neg hstarter,
      List.map_map]
    exact List.map_congr_left fun s hm => (hs s hm).read_write .field

/-! ## What sections tell of scripts -/

/-- Two variables agree in all that a section shows: name and value, and everything where there is
no value. With a value, the declaring word is not shown, nor the spacing of the source and its
final semicolon. -/
structure ShowAlike (s t : StateStatement) : Prop where
  /-- The names are the same. -/
  name_eq : s.name = t.name
  /-- The values are the same. -/
  initializer_eq : s.initializer = t.initializer
  /-- Without a value everything is the same. -/
  eq_of_none : s.initializer = none → s = t

/-- Readable variables of which the same is shown agree. -/
theorem showAlike_of_shown_eq {s t : StateStatement} (hs : IsReadableVariable s)
    (ht : IsReadableVariable t) (h : shown s = shown t) : ShowAlike s t := by
  rw [shown, shown] at h
  cases hvs : s.initializer with
  | none =>
    cases hvt : t.initializer with
    | none =>
      rw [hvs, hvt] at h
      have hsource := ShownVariable.copied.inj h
      have he : s = t :=
        LineShape.state.inj (hs.ofLine_source.symm.trans (hsource ▸ ht.ofLine_source))
      exact ⟨congrArg _ he, congrArg _ he, fun _ => he⟩
    | some value => simp [hvs, hvt] at h
  | some value =>
    cases hvt : t.initializer with
    | none => simp [hvs, hvt] at h
    | some value' =>
      rw [hvs, hvt] at h
      obtain ⟨hname, rfl⟩ := ShownVariable.valued.inj h
      exact ⟨hname, hvs.trans hvt.symm, fun hn => by simp [hvs] at hn⟩

/-- Readable variables of which the same is shown agree one by one. -/
theorem forall₂_showAlike {state others : List StateStatement}
    (hs : ∀ s ∈ state, IsReadableVariable s) (ho : ∀ t ∈ others, IsReadableVariable t)
    (h : state.map shown = others.map shown) : List.Forall₂ ShowAlike state others := by
  induction state generalizing others with
  | nil =>
    obtain rfl := List.map_eq_nil_iff.1 h.symm
    exact .nil
  | cons s state ih =>
    cases others with
    | nil => simp at h
    | cons t others =>
      rw [List.map_cons, List.map_cons, List.cons.injEq] at h
      rw [List.forall_mem_cons] at hs ho
      exact .cons (showAlike_of_shown_eq hs.1 ho.1 h.1) (ih hs.2 ho.2 h.2)

/-- Emission loses no statement. The section that is written for some scripts in the composition
dialect gives back, from its lines alone, the name and the value of every variable, or its source
where there is no value, and the source of every function, all in their order. The data in the
options dialect gives back the same variables. So scripts with the same composition section have
variables that agree in all that is shown, and functions with the same sources. -/
theorem sections_read_back (scripts : List Text) :
    readComposition (lines (unlines (compositionSection (classifyAll scripts)))) =
        ((classifyAll scripts).state.map shown,
          (classifyAll scripts).functions.map FunctionStatement.source) ∧
      readData (dataPart (lines (unlines (optionsSection (classifyAll scripts))))) =
        (classifyAll scripts).state.map shown ∧
      ∀ others, unlines (compositionSection (classifyAll scripts)) =
          unlines (compositionSection (classifyAll others)) →
        List.Forall₂ ShowAlike (classifyAll scripts).state (classifyAll others).state ∧
          (classifyAll scripts).functions.map FunctionStatement.source =
            (classifyAll others).functions.map FunctionStatement.source := by
  obtain ⟨hs, hf⟩ := isReadable_of_mem_classifyAll scripts
  have hread := readComposition_compositionSection hs hf
  refine ⟨hread, ?_, fun others h => ?_⟩
  · rw [dataPart_optionsSection hs, readData_dataLines hs]
  · obtain ⟨hs', hf'⟩ := isReadable_of_mem_classifyAll others
    have hread' := readComposition_compositionSection hs' hf'
    rw [h, hread'] at hread
    obtain ⟨hstate, hfunctions⟩ := Prod.mk.inj hread
    exact ⟨forall₂_showAlike hs hs' hstate.symm, hfunctions.symm⟩

/-- A variable, one without a value and a function in one script. -/
def joinedScripts : List Text := ["let a = 1;\nlet b =\nfunction f() \x7b\n  a++;\n\x7d"]

/-- The same statements in two scripts, with another declaring word and other spacing. -/
def separateScripts : List Text := ["var a=1", "function f() \x7b\na++;\n\x7d\nlet b ="]

/-- The two have the same section, and so the same statements as far as it shows them. -/
theorem joinedScripts_showAlike_separateScripts :
    unlines (compositionSection (classifyAll joinedScripts)) =
        unlines (compositionSection (classifyAll separateScripts)) ∧
      List.Forall₂ ShowAlike (classifyAll joinedScripts).state (classifyAll separateScripts).state ∧
      (classifyAll joinedScripts).functions.map FunctionStatement.source =
        (classifyAll separateScripts).functions.map FunctionStatement.source :=
  have h : unlines (compositionSection (classifyAll joinedScripts)) =
      unlines (compositionSection (classifyAll separateScripts)) := by decide +kernel
  ⟨h, (sections_read_back joinedScripts).2.2 separateScripts h⟩

end VueSfc.Component
