import VueSfc.Component.OptionsSection
import VueSfc.Proofs.Script.Statement

/-!
# Methods

Only the head of a function changes when it is written as a method, so its text and that of the
method end in the same character; an arrow with nothing behind it is the one exception, and no comma
ends either text there. That is why it makes no difference whether a comma is looked for in the
source, in the last line or in the trimmed last line, and why every method but the last ends in a
comma. The lines can be written in place behind other lines, and these stay as they are.
-/

namespace VueSfc.Component

open Text Script

/-! ## Spaces in front of a name -/

/-- Spaces in front of a word are trimmed, and no more. -/
theorem trimStart_spaces {space name rest : Text} (hs : IsSpaces space) (hn : name ≠ [])
    (hname : ∀ c ∈ name, isWordChar c = true) :
    trimStart (space ++ (name ++ rest)) = name ++ rest := by
  obtain ⟨c, name, rfl⟩ := List.exists_cons_of_ne_nil hn
  have hc := not_isBlank_of_isWordChar (hname c List.mem_cons_self)
  rw [trimStart, List.dropWhile_append_of_pos fun d hd => isBlank_of_isSpaceChar (hs d hd),
    List.cons_append, List.dropWhile_cons_of_neg (by simp [hc])]

/-! ## The text of a method -/

/-- What the text of a function written as a method has to do with its source and its parts. -/
inductive IsShorthand (f : FunctionStatement) (text : Text) : Prop
  /-- A declaration loses the word `function` and the spaces behind it, and nothing else. -/
  | declaration {space gap : Text} (hf : f.form = .declaration) (hs : IsSpaces space)
      (hn : space ≠ []) (hsource : f.source = "function" ++ space ++ text) (hg : IsSpaces gap)
      (hp : f.params = [] → gap = []) (ht : text = f.name ++ gap ++ f.params ++ f.body)
  /-- An arrow keeps its name, its parameters and the text behind the arrow. -/
  | arrow (hf : f.form = .arrow) (ht : text = f.name ++ f.params ++ [' '] ++ f.body)
      (hsource : f.body <:+ f.source)
  /-- An expression stays as it is. -/
  | expression (hf : f.form = .expression) (ht : text = f.source)

/-- A function that is put together from its parts is rewritten in its head only. -/
theorem isShorthand_methodShorthand {f : FunctionStatement} {head : Text}
    (hh : IsHead f.form f.name f.params head f.body) (hsource : f.source = head ++ f.body) :
    IsShorthand f (methodShorthand f) := by
  obtain ⟨name, form, params, body, source⟩ := f
  simp only at hh hsource
  cases hh with
  | @declaration _ _ space gap _ hs hn hp hname =>
    have htext : source = "function" ++ (space ++ (name ++ (gap ++ params ++ body))) := by
      simp only [hsource, List.append_assoc]
    have hshort : methodShorthand ⟨name, .declaration, params, body, source⟩ =
        name ++ (gap ++ params ++ body) := by
      simp only [methodShorthand, after?_eq_some_iff.2 htext]
      exact trimStart_spaces hs hname.ne_nil hname.chars
    rw [hshort]
    have hparts : name ++ (gap ++ params ++ body) = name ++ gap ++ params ++ body := by
      simp only [List.append_assoc]
    refine .declaration rfl hs hn (by rw [List.append_assoc]; exact htext) ?_ ?_ hparts
    · rcases hp with ⟨rfl, -⟩ | ⟨hg, -⟩
      · simp [IsSpaces]
      · exact hg
    · rcases hp with ⟨rfl, -⟩ | ⟨-, inside, -, rfl⟩
      · exact fun _ => rfl
      · exact fun he => absurd he (List.cons_ne_nil _ _)
  | arrow hg hg' ha hp => exact .arrow rfl rfl ⟨_, hsource.symm⟩
  | expression ha hf hi hp => exact .expression rfl rfl

/-- Only the head of a function changes when it is written as a method. A declaration loses its
first word and the spaces behind it; what is left is its name, spaces if it has parameters, the
parameters and the body. An arrow is its name, its parameters, one space and its body, which ends
its source. An expression is copied. So no declaration is copied for want of its first word. -/
theorem shorthand_changes_head_only {script : Text} {f : FunctionStatement}
    (h : f ∈ (classify script).functions) :
    IsShorthand f (methodShorthand f) ∧
      (f.form = .declaration → after? "function".toList f.source ≠ none) := by
  obtain ⟨head, hh, hsource⟩ := exists_head_of_mem_functions h
  have hshort := isShorthand_methodShorthand hh hsource
  refine ⟨hshort, fun hf => ?_⟩
  cases hshort with
  | declaration _ _ _ htext _ _ _ =>
    rw [List.append_assoc, ← after?_eq_some_iff] at htext
    rw [htext]
    exact Option.some_ne_none _
  | arrow hform _ _ => simp [hf] at hform
  | expression hform _ => simp [hf] at hform

/-- A declaration without parameters over two lines, an arrow and an expression. -/
def threeForms : Text :=
  "function\t first \x7b\n\x7d\nconst second=a =>\nconst third = function inner (a) \x7b\n\x7d,"

/-- Each of the three is rewritten in its head only. -/
theorem threeForms_shorthands :
    (classify threeForms).functions.map FunctionStatement.form =
        [.declaration, .arrow, .expression] ∧
      ∀ f ∈ (classify threeForms).functions, IsShorthand f (methodShorthand f) ∧
        (f.form = .declaration → after? "function".toList f.source ≠ none) :=
  ⟨by decide +kernel, fun _ hf => shorthand_changes_head_only hf⟩

/-! ## How the text of a method ends -/

/-- How the source of a function and its text as a method end. -/
inductive EndAlike (source text : Text) : Prop
  /-- In the same character, which is not blank. -/
  | same {c : Char} (hc : isBlank c = false) (hs : source.getLast? = some c)
      (ht : text.getLast? = some c)
  /-- In an arrow, and in the space that stands for it behind the parameters. -/
  | arrow {front : Text} {c : Char} (hc : isBlank c = false) (hn : c ≠ ',')
      (hs : source.getLast? = some '>') (ht : text = front ++ [c] ++ [' '])

/-- Joined lines end as the last one does. -/
theorem getLast?_unlines (front : List Text) {line : Text} (hn : line ≠ []) :
    (unlines (front ++ [line])).getLast? = line.getLast? := by
  by_cases hf : front = []
  · rw [hf, List.nil_append, unlines_singleton]
  · rw [unlines_append hf (List.cons_ne_nil _ _), unlines_singleton, List.append_cons,
      List.getLast?_append_of_ne_nil _ hn]

/-- The source of a function does not end in a blank. -/
theorem exists_getLast?_source {script : Text} {f : FunctionStatement}
    (h : f ∈ (classify script).functions) :
    ∃ c, f.source.getLast? = some c ∧ isBlank c = false := by
  obtain ⟨p, rfl, -, hm⟩ := mem_functions_classify h
  obtain ⟨front, line, hl⟩ : ∃ front line, p.lines = front ++ [line] :=
    ⟨_, _, (List.dropLast_append_getLast p.lines_ne_nil).symm⟩
  obtain ⟨hn, -, raw, hraw⟩ := of_mem_analysedLines (hm line (hl ▸ List.mem_concat_self))
  have hsource : p.finish.source.getLast? = line.getLast? := by
    rw [← getLast?_unlines front hn, ← hl]
    rfl
  obtain ⟨c, hc⟩ : ∃ c, line.getLast? = some c := ⟨_, List.getLast?_eq_some_getLast hn⟩
  exact ⟨c, hsource.trans hc, not_isBlank_of_getLast?_trim (hraw ▸ hc)⟩

/-- An arrow is written with its sign and spaces at the end of its head, and its parameters end in
a character that is neither blank nor a comma. -/
theorem exists_arrow_end {name params head body : Text}
    (hh : IsHead .arrow name params head body) :
    ∃ front gap stem c, head = front ++ "=>" ++ gap ∧ IsSpaces gap ∧ params = stem ++ [c] ∧
      isBlank c = false ∧ c ≠ ',' := by
  cases hh with
  | @arrow _ _ front gap gap' _ hg hg' ha hp =>
    rcases hp with ⟨inside, -, rfl⟩ | hname
    · exact ⟨_, gap', '(' :: inside, ')', rfl, hg', rfl, rfl, by decide⟩
    · have hc := hname.chars _ (List.getLast_mem hname.ne_nil)
      refine ⟨_, gap', params.dropLast, params.getLast hname.ne_nil, rfl, hg',
        (List.dropLast_append_getLast _).symm, not_isBlank_of_isWordChar hc, fun he => ?_⟩
      rw [he] at hc
      exact absurd hc (by decide)

/-- A text that does not end in a blank has no spaces at its end. -/
theorem eq_nil_of_isSpaces {front gap : Text} (hg : IsSpaces gap) {c : Char}
    (hl : (front ++ gap).getLast? = some c) (hc : isBlank c = false) : gap = [] := by
  by_contra hn
  rw [List.getLast?_append_of_ne_nil _ hn] at hl
  rw [isBlank_of_isSpaceChar (hg c (List.mem_of_getLast? hl))] at hc
  exact absurd hc (by decide)

/-- A function and its method end alike. -/
theorem endAlike {script : Text} {f : FunctionStatement} (h : f ∈ (classify script).functions) :
    EndAlike f.source (methodShorthand f) := by
  obtain ⟨c, hend, hc⟩ := exists_getLast?_source h
  obtain ⟨head, hh, hsource⟩ := exists_head_of_mem_functions h
  cases isShorthand_methodShorthand hh hsource with
  | @declaration space gap _ hs hn htext =>
    -- the text is not empty, or the source would end in a space
    have hne : methodShorthand f ≠ [] := by
      intro he
      rw [he, List.append_nil] at htext
      exact hn (eq_nil_of_isSpaces hs (htext ▸ hend) hc)
    refine .same hc hend ?_
    rw [← hend, htext, List.getLast?_append_of_ne_nil _ hne]
  | arrow hf ht hsuffix =>
    by_cases hbody : f.body = []
    · rw [hf] at hh
      obtain ⟨front, gap, stem, d, hhead, hg, hparams, hd, hcomma⟩ := exists_arrow_end hh
      rw [hbody, List.append_nil, hhead] at hsource
      obtain rfl := eq_nil_of_isSpaces hg (hsource ▸ hend) hc
      have htext : methodShorthand f = f.name ++ stem ++ [d] ++ [' '] := by
        rw [ht, hbody, hparams, List.append_nil, ← List.append_assoc f.name]
      refine .arrow hd hcomma ?_ htext
      rw [hsource, List.append_nil, List.getLast?_append_of_ne_nil _ (by decide)]
      rfl
    · obtain ⟨front, hfront⟩ := hsuffix
      refine .same hc hend ?_
      rw [← hend, ht, ← hfront, List.getLast?_append_of_ne_nil _ hbody,
        List.getLast?_append_of_ne_nil _ hbody]
  | expression _ ht => exact .same hc hend (ht ▸ hend)

/-! ## Commas -/

/-- A line gets a comma at its end if there is none. -/
inductive GetsComma (line : Text) : Text → Prop
  /-- A line that ends in a comma stays as it is. -/
  | kept (h : line.getLast? = some ',') : GetsComma line line
  /-- A comma is added. -/
  | added (h : line.getLast? ≠ some ',') : GetsComma line (line ++ [','])

/-- A line loses one comma at its end, if there is one. -/
inductive LosesComma : Text → Text → Prop
  /-- The comma is taken away. -/
  | dropped (line : Text) : LosesComma (line ++ [',']) line
  /-- There is no comma. -/
  | kept {line : Text} (h : line.getLast? ≠ some ',') : LosesComma line line

/-- The lines of a function written as a method, four spaces in, with a change of the last one. -/
inductive IsMethodBlock (Change : Text → Text → Prop) (f : FunctionStatement) : List Text → Prop
  /-- All lines but the last are as they are. -/
  | intro {front : List Text} {last changed : Text}
      (hl : lines (methodShorthand f) = front ++ [last]) (hc : Change last changed) :
      IsMethodBlock Change f ((front ++ [changed]).map indented)

/-- A line that has got a comma, without it, has lost its comma. -/
theorem GetsComma.exists_losesComma {line changed : Text} (h : GetsComma line changed) :
    ∃ stem, changed = stem ++ [','] ∧ LosesComma line stem := by
  cases h with
  | kept h =>
    obtain ⟨stem, rfl⟩ := List.getLast?_eq_some_iff.1 h
    exact ⟨stem, rfl, .dropped stem⟩
  | added h => exact ⟨line, rfl, .kept h⟩

/-- The spaces in front of a line leave its end alone. -/
theorem indented_concat (line : Text) (c : Char) :
    indented (line ++ [c]) = indented line ++ [c] := by
  rw [indented, indented, List.append_assoc]

/-- The comma at the end of a line is dropped. -/
theorem dropComma_concat (line : Text) : dropComma (line ++ [',']) = line := by
  rw [dropComma, if_pos List.getLast?_concat, List.dropLast_concat]

/-- Only the last of several members is changed. -/
theorem onLast_append {α : Type} (change : α → α) (front : List α) {back : List α}
    (hb : back ≠ []) : onLast change (front ++ back) = front ++ onLast change back := by
  induction front with
  | nil => rfl
  | cons a front ih =>
    obtain ⟨b, rest, hr⟩ := List.exists_cons_of_ne_nil (List.append_ne_nil_of_right_ne_nil front hb)
    rw [List.cons_append, hr, onLast, ← hr, ih, List.cons_append]

/-- A character other than a line feed goes to the end of the last line. -/
theorem lines_concat_of_lines {text : Text} {front : List Text} {line : Text}
    (h : lines text = front ++ [line]) {c : Char} (hc : c ≠ '\n') :
    lines (text ++ [c]) = front ++ [line ++ [c]] := by
  obtain ⟨front', line', hlines, hconcat⟩ := lines_concat hc text
  obtain ⟨rfl, hline⟩ := List.append_inj' (h.symm.trans hlines) rfl
  rw [hconcat, List.singleton_inj.1 hline]

/-- The last line of a method has a comma at its end just where the source has one, and just where
one is seen when the line is trimmed. -/
theorem exists_last {source text : Text} (h : EndAlike source text) :
    ∃ front last, lines text = front ++ [last] ∧
      (source.getLast? = some ',' ↔ last.getLast? = some ',') ∧
      ((trimEnd (indented last)).getLast? = some ',' ↔ last.getLast? = some ',') := by
  have hfeed {c : Char} (hc : isBlank c = false) : c ≠ '\n' := by
    rintro rfl
    exact absurd hc (by decide)
  cases h with
  | @same c hc hs ht =>
    obtain ⟨stem, rfl⟩ := List.getLast?_eq_some_iff.1 ht
    obtain ⟨front, line, -, hlines⟩ := lines_concat (hfeed hc) stem
    refine ⟨front, line ++ [c], hlines, ?_, ?_⟩
    · rw [hs, List.getLast?_concat]
    · rw [indented_concat, trimEnd_concat_of_not_isBlank hc, List.getLast?_concat,
        List.getLast?_concat]
  | @arrow stem c hc hn hs ht =>
    obtain ⟨front, line, -, hlines⟩ := lines_concat (hfeed hc) stem
    have hend : (line ++ [c] ++ [' ']).getLast? ≠ some ',' := by
      rw [List.getLast?_concat]
      decide
    refine ⟨front, line ++ [c] ++ [' '], ?_, ?_, ?_⟩
    · rw [ht, lines_concat_of_lines hlines (by decide)]
    · exact iff_of_false (by simp [hs]) hend
    · -- the space is trimmed, and the parameters do not end in a comma
      have htrim : trimEnd (indented (line ++ [c] ++ [' '])) = indented line ++ [c] := by
        rw [indented_concat, trimEnd_concat rfl, indented_concat, trimEnd_concat_of_not_isBlank hc]
      rw [htrim, List.getLast?_concat, Option.some_inj]
      exact iff_of_false hn hend

/-- The lines of a method with the comma that separates it from the next. -/
theorem isMethodBlock_methodLines {script : Text} {f : FunctionStatement}
    (h : f ∈ (classify script).functions) : IsMethodBlock GetsComma f (methodLines f) := by
  obtain ⟨front, last, hlines, hsource, htrim⟩ := exists_last (endAlike h)
  have hmap : (methodShorthand f).lines.map ("    ".toList ++ ·) =
      front.map indented ++ [indented last] := by
    rw [hlines, List.map_append]
    rfl
  simp only [methodLines, hmap]
  split
  · rename_i hcomma
    have hblock := IsMethodBlock.intro hlines (GetsComma.kept (hsource.1 hcomma))
    rwa [List.map_append] at hblock
  · rename_i hcomma
    rw [hsource] at hcomma
    have hblock := IsMethodBlock.intro hlines (GetsComma.added hcomma)
    rw [List.map_append] at hblock
    rwa [onLast_append _ _ (List.cons_ne_nil _ _), onLast, addComma, if_neg (htrim.not.2 hcomma)]

/-- A block without the comma at its end is that of the last method. -/
theorem IsMethodBlock.onLast_dropComma {f : FunctionStatement} {block : List Text}
    (h : IsMethodBlock GetsComma f block) :
    IsMethodBlock LosesComma f (onLast dropComma block) := by
  obtain ⟨hlines, hc⟩ := h
  obtain ⟨stem, rfl, hlost⟩ := hc.exists_losesComma
  have hblock := IsMethodBlock.intro hlines hlost
  rw [List.map_append] at hblock ⊢
  rwa [onLast_append _ _ (by simp), List.map_singleton, onLast, indented_concat,
    dropComma_concat]

/-- The last line of a method that others follow ends in a comma. -/
theorem IsMethodBlock.exists_comma {f : FunctionStatement} {block : List Text}
    (h : IsMethodBlock GetsComma f block) : ∃ front line, block = front ++ [line ++ [',']] := by
  obtain ⟨-, hc⟩ := h
  obtain ⟨stem, rfl, -⟩ := hc.exists_losesComma
  exact ⟨_, _, by rw [List.map_append, List.map_singleton, indented_concat]⟩

/-! ## Writing in place -/

/-- A method has a line. -/
theorem map_lines_ne_nil (text : Text) : (lines text).map indented ≠ [] :=
  fun he => List.splitOn_ne_nil _ _ (List.map_eq_nil_iff.1 he)

/-- A change of the last member keeps it there. -/
theorem onLast_ne_nil {α : Type} {change : α → α} {l : List α} (hn : l ≠ []) :
    onLast change l ≠ [] := by
  rw [← List.dropLast_append_getLast hn, onLast_append _ _ (List.cons_ne_nil _ _), onLast]
  exact List.concat_ne_nil _ _

theorem methodLines_ne_nil (f : FunctionStatement) : methodLines f ≠ [] := by
  unfold methodLines
  dsimp only
  split
  · exact map_lines_ne_nil _
  · exact onLast_ne_nil (map_lines_ne_nil _)

/-- A method is written behind other lines, and these stay. -/
theorem writeMethod_eq (written : List Text) (f : FunctionStatement) :
    writeMethod written f = written ++ methodLines f := by
  simp only [writeMethod, methodLines]
  split
  · rfl
  · exact onLast_append _ _ (map_lines_ne_nil _)

/-- Methods are written one behind the other. -/
theorem foldl_writeMethod (written : List Text) (functions : List FunctionStatement) :
    functions.foldl writeMethod written = written ++ functions.flatMap methodLines := by
  induction functions generalizing written with
  | nil => simp
  | cons f functions ih =>
    rw [List.foldl_cons, ih, writeMethod_eq, List.append_assoc, List.flatMap_cons]

/-- The lines written before the methods stay, if there is a method at all. -/
theorem writeMethods_eq (written : List Text) {functions : List FunctionStatement}
    (hn : functions ≠ []) :
    writeMethods written functions = written ++ methodsLines functions := by
  rw [writeMethods, foldl_writeMethod, methodsLines]
  refine onLast_append _ _ fun he => ?_
  exact methodLines_ne_nil _ (List.flatMap_eq_nil_iff.1 he _ (List.head_mem hn))

/-- The section is written behind other lines, and these stay. -/
theorem writeOptions_eq (written : List Text) (script : Analysis) :
    writeOptions written script = written ++ optionsSection script := by
  have happend (methods : List Text) :
      written ++ optionsOpening ++ dataLines script.state ++ optionsBetween ++ methods ++
          optionsClosing =
        written ++ (optionsOpening ++ dataLines script.state ++ optionsBetween ++ methods ++
          optionsClosing) := by
    simp only [List.append_assoc]
  simp only [writeOptions, optionsSection, methodsBlock]
  split
  · exact happend _
  · rename_i hn
    rw [writeMethods_eq _ (by simpa using hn)]
    exact happend _

/-- Methods are separated by commas and not touched otherwise. Behind the lines written before,
which stay as they are, stand the lines of the methods in their order, four spaces in. The last line
of each method but the last one gets a comma, unless it has one; the last line of all loses its
comma, if it has one. So every method but the last one ends in a comma. The section as a whole is
written behind other lines too. -/
theorem methods_are_separated {functions : List FunctionStatement} (hn : functions ≠ [])
    (h : ∀ f ∈ functions, ∃ scripts, f ∈ (classifyAll scripts).functions) :
    (∃ blocks last, List.Forall₂ (IsMethodBlock GetsComma) functions.dropLast blocks ∧
      IsMethodBlock LosesComma (functions.getLast hn) last ∧
      (∀ block ∈ blocks, ∃ front line, block = front ++ [line ++ [',']]) ∧
      methodsLines functions = blocks.flatten ++ last ∧
      ∀ written, writeMethods written functions = written ++ (blocks.flatten ++ last)) ∧
    ∀ written script, writeOptions written script = written ++ optionsSection script := by
  have hblock : ∀ f ∈ functions, IsMethodBlock GetsComma f (methodLines f) := by
    intro f hf
    obtain ⟨scripts, hs⟩ := h f hf
    rw [classifyAll_eq] at hs
    obtain ⟨script, -, hs⟩ := List.mem_flatMap.1 hs
    exact isMethodBlock_methodLines hs
  have hfront : ∀ f ∈ functions.dropLast, IsMethodBlock GetsComma f (methodLines f) :=
    fun f hf => hblock f (List.dropLast_subset _ hf)
  have hlines : methodsLines functions = (functions.dropLast.map methodLines).flatten ++
      onLast dropComma (methodLines (functions.getLast hn)) := by
    rw [← onLast_append _ _ (methodLines_ne_nil _), ← List.flatMap_def, methodsLines]
    conv_lhs => rw [← List.dropLast_append_getLast hn]
    rw [List.flatMap_append, List.flatMap_singleton]
  refine ⟨⟨functions.dropLast.map methodLines,
    onLast dropComma (methodLines (functions.getLast hn)), ?_,
    (hblock _ (List.getLast_mem hn)).onLast_dropComma, ?_, hlines, fun written => ?_⟩,
    writeOptions_eq⟩
  · rw [List.forall₂_map_right_iff, List.forall₂_same]
    exact hfront
  · intro block hb
    obtain ⟨f, hf, rfl⟩ := List.mem_map.1 hb
    exact (hfront f hf).exists_comma
  · rw [writeMethods_eq _ hn, hlines]

/-- A declaration, an arrow with nothing behind it and one that ends in a comma. -/
def commaScript : Text := "function f() \x7b\n\x7d\nconst g = () =>\nconst h = (a) => a,"

/-- Its three methods are separated. -/
theorem commaScript_separated :
    ∃ hn : (classify commaScript).functions ≠ [],
      (∀ f ∈ (classify commaScript).functions, ∃ scripts, f ∈ (classifyAll scripts).functions) ∧
      (∃ blocks last,
        List.Forall₂ (IsMethodBlock GetsComma) (classify commaScript).functions.dropLast blocks ∧
        IsMethodBlock LosesComma ((classify commaScript).functions.getLast hn) last ∧
        methodsLines (classify commaScript).functions = blocks.flatten ++ last) ∧
      methodsLines (classify commaScript).functions =
        ["    f() \x7b", "    \x7d,", "    g() ,", "    h(a) a"] := by
  have hn : (classify commaScript).functions ≠ [] := by decide +kernel
  have hmem : ∀ f ∈ (classify commaScript).functions,
      ∃ scripts, f ∈ (classifyAll scripts).functions := by
    refine fun f hf => ⟨[commaScript], ?_⟩
    rw [classifyAll_eq]
    simpa using hf
  obtain ⟨⟨blocks, last, hblocks, hlast, -, hlines, -⟩, -⟩ := methods_are_separated hn hmem
  exact ⟨hn, hmem, ⟨blocks, last, hblocks, hlast, hlines⟩, by decide +kernel⟩

end VueSfc.Component
