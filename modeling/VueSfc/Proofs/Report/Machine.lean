import VueSfc.Run.Session
import VueSfc.Proofs.Text.Lines

/-!
# Reading the lines for machines

A reader of the lines for machines splits them at line feeds, and every line at tabs. Both marks are
written as they stand when they occur in a path. So the reader finds one line for each report just
where no path has a line feed, three fields in a line just where its paths have no tab, and the
reports themselves just where no path has either.
-/

namespace VueSfc

open Text

/-- The three fields of a report in the lines for machines. -/
def FileReport.fields (r : FileReport) : List Text := [r.status.name, r.input, r.output.getD ['-']]

/-- The paths that a report names. -/
def FileReport.paths (r : FileReport) : List Text := r.input :: r.output.toList

/-- No path of a report has a character. -/
def FileReport.IsFreeOf (c : Char) (r : FileReport) : Prop := ∀ path ∈ r.paths, c ∉ path

instance (c : Char) (r : FileReport) : Decidable (r.IsFreeOf c) :=
  inferInstanceAs (Decidable (∀ path ∈ r.paths, c ∉ path))

/-- The fields of a line. -/
def fieldsOf (line : Text) : List Text := line.splitOn '\t'

/-- What a reader of the lines for machines finds: the fields of each line. -/
def readMachine (text : Text) : List (List Text) := (lines text).map fieldsOf

namespace Report

/-- A line is its fields with tabs between them. -/
theorem machineLine_eq (r : FileReport) : machineLine r = joinWith ['\t'] r.fields := rfl

/-- The fields of a line, joined again, are the line. -/
theorem joinWith_fieldsOf (line : Text) : joinWith ['\t'] (fieldsOf line) = line :=
  List.intercalate_splitOn '\t'

/-- No field of a line has a tab. -/
theorem tab_notMem_of_mem_fieldsOf {line field : Text} (h : field ∈ fieldsOf line) :
    '\t' ∉ field := by
  rw [fieldsOf, List.splitOn_eq_splitOnP] at h
  intro hc
  simpa using not_test_of_mem_splitOnP h hc

/-- The name of a status has neither mark. -/
theorem notMem_name (status : FileStatus) : '\n' ∉ status.name ∧ '\t' ∉ status.name := by
  cases status with
  | ended outcome => cases outcome <;> decide
  | readFailed => decide
  | writeFailed => decide

/-- A mark stands in the fields of a report only if it stands in its paths. -/
theorem forall_fields_notMem_iff {c : Char} (hc : c = '\n' ∨ c = '\t') (r : FileReport) :
    (∀ field ∈ r.fields, c ∉ field) ↔ r.IsFreeOf c := by
  have hname : c ∉ r.status.name := by
    rcases hc with rfl | rfl
    · exact (notMem_name r.status).1
    · exact (notMem_name r.status).2
  have hdash : c ∉ ['-'] := by
    rcases hc with rfl | rfl <;> decide
  rw [FileReport.fields, FileReport.IsFreeOf, FileReport.paths]
  cases r.output with
  | none =>
    simp only [Option.getD_none, Option.toList_none, List.forall_mem_cons, List.not_mem_nil,
      false_imp_iff, implies_true, and_true, hname, hdash, not_false_eq_true, true_and]
  | some path =>
    simp only [Option.getD_some, Option.toList_some, List.forall_mem_cons, hname,
      not_false_eq_true, true_and]

/-- A line feed stands in a line just where it stands in one of the fields. -/
theorem feed_notMem_machineLine_iff (r : FileReport) :
    '\n' ∉ machineLine r ↔ r.IsFreeOf '\n' := by
  rw [← forall_fields_notMem_iff (.inl rfl)]
  simp [machineLine, FileReport.fields, joinWith, List.intercalate_cons_cons]

/-- A reader finds one line for each report just where no path has a line feed. -/
theorem lines_machine_iff {reports : List FileReport} (hn : reports ≠ []) :
    lines (machine reports) = reports.map machineLine ↔ ∀ r ∈ reports, r.IsFreeOf '\n' := by
  constructor
  · intro h r hr
    have hm : machineLine r ∈ lines (machine reports) := h ▸ List.mem_map_of_mem hr
    exact (feed_notMem_machineLine_iff r).1 (feed_notMem_of_mem_lines hm)
  · intro h
    refine lines_unlines_of_notMem (by simpa using hn) fun line hl => ?_
    obtain ⟨r, hr, rfl⟩ := List.mem_map.1 hl
    exact (feed_notMem_machineLine_iff r).2 (h r hr)

/-- A reader finds the three fields in the line of a report just where its paths have no tab. -/
theorem fieldsOf_machineLine_iff (r : FileReport) :
    fieldsOf (machineLine r) = r.fields ↔ r.IsFreeOf '\t' := by
  rw [← forall_fields_notMem_iff (.inr rfl)]
  constructor
  · exact fun h field hf => tab_notMem_of_mem_fieldsOf (h ▸ hf)
  · exact fun h => List.splitOn_intercalate '\t' h (List.cons_ne_nil _ _)

/-- A split gives one piece more than there are marks. -/
theorem length_splitOn (c : Char) (text : Text) : (text.splitOn c).length = text.count c + 1 := by
  induction text with
  | nil => rfl
  | cons d text ih =>
    rw [List.splitOn_cons_eq_if_modifyHead, List.count_cons]
    split
    · rw [List.length_cons, ih]
    · rw [List.length_modifyHead, ih, Nat.add_zero]

/-- The marks in the fields of a report are those in its paths. -/
theorem count_fields {c : Char} (hc : c = '\n' ∨ c = '\t') (r : FileReport) :
    r.fields.flatten.count c = r.paths.flatten.count c := by
  have hname : r.status.name.count c = 0 := by
    rw [List.count_eq_zero]
    rcases hc with rfl | rfl
    · exact (notMem_name r.status).1
    · exact (notMem_name r.status).2
  have hdash : ['-'].count c = 0 := by
    rcases hc with rfl | rfl <;> decide
  cases ho : r.output <;>
    simp [FileReport.fields, FileReport.paths, ho, hname, hdash]

/-- The number of pieces that a reader finds in the line of a report: one line and one more for each
line feed in its paths, and three fields and one more for each tab. -/
theorem length_machineLine (r : FileReport) :
    (lines (machineLine r)).length = 1 + r.paths.flatten.count '\n' ∧
      (fieldsOf (machineLine r)).length = 3 + r.paths.flatten.count '\t' := by
  have hmarks : ['\t'].count '\n' = 0 ∧ ['\t'].count '\t' = 1 := by decide
  rw [← count_fields (.inl rfl), ← count_fields (.inr rfl), lines, fieldsOf, length_splitOn,
    length_splitOn, machineLine_eq]
  simp only [FileReport.fields, joinWith, List.intercalate_cons_cons, List.intercalate_singleton,
    List.flatten_cons, List.flatten_nil, List.append_nil, List.count_append, hmarks]
  omega

/-- What a reader finds are the fields of the reports just where it finds their lines, and in each
line its fields. -/
theorem readMachine_machine_iff (reports : List FileReport) :
    readMachine (machine reports) = reports.map FileReport.fields ↔
      lines (machine reports) = reports.map machineLine ∧
        ∀ r ∈ reports, fieldsOf (machineLine r) = r.fields := by
  constructor
  · intro h
    have hlines : lines (machine reports) = reports.map machineLine := by
      have hjoin := congrArg (List.map (joinWith ['\t'])) h
      have hid : joinWith ['\t'] ∘ fieldsOf = id := funext joinWith_fieldsOf
      rwa [readMachine, List.map_map, List.map_map, hid, List.map_id] at hjoin
    refine ⟨hlines, ?_⟩
    rw [readMachine, hlines, List.map_map] at h
    exact List.map_inj_left.1 h
  · rintro ⟨hlines, hfields⟩
    rw [readMachine, hlines, List.map_map]
    exact List.map_congr_left hfields

/-- The lines for machines are the lines of the reports, one after another. -/
theorem lines_machine {reports : List FileReport} (hn : reports ≠ []) :
    lines (machine reports) = reports.flatMap fun r => lines (machineLine r) := by
  rw [machine, lines_unlines (by simpa using hn), List.flatMap_map]

end Report

open Report

/-- The lines for machines can be read back just where no path has a line feed or a tab. A reader
finds one more line for each line feed in the paths of a report, and one more field for each tab. -/
theorem machine_read_back_iff (reports : List FileReport) (hn : reports ≠ []) :
    lines (machine reports) = reports.flatMap (fun r => lines (machineLine r)) ∧
      (∀ r ∈ reports, (lines (machineLine r)).length = 1 + r.paths.flatten.count '\n' ∧
        (fieldsOf (machineLine r)).length = 3 + r.paths.flatten.count '\t') ∧
      (lines (machine reports) = reports.map machineLine ↔ ∀ r ∈ reports, r.IsFreeOf '\n') ∧
      (∀ r ∈ reports, fieldsOf (machineLine r) = r.fields ↔ r.IsFreeOf '\t') ∧
      (readMachine (machine reports) = reports.map FileReport.fields ↔
        ∀ r ∈ reports, r.IsFreeOf '\n' ∧ r.IsFreeOf '\t') := by
  refine ⟨lines_machine hn, fun r _ => length_machineLine r, lines_machine_iff hn,
    fun r _ => fieldsOf_machineLine_iff r, ?_⟩
  rw [readMachine_machine_iff, lines_machine_iff hn]
  simp only [fieldsOf_machineLine_iff]
  exact ⟨fun h r hr => ⟨h.1 r hr, h.2 r hr⟩,
    fun h => ⟨fun r hr => (h r hr).1, fun r hr => (h r hr).2⟩⟩

/-- The report on a page that was converted. -/
def pageReport (input output : Text) : FileReport :=
  ⟨input, some output, .ended .converted, some ⟨0, 0, 0⟩, none⟩

/-- The report on a page that cannot be read. -/
def unreadReport (input : Text) : FileReport := failedReport input .readFailed []

/-- The lines on pages with plain paths are read back, also where there is no output. -/
theorem plainReports_read_back :
    readMachine (machine [pageReport "my page.html" "MyPage.vue", unreadReport "gone"]) =
      ([["converted", "my page.html", "MyPage.vue"], ["read-failed", "gone", "-"]] :
        List (List Text)) := by
  have hn : [pageReport "my page.html" "MyPage.vue", unreadReport "gone"] ≠ [] :=
    List.cons_ne_nil _ _
  obtain ⟨-, -, -, -, hread⟩ := machine_read_back_iff _ hn
  exact hread.2 (by decide)

/-- A page whose name has a line feed. -/
def feedRequest : Request :=
  let path : Text := "a\nb.html"
  let page : Text := "<p>a</p>"
  ⟨[path, "--output", "machine"], .file [], none,
    (FileTree.empty []).set [path] (.file (encodeText page))⟩

/-- The report of a run on a page whose name has a line feed takes two lines. -/
theorem feedRequest_not_read_back :
    (run feedRequest).ending = .finished [pageReport "a\nb.html" "AB.vue"] ∧
      (run feedRequest).output = machine [pageReport "a\nb.html" "AB.vue"] ++ ['\n'] ∧
      lines (machine [pageReport "a\nb.html" "AB.vue"]) =
        (["converted\ta", "b.html\tAB.vue"] : List Text) ∧
      readMachine (machine [pageReport "a\nb.html" "AB.vue"]) ≠
        [pageReport "a\nb.html" "AB.vue"].map FileReport.fields :=
  ⟨by decide +kernel, by decide +kernel, by decide, by decide⟩

end VueSfc
