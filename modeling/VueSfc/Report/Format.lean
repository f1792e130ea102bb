import VueSfc.Report.Basic
import VueSfc.Json.Layout

/-!
# Formats of a report

The reports of a run are written for people, as JSON, or for machines as one line per file
with tabs between its fields.
-/

namespace VueSfc

open Text

/-- How the reports of a run are written. -/
inductive ReportFormat where
  /-- Sentences and a line of totals. -/
  | human
  /-- A JSON object. -/
  | json
  /-- One line per file, with tabs. -/
  | machine
  deriving DecidableEq, Repr

namespace Report

/-- What is said about one file. -/
def humanLine (r : FileReport) : Text :=
  match r.output, r.message with
  | some path, message =>
    if r.status = .ended .converted then r.input ++ " -> " ++ path
    else
      match message with
      | some message => r.input ++ ": " ++ r.status.describe ++ ": " ++ message
      | none => r.input ++ ": " ++ r.status.describe
  | none, some message => r.input ++ ": " ++ r.status.describe ++ ": " ++ message
  | none, none => r.input ++ ": " ++ r.status.describe

/-- The word for one thing or for several. -/
def plural (n : Nat) (one many : Text) : Text := if n = 1 then one else many

/-- The line of totals. -/
def totalsLine (t : Totals) : Text :=
  "html2vue converted " ++ ofNat t.converted ++ " of " ++ ofNat t.files ++ [' '] ++
    plural t.files "file" "files" ++ " (" ++ ofNat t.notConverted ++ " not converted, " ++
    ofNat t.errors ++ [' '] ++ plural t.errors "error" "errors" ++ [')']

/-- The line between the files and the totals. -/
def rule : Text := "===================================="

/-- The reports in sentences. -/
def human (reports : List FileReport) : Text :=
  unlines (reports.map humanLine ++ [rule, totalsLine (Totals.ofReports reports)])

/-- A field that is left out where there is no value. -/
def optional {α : Type} (key : Text) (layout : α → Json.Layout) :
    Option α → List (Text × Json.Layout)
  | some value => [(key, layout value)]
  | none => []

/-- Counts as JSON. -/
def countsLayout (c : Counts) : Json.Layout :=
  .object [("state", .number c.state), ("functions", .number c.functions),
    ("styles", .number c.styles)]

/-- One report as JSON. -/
def reportLayout (r : FileReport) : Json.Layout :=
  let required : Text → Text → List (Text × Json.Layout) := fun key value => [(key, .string value)]
  .object (required "input" r.input ++ optional "output" .string r.output ++
    required "status" r.status.name ++ optional "counts" countsLayout r.counts ++
    optional "message" .string r.message)

/-- Totals as JSON. -/
def totalsLayout (t : Totals) : Json.Layout :=
  .object [("files", .number t.files), ("converted", .number t.converted),
    ("not_converted", .number t.notConverted), ("errors", .number t.errors)]

/-- The reports and their totals as JSON. -/
def json (reports : List FileReport) : Text :=
  Json.Layout.text (.object [("files", .array (reports.map reportLayout)),
    ("totals", totalsLayout (Totals.ofReports reports))])

/-- The three fields of one file, with tabs between them. -/
def machineLine (r : FileReport) : Text :=
  joinWith ['\t'] [r.status.name, r.input, r.output.getD ['-']]

/-- The reports, one line each. -/
def machine (reports : List FileReport) : Text := unlines (reports.map machineLine)

end Report

/-- The reports in a format. -/
def ReportFormat.render : ReportFormat → List FileReport → Text
  | .human => Report.human
  | .json => Report.json
  | .machine => Report.machine

end VueSfc
