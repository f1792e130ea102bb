import VueSfc.CommandLine.Options

/-!
# Timings

How long the stages of a run took, written as lines or as a JSON object with its keys in order.
-/

namespace VueSfc

/-- The durations of the stages of a run, as they are to be written. -/
structure Durations where
  /-- Finding the files. -/
  scan : Text
  /-- Reading and converting them. -/
  convert : Text
  /-- Delivering the components. -/
  write : Text
  /-- Everything. -/
  total : Text

/-- A member of a JSON object on one line. -/
def timingMember (key value : Text) : Text := ['"'] ++ key ++ ['"', ':'] ++ value

/-- The timings of a run over the given number of files. -/
def TimingFormat.render (format : TimingFormat) (d : Durations) (files : Nat) : Text :=
  match format with
  | .text =>
    Text.unlines
      ["=== html2vue timings ===",
       "file scan: " ++ d.scan ++ " (" ++ Text.ofNat files ++ " files)",
       "convert: " ++ d.convert, "write: " ++ d.write, "total: " ++ d.total]
  | .json =>
    ['\x7b'] ++
      Text.joinWith [',']
        [timingMember "convert_ms" d.convert, timingMember "file_count" (Text.ofNat files),
         timingMember "file_scan_ms" d.scan, timingMember "total_ms" d.total,
         timingMember "write_ms" d.write] ++
      ['\x7d']

end VueSfc
