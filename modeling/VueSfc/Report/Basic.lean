import VueSfc.Component.Conversion

/-!
# Reports of a run

Every input file of a run has a report of what became of it. The totals of a run sort its
reports into three kinds: converted, not converted, and read or write errors.
-/

namespace VueSfc

/-- What became of an input file. -/
inductive FileStatus where
  /-- It was read and converted with the given outcome. -/
  | ended (outcome : Outcome)
  /-- It could not be read. -/
  | readFailed
  /-- Its component could not be written. -/
  | writeFailed
  deriving DecidableEq, Repr

namespace FileStatus

/-- The name of a status. -/
def name : FileStatus → Text
  | .ended outcome => outcome.name
  | .readFailed => "read-failed"
  | .writeFailed => "write-failed"

/-- A status in words. -/
def describe : FileStatus → Text
  | .ended .converted => "converted"
  | .ended .emptyInput => "empty input, nothing written"
  | .ended .invalidMarkup => "invalid HTML, placeholder emitted"
  | .ended .emptyTemplate => "no template content, placeholder emitted"
  | .ended .failed => "conversion failed, placeholder emitted"
  | .readFailed => "read failed"
  | .writeFailed => "write failed"

/-- The file could not be read or its component not written. -/
def isError : FileStatus → Bool
  | .ended _ => false
  | .readFailed | .writeFailed => true

/-- The file was converted. -/
def isConverted : FileStatus → Bool
  | .ended outcome => outcome.isConverted
  | .readFailed | .writeFailed => false

end FileStatus

/-- The report on one input file. -/
structure FileReport where
  /-- The path of the file. -/
  input : Text
  /-- Where its component was written, if it was. -/
  output : Option Text
  /-- What became of it. -/
  status : FileStatus
  /-- What went into its component, if there is one. -/
  counts : Option Counts
  /-- What went wrong, if something did. -/
  message : Option Text
  deriving DecidableEq, Repr

/-- The totals of a run. -/
structure Totals where
  /-- Input files. -/
  files : Nat
  /-- Files that were converted. -/
  converted : Nat
  /-- Files that gave no component. -/
  notConverted : Nat
  /-- Files that could not be read or written. -/
  errors : Nat
  deriving DecidableEq, Repr

/-- The totals of some reports. -/
def Totals.ofReports (reports : List FileReport) : Totals where
  files := reports.length
  converted := reports.countP fun r => r.status.isConverted
  notConverted := reports.countP fun r => !r.status.isConverted && !r.status.isError
  errors := reports.countP fun r => r.status.isError

/-- Some file could not be read or written. -/
def hasErrors (reports : List FileReport) : Bool := reports.any fun r => r.status.isError

/-- Every file was converted. -/
def allConverted (reports : List FileReport) : Bool := reports.all fun r => r.status.isConverted

end VueSfc
