import VueSfc.Config.Comment
import VueSfc.Json.Skip
import VueSfc.Component.Dialect
import VueSfc.FileTree

/-!
# Reading a configuration

A configuration is an object with up to four known fields, or an array of their values in
order. It is read from left to right and the first thing wrong with it decides: a name that no
dialect has is reported as soon as it has been read, before anything behind it.
-/

namespace VueSfc

open Json

/-- The settings of a project. -/
structure Configuration where
  /-- The dialect, where the command line names none. -/
  dialect : Option Dialect
  /-- The directory for components, where the command line names none. -/
  outDir : Option Text
  /-- What the names of input files end with, if anything is said about it. -/
  extensions : List Text
  /-- Patterns of paths to ignore. -/
  ignore : List Text
  deriving DecidableEq, Repr

/-- Why there is no configuration. -/
inductive ConfigFault where
  /-- The file cannot be read. -/
  | unreadable (fault : FileFault)
  /-- The text is no configuration. -/
  | malformed
  /-- The dialect named is none. -/
  | unknownDialect (name : Text)
  deriving DecidableEq, Repr

namespace Configuration

/-- The settings of a project that says nothing. -/
def empty : Configuration := ⟨none, none, [], []⟩

/-- The extensions of pages where a project names none. -/
def defaultExtensions : List Text := [".html", ".htm"]

/-- What the names of input files end with. -/
def fileExtensions (c : Configuration) : List Text :=
  if c.extensions.isEmpty then defaultExtensions else c.extensions

/-- The result of reading a part: a value and the lexemes behind it. -/
abbrev Reading (α : Type) := Except ConfigFault (α × List Lexeme)

/-- Read a string or `null`. -/
def readOptional : List Lexeme → Reading (Option Text)
  | .null :: rest => .ok (none, rest)
  | .string units :: rest =>
    match decode? units with
    | some text => .ok (some text, rest)
    | none => .error .malformed
  | _ => .error .malformed

/-- Read the name of a dialect or `null`. -/
def readDialect (ls : List Lexeme) : Reading (Option Dialect) :=
  match readOptional ls with
  | .error fault => .error fault
  | .ok (none, rest) => .ok (none, rest)
  | .ok (some name, rest) =>
    match Dialect.ofName? name with
    | some dialect => .ok (some dialect, rest)
    | none => .error (.unknownDialect name)

/-- Read the rest of an array of strings behind one of them. -/
def readMoreStrings : List Lexeme → Reading (List Text)
  | .closeArray :: rest => .ok ([], rest)
  | .comma :: .string units :: rest =>
    match decode? units, readMoreStrings rest with
    | some text, .ok (texts, rest) => .ok (text :: texts, rest)
    | _, _ => .error .malformed
  | _ => .error .malformed

/-- Read an array of strings. -/
def readStrings : List Lexeme → Reading (List Text)
  | .openArray :: .closeArray :: rest => .ok ([], rest)
  | .openArray :: .string units :: rest =>
    match decode? units, readMoreStrings rest with
    | some text, .ok (texts, rest) => .ok (text :: texts, rest)
    | _, _ => .error .malformed
  | _ => .error .malformed

/-- A field that a configuration may have. -/
inductive Field where
  /-- The dialect. -/
  | dialect
  /-- The directory for components. -/
  | outDir
  /-- The extensions. -/
  | extensions
  /-- The patterns to ignore. -/
  | ignore
  deriving DecidableEq, Repr

/-- The fields in the order in which an array gives them. -/
def fieldOrder : List Field := [.dialect, .outDir, .extensions, .ignore]

/-- The key of a field. -/
def Field.key : Field → Text
  | .dialect => "apiStyle"
  | .outDir => "outDir"
  | .extensions => "extensions"
  | .ignore => "ignore"

/-- The field with the given key. -/
def Field.ofKey? (key : Text) : Option Field := fieldOrder.find? fun f => f.key == key

/-- Read the value of a field into a configuration. -/
def readField (c : Configuration) (ls : List Lexeme) : Field → Reading Configuration
  | .dialect => (readDialect ls).map fun (v, rest) => ({ c with dialect := v }, rest)
  | .outDir => (readOptional ls).map fun (v, rest) => ({ c with outDir := v }, rest)
  | .extensions => (readStrings ls).map fun (v, rest) => ({ c with extensions := v }, rest)
  | .ignore => (readStrings ls).map fun (v, rest) => ({ c with ignore := v }, rest)

/-- Read the colon and the value behind a key. A known field may come once; the value of any
other key is skipped. -/
def readMember (c : Configuration) (seen : List Field) (key : Text) (ls : List Lexeme) :
    Reading (Configuration × List Field) :=
  match Field.ofKey? key with
  | some field =>
    if seen.contains field then .error .malformed
    else
      match ls with
      | .colon :: rest => (readField c rest field).map fun (c, rest) => ((c, field :: seen), rest)
      | _ => .error .malformed
  | none =>
    match ls with
    | .colon :: rest =>
      match skipValue? rest with
      | some rest => .ok ((c, seen), rest)
      | none => .error .malformed
    | _ => .error .malformed

/-- Read the members of an object from a key on, of which there are at most the given number. -/
def readMembers (c : Configuration) (seen : List Field) : Nat → List Lexeme → Reading Configuration
  | n + 1, .string units :: rest =>
    match decode? units with
    | none => .error .malformed
    | some key =>
      match readMember c seen key rest with
      | .error fault => .error fault
      | .ok ((c, _), .closeObject :: rest) => .ok (c, rest)
      | .ok ((c, seen), .comma :: rest) => readMembers c seen n rest
      | .ok _ => .error .malformed
  | _, _ => .error .malformed

/-- Read the values of an array, the first of which belongs to the first of the given fields. -/
def readValues (c : Configuration) : List Field → List Lexeme → Reading Configuration
  | [], _ => .error .malformed
  | field :: fields, ls =>
    match readField c ls field with
    | .error fault => .error fault
    | .ok (c, .closeArray :: rest) => .ok (c, rest)
    | .ok (c, .comma :: rest) => readValues c fields rest
    | .ok _ => .error .malformed

/-- Read a configuration at the front. -/
def readFront : List Lexeme → Reading Configuration
  | .openObject :: .closeObject :: rest => .ok (empty, rest)
  | .openObject :: rest => readMembers empty [] rest.length rest
  | .openArray :: .closeArray :: rest => .ok (empty, rest)
  | .openArray :: rest => readValues empty fieldOrder rest
  | _ => .error .malformed

/-- Read a configuration from its text. -/
def ofText (text : Text) : Except ConfigFault Configuration :=
  match readFront (lexemes (Config.stripComments text)) with
  | .error fault => .error fault
  | .ok (c, []) => .ok c
  | .ok (_, _ :: _) => .error .malformed

/-- Read a configuration from a file. -/
def ofFile (tree : FileTree) (path : Text) : Except ConfigFault Configuration :=
  match tree.readText path with
  | .error fault => .error (.unreadable fault)
  | .ok text => ofText text

end Configuration

end VueSfc
