import VueSfc.Text.Search
import VueSfc.Text.Cutter

/-!
# Diagnostic calls

A diagnostic call is `console.` with one of four names and its arguments. The arguments end at
the first closing bracket, and a semicolon right behind it goes with the call.
-/

namespace VueSfc.Script

open Text

/-- What a diagnostic call begins with. -/
def consoleWord : Text := "console."

/-- The names that make a call diagnostic. -/
def diagnosticNames : List Text := ["log", "error", "warn", "info"]

/-- Take one semicolon off the front, if there is one. -/
def takeSemicolon : Text → Text × Text
  | ';' :: r => ([';'], r)
  | r => ([], r)

/-- Read a call with the given name at the front of a text. -/
def readCall? (name text : Text) : Option (Text × Text) :=
  let opening := consoleWord ++ name ++ ['(']
  (after? opening text).bind fun arguments =>
    (cutAfter? ')' arguments).map fun (inside, rest) =>
      let (stop, rest) := takeSemicolon rest
      (opening ++ inside ++ stop, rest)

/-- Read a diagnostic call at the front of a text. -/
def readDiagnostic? (text : Text) : Option (Text × Text) :=
  diagnosticNames.findSome? fun name => readCall? name text

/-- Taking a semicolon loses nothing. -/
theorem append_takeSemicolon (text : Text) :
    (takeSemicolon text).1 ++ (takeSemicolon text).2 = text := by
  unfold takeSemicolon
  split <;> rfl

/-- A call and what follows it make up the text that was read. -/
theorem append_of_readCall? {name source call rest : Text}
    (h : readCall? name source = some (call, rest)) : source = call ++ rest := by
  obtain ⟨arguments, ha, h⟩ := Option.bind_eq_some_iff.1 h
  obtain ⟨⟨inside, behind⟩, hc, he⟩ := Option.map_eq_some_iff.1 h
  simp only [Prod.mk.injEq] at he
  rw [after?_eq_some_iff.1 ha, append_of_cutAfter? hc, ← he.1, ← he.2]
  simp [append_takeSemicolon]

/-- The cutter of diagnostic calls. -/
def diagnosticCutter : Cutter Text where
  read? := readDiagnostic?
  shorter {source call rest} h := by
    obtain ⟨name, -, h⟩ := List.exists_of_findSome?_eq_some h
    have ht := congrArg List.length (append_of_readCall? h)
    obtain ⟨arguments, -, h⟩ := Option.bind_eq_some_iff.1 h
    obtain ⟨⟨inside, behind⟩, -, he⟩ := Option.map_eq_some_iff.1 h
    simp only [Prod.mk.injEq] at he
    have hc := congrArg List.length he.1
    simp only [List.length_append, List.length_cons] at ht hc
    omega

/-- A script without its diagnostic calls. -/
def stripDiagnostics (script : Text) : Text := diagnosticCutter.remove script

end VueSfc.Script
