import VueSfc.Proofs.Component.Outcome
import VueSfc.Proofs.Run.Account

/-!
# Three ways of delivery

A page from standard input is printed, a page in a file is printed or becomes the file of its
component. The text is the same in all three ways: the output of the conversion and a line feed, or
nothing if the output is empty, which it is for blank pages alone. Several pages are printed one
after another, in the order of the inputs, each under its path.
-/

namespace VueSfc

open Text

section

variable {t : FileTree} {dialect : Dialect}

end

/-! ## Runs -/

/-- A run over standard input has accepted arguments that ask for it, and a configuration and
patterns that can be read. -/
structure RunsOverInput (r : Request) (o : Options) (s : RunSettings) (warnings : List Text) :
    Prop where
  /-- The arguments are accepted. -/
  accepted : Options.ofArguments r.arguments = .ok o
  /-- They ask for standard input. -/
  reads_input : o.readsInput = true
  /-- The settings come from them and from the configuration. -/
  settled : ∃ c, loadConfiguration r.tree o.config = .ok (c, warnings) ∧
    RunSettings.resolve o c r.timingsVariable = .ok s

variable {r : Request} {o : Options} {s : RunSettings} {warnings : List Text} {page : Text}

/-- A run over standard input converts what it reads there. -/
theorem RunsOverInput.run_eq (h : RunsOverInput r o s warnings) :
    run r = runInput r o s warnings := by
  obtain ⟨c, hc, hs⟩ := h.settled
  simp only [run, h.accepted, runWith, hc, hs, h.reads_input, if_true]

/-- Inputs of every kind: two with the same component, a blank one, one that is no text, one that is
no markup, and one whose component has the name of a directory. -/
def mixedTree : FileTree :=
  let page : Text := "<p>a</p>"
  let blank : Text := " "
  let code : Text := "a = 1"
  ((((((FileTree.empty []).set ["a.html"] (.file (encodeText page))).set ["a.htm"]
    (.file (encodeText page))).set ["b.html"] (.file (encodeText blank))).set ["c.html"]
    (.file [0xFF])).set ["d.html"] (.file (encodeText code))).set ["D.vue"] .directory

/-- The paths of the inputs. -/
def mixedPaths : List Text := ["a.html", "a.htm", "b.html", "c.html", "d.html"]

/-- A run over them. -/
def mixedRequest : Request := ⟨mixedPaths, .file [], none, mixedTree⟩

/-- The options of the run. -/
def mixedOptions : Options := { CommandLine.defaults with paths := mixedPaths }

/-- The settings of the run. -/
def mixedSettings : RunSettings :=
  ⟨.composition, none, Configuration.defaultExtensions, readablePatterns defaultIgnores, none⟩

/-- A page. -/
def plainPage : Text := "<p>a</p>"

/-- The options of that run. -/
def writeOptions (path : Text) : Options := { CommandLine.defaults with paths := [path] }

end VueSfc
