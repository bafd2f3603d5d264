import TensorSig.Span

/-!
# Diagnostics

A diagnostic reports a finding about a position: a message with an optional code, a severity and
notes.

* `Diagnostic.addNote`, `Diagnostic.setSeverity`, `Diagnostic.relocate`: changes to it.
* `Diagnostic.render`: how it is written, one line for the finding and one for each note.
-/

namespace TensorSig

/-- A finding about a position. -/
structure Diagnostic where
  message : String
  code? : Option String := none
  severity : String := "error"
  span : Span := {}
  notes : List String := []
  deriving DecidableEq

namespace Diagnostic

/-- The diagnostic with one more note. -/
def addNote (d : Diagnostic) (note : String) : Diagnostic := { d with notes := d.notes ++ [note] }

/-- The diagnostic with another severity. -/
def setSeverity (d : Diagnostic) (severity : String) : Diagnostic := { d with severity := severity }

/-- The diagnostic on a line of a listing. -/
def relocate (d : Diagnostic) (line : Int) (file? : Option String) (shift : Int) : Diagnostic :=
  { d with span := d.span.relocate line file? shift }

/-- A diagnostic as it is written. -/
def render (d : Diagnostic) : String :=
  d.notes.foldl (fun text note => text ++ "\n  note: " ++ note)
    (d.span.text ++ ": " ++ d.severity ++ ": " ++ d.message)

end Diagnostic

end TensorSig
