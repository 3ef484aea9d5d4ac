import Marginalia.Document.Basic

/-!
# The single slot

A cache for the most recent document. Asking for the document of another file empties it, so it answers only
when one file is asked for several times in a row. File names count without regard to case.
-/

namespace Marginalia

/-- The most recent document with the lower-case name of its file. -/
structure Slot where
  held : Option (Text × Document) := none
  deriving DecidableEq, Repr

namespace Slot

/-- The document of a file, if it is the one held. Otherwise the slot is empty afterwards. -/
def get (s : Slot) (key : Text) : Option Document × Slot :=
  match s.held with
  | some (name, d) => if name = key.lower then (some d, s) else (none, {})
  | none => (none, {})

/-- The document of a file takes the place of what was held. -/
def put (_ : Slot) (key : Text) (d : Document) : Slot := ⟨some (key.lower, d)⟩

/-- Nothing is held any more. -/
def clear (_ : Slot) : Slot := {}

end Slot

end Marginalia
