import Marginalia.Declaration
import Marginalia.Text.Case

/-!
# Documents

Everything that is known of one source: its main block, its declarations, the problems found in it, and the
declaration that was asked for. Declarations are found by name without regard to case; of several with one
name the last one is found.
-/

namespace Marginalia

/-- Kinds of problems. -/
inductive ProblemKind where
  | sourceUnavailable
  | unrecognizedType
  | lookupNotFound
  | missingDocumentation
  deriving DecidableEq, Repr

namespace ProblemKind

/-- All kinds of problems. -/
def all : List ProblemKind :=
  [.sourceUnavailable, .unrecognizedType, .lookupNotFound, .missingDocumentation]

/-- The name of a kind of problems in stored documents. -/
def name : ProblemKind → Text
  | .sourceUnavailable => "source_unavailable"
  | .unrecognizedType => "unrecognized_unit_type"
  | .lookupNotFound => "lookup_not_found"
  | .missingDocumentation => "missing_documentation"

/-- The kind of problems of a name. -/
def ofName? (t : Text) : Option ProblemKind := all.find? (·.name == t)

end ProblemKind

/-- A problem of a document, told to its reader. -/
structure Problem where
  kind : ProblemKind
  message : Text
  deriving DecidableEq, Repr

/-- What is known of one source. -/
structure Document where
  filename : Text
  main : Block := {}
  declarations : List Declaration := []
  problems : List Problem := []
  /-- A trace of how the document came about. -/
  debug : List Text := []
  /-- The position of the declaration that was asked for. -/
  selected : Option Nat := none
  deriving DecidableEq, Repr

/-- Names in lower case with their positions, counted from `position`. -/
def namePositions : Nat → List Text → List (Text × Nat)
  | _, [] => []
  | position, name :: rest => (name.lower, position) :: namePositions (position + 1) rest

/-- The positions of names in lower case: each name stands at its first place and has its last position. -/
def nameIndex (names : List Text) : Dict Nat := Dict.ofList (namePositions 0 names)

namespace Document

/-- The positions of the declarations by lower-case name. -/
def index (d : Document) : Dict Nat := nameIndex (d.declarations.map Declaration.name)

/-- The position of a declaration by name, whatever its case and the blanks around it. -/
def position? (d : Document) (name : Text) : Option Nat := d.index.get? name.trim.lower

/-- A declaration by name. -/
def lookup (d : Document) (name : Text) : Option Declaration :=
  (d.position? name).bind fun n => d.declarations[n]?

/-- The declaration that was asked for. -/
def selection (d : Document) : Option Declaration := d.selected.bind fun n => d.declarations[n]?

/-- One more problem. -/
def addProblem (d : Document) (kind : ProblemKind) (message : Text) : Document :=
  { d with problems := d.problems ++ [⟨kind, message⟩] }

/-- What is said when no declaration has the name asked for. -/
def notFoundMessage (name : Text) : Text :=
  "No declaration matches the search (" ++ name.trim ++ ")"

/-- Asks for a declaration. If there is none, nothing is selected and the miss is a problem. -/
def select (d : Document) (name : Text) : Document :=
  match d.position? name with
  | some n => { d with selected := some n }
  | none => { d with selected := none }.addProblem .lookupNotFound (notFoundMessage name)

/-- The messages of the problems. -/
def messages (d : Document) : List Text := d.problems.map Problem.message

/-- The share of the declarations, containers apart, that have a summary, as a fraction. -/
def coverage (d : Document) : Nat × Nat :=
  let members := d.declarations.filter (!·.kind.isContainer)
  if members.isEmpty then (1, 1)
  else ((members.filter (!·.doc.summary.isEmpty)).length, members.length)

end Document

end Marginalia
