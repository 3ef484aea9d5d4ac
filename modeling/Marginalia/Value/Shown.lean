import Marginalia.Text.Quoted
import Marginalia.Value.Basic

/-!
# Values shown to a reader

A text is shown as it is, and everything else as it would be written down: texts inside lists and objects
are quoted.
-/

namespace Marginalia

namespace Value

mutual

/-- A value as it is written down. -/
def written : Value → Text
  | .null => "None"
  | .bool true => "True"
  | .bool false => "False"
  | .int n => decimalInt n
  | .float x => x.toText
  | .text t => t.quoted
  | .list items => "[" ++ Text.join ", " (writtenItems items) ++ "]"
  | .object members => "\x7b" ++ Text.join ", " (writtenMembers members) ++ "\x7d"

/-- The items of a list, each as it is written down. -/
def writtenItems : List Value → List Text
  | [] => []
  | v :: vs => written v :: writtenItems vs

/-- The members of an object, each as it is written down. -/
def writtenMembers : List (Text × Value) → List Text
  | [] => []
  | (k, v) :: rest => (k.quoted ++ ": " ++ written v) :: writtenMembers rest

end

/-- A value as it is shown. -/
def shown : Value → Text
  | .text t => t
  | v => v.written

end Value

end Marginalia
