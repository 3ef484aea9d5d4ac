import Marginalia.Value.Shown

/-!
# Values as one text

A value as a text without blanks around it. The items of a list are joined, and items without text are left
out.
-/

namespace Marginalia.Value

mutual

/-- A value as a text; items are joined by commas. -/
def flat : Value → Text
  | .null => []
  | .text t => t.trim
  | .list items => Text.join ", " (flatItems items)
  | v => v.written.trim

/-- The texts of the items that have one. -/
def flatItems : List Value → List Text
  | [] => []
  | v :: rest => if (flat v).isEmpty then flatItems rest else flat v :: flatItems rest

end

/-- A value as a text; the items of a list are joined by the separator, and lists inside it by commas. -/
def flatWith (separator : Text) : Value → Text
  | .list items => Text.join separator (flatItems items)
  | v => v.flat

end Marginalia.Value
