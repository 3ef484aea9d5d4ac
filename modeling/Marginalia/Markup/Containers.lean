import Marginalia.Text.Basic

/-!
# Open containers

The elements that are open at a place of the markup. Opening one closes the others first, so that containers
never nest.
-/

namespace Marginalia.Markup

/-- The open elements, innermost first. -/
abbrev Containers := List Text

/-- A start tag. -/
def startTag (tag : Text) : Text := "<" ++ tag ++ ">"

/-- An end tag. -/
def endTag (tag : Text) : Text := "</" ++ tag ++ ">"

namespace Containers

/-- The end tags of all open elements, innermost first. -/
def closeAll (s : Containers) : Text := s.flatMap endTag

/-- Makes an element the innermost one; all others are closed. Nothing is put out if it is that already. -/
def openTag (s : Containers) (tag : Text) : Text × Containers :=
  if s.head? = some tag then ([], s) else (s.closeAll ++ startTag tag, [tag])

/-- Closes elements up to the given one. -/
def close : Containers → Text → Text × Containers
  | [], _ => ([], [])
  | current :: rest, tag =>
    if current = tag then (endTag current, rest)
    else
      let (out, left) := close rest tag
      (endTag current ++ out, left)

end Containers

end Marginalia.Markup
