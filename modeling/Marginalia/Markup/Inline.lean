import Marginalia.Markup.Prose
import Marginalia.Text.Case

/-!
# Converted text

Free text goes through a converter. Links in the result open in a given target, and a single paragraph around
the result can be taken off, so that the result fits into a cell or an item.
-/

namespace Marginalia.Markup

/-- Turns free text into markup. -/
abbrev Converter := Text → Text

/-- Markup without the paragraph around it, if it holds just one. -/
def unwrap (html : Text) : Text :=
  let html := html.trim
  match Text.afterStart? "<p>" html with
  | some rest =>
    if Text.includes rest "<p>" then html
    else if Text.endsWith rest "</p>" then rest.take (rest.length - 4)
    else rest
  | none => html

/-- Links open in the target, if there is one. -/
def retarget (target html : Text) : Text :=
  if target.isEmpty then html
  else Text.replace "<a href=" ("<a target=\"" ++ target ++ "\" href=") html

/-- The markup of free text. -/
def convert (converter : Converter) (inline : Bool) (target text : Text) : Text :=
  let text := text.trim
  if text.isEmpty then []
  else
    let html := retarget target (converter text)
    if inline then unwrap html else html

/-- A used module and what it is used for. -/
def usedModule (converter : Converter) (module description : Text) : Text :=
  let name := "<b>" ++ escape module.lower ++ "</b>"
  if description.isEmpty then name else name ++ " " ++ convert converter true [] description

end Marginalia.Markup
