import Marginalia.Text.Basic

/-!
# Text in markup
-/

namespace Marginalia.Markup

/-- A character of text in markup. -/
def escapeChar (c : Char) : Text :=
  if c = '&' then "&amp;"
  else if c = '<' then "&lt;"
  else if c = '>' then "&gt;"
  else if c = '"' then "&quot;"
  else if c = '\'' then "&#x27;"
  else [c]

/-- Text in markup. -/
def escape (t : Text) : Text := t.flatMap escapeChar

end Marginalia.Markup
