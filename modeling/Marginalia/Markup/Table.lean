import Marginalia.Markup.Containers

/-!
# Tables
-/

namespace Marginalia.Markup

/-- An element around markup. -/
def element (tag content : Text) : Text := startTag tag ++ content ++ endTag tag

/-- A row of cells, which are markup already. -/
def row (tag : Text) (cells : List Text) : Text := element "tr" (cells.flatMap (element tag))

/-- The start tag of a table with a class; an empty class is left out. -/
def tableTag (cssClass : Text) : Text :=
  if cssClass.isEmpty then "<table>" else "<table class=\"" ++ cssClass ++ "\">"

/-- A table with a line of headers; without rows there is none. -/
def table (headers : List Text) (rows : List (List Text)) (cssClass : Text) : Text :=
  if rows.isEmpty then []
  else
    Text.join "\n" ([tableTag cssClass, row "th" headers] ++ rows.map (row "td") ++ [endTag "table"])

end Marginalia.Markup
