import Marginalia.Markup.Escape
import Marginalia.Text.Case
import Marginalia.Text.Digits
import Marginalia.Text.Utf8
import Marginalia.Dict

/-!
# Links

Links to the view of one declaration, or back to the whole document. The view is named by a parameter of the
query; the other parameters of the query are kept.
-/

namespace Marginalia.Markup

/-- Octets that stand for themselves in a query. -/
def isUnreserved (c : Char) : Bool :=
  c.isAlphanum || c == '_' || c == '.' || c == '-' || c == '~'

/-- One octet in a query. -/
def queryByte (b : UInt8) : Text :=
  let c := Char.ofNat b.toNat
  if b.toNat < 0x80 && isUnreserved c then [c]
  else if b = 0x20 then ['+']
  else '%' :: (hexadecimal 2 b.toNat).map Char.toUpper

/-- A text in a query. -/
def queryText (t : Text) : Text := t.toUtf8.flatMap queryByte

/-- The parameters of a query. -/
def query (parameters : List (Text × Text)) : Text :=
  Text.join "&" (parameters.map fun (k, v) => queryText k ++ "=" ++ queryText v)

/-- How links are built. -/
structure LinkBuilder where
  /-- The parameter that names a declaration. -/
  param : Text
  /-- The parameters that are kept. -/
  base : Dict Text := Dict.empty
  deriving DecidableEq, Repr

/-- The parameters of a link to a declaration, or to the whole document. -/
def LinkBuilder.parameters (l : LinkBuilder) (name : Option Text) : Dict Text :=
  match name with
  | some name => l.base.insert l.param name.trim.lower
  | none => l.base.erase l.param

/-- A link with a title. -/
def LinkBuilder.link (l : LinkBuilder) (title : Text) (name : Option Text) : Text :=
  "<a href=\"" ++ escape ("?" ++ query (l.parameters name).entries) ++ "\">" ++ escape title ++ "</a>"

end Marginalia.Markup
