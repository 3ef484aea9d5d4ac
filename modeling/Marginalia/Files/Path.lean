import Marginalia.Text.Basic

/-!
# Paths

A path is a root, which is empty for a relative path, and the names on the way. Empty names and single dots say
nothing and are left out; double dots are kept.
-/

namespace Marginalia

/-- A path to a file or a directory. -/
structure Path where
  root : Text := []
  parts : List Text
  deriving DecidableEq, Repr

namespace Path

/-- The path of a writing. Two slashes in front are a root of their own. -/
def ofText (t : Text) : Path :=
  let slashes := (t.takeWhile (· == '/')).length
  let root : Text := if slashes = 0 then "" else if slashes = 2 then "//" else "/"
  let parts := (t.splitOn (· == '/')).filter fun part => !part.isEmpty && part != ['.']
  ⟨root, parts⟩

/-- The normal writing of a path. -/
def toText (p : Path) : Text :=
  if p.root.isEmpty && p.parts.isEmpty then "." else p.root ++ Text.join "/" p.parts

/-- The last name of a path; empty if there is none. -/
def name (p : Path) : Text := p.parts.getLast?.getD []

/-- The position of the dot before the extension of a name. A dot at either end of the name starts no
    extension. -/
def extensionDot? (name : Text) : Option Nat :=
  match Text.lastIndexOf? "." name with
  | some i => if 0 < i && i + 1 < name.length then some i else none
  | none => none

/-- The extension of the last name, with its dot. -/
def extension (p : Path) : Text :=
  match extensionDot? p.name with
  | some i => p.name.drop i
  | none => []

/-- The last name without its extension. -/
def stem (p : Path) : Text :=
  match extensionDot? p.name with
  | some i => p.name.take i
  | none => p.name

/-- The path without its last name. -/
def parent (p : Path) : Path := { p with parts := p.parts.dropLast }

/-- A path inside another one. -/
def child (p : Path) (name : Text) : Path := { p with parts := p.parts ++ [name] }

/-- Order of lists of names, the shorter of two first where one starts the other. -/
def namesLe : List Text → List Text → Bool
  | [], _ => true
  | _ :: _, [] => false
  | a :: s, b :: t => if a = b then namesLe s t else Text.le a b

/-- Order by root, then by the names on the way. -/
def le (p q : Path) : Bool := namesLe (p.root :: p.parts) (q.root :: q.parts)

end Path

end Marginalia
