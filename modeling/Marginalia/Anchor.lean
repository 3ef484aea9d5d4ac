import Marginalia.Document.Basic

/-!
# Anchors

Each declaration has an anchor on a page. The anchor is made from the name, qualified by the class that the
declaration follows; equal anchors are numbered.
-/

namespace Marginalia

namespace Anchor

/-- Characters that an anchor keeps. -/
def isSlugChar (c : Char) : Bool := ('a' ≤ c && c ≤ 'z') || ('0' ≤ c && c ≤ '9') || c == '_'

/-- The runs of characters that an anchor keeps. -/
def runs (t : Text) : List Text := (t.splitOn (!isSlugChar ·)).filter (!·.isEmpty)

/-- The lower-case runs of a text joined by hyphens, or a word that stands for none. -/
def slug (t : Text) : Text :=
  match runs t.trim.lower with
  | [] => "section"
  | found => Text.join "-" found

/-- A slug with a number. -/
def numbered (slug : Text) (n : Nat) : Text := slug ++ "-" ++ decimal n

/-- The slug, or the slug with the least number from two on that has not been taken. -/
def choose (taken : List Text) (slug : Text) : Text :=
  if taken.contains slug then
    match (List.range (taken.length + 1)).find? (fun n => !taken.contains (numbered slug (n + 2))) with
    | some n => numbered slug (n + 2)
    | none => slug
  else slug

/-- The name of a declaration after a class; empty if there is none. -/
def qualified (currentClass : Text) (d : Declaration) : Text :=
  if d.kind = .classDecl || d.kind = .namespaceDecl || currentClass.isEmpty then d.name
  else currentClass ++ "::" ++ d.name

/-- The anchors of declarations after the given class, with anchors already taken. -/
def assign : Text → List Text → List Declaration → List Text
  | _, _, [] => []
  | currentClass, taken, d :: rest =>
    let anchor := choose taken (slug (qualified currentClass d))
    let currentClass := if d.kind = .classDecl then d.name else currentClass
    anchor :: assign currentClass (anchor :: taken) rest

end Anchor

/-- One anchor for each declaration, in order. -/
def anchors (declarations : List Declaration) : List Text := Anchor.assign [] [] declarations

end Marginalia
