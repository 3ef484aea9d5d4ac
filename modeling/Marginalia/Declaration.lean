import Marginalia.Block.Basic
import Marginalia.Profile

/-!
# Declarations

A declaration is recognised in one line of skeleton code: a keyword, blanks, and the rest of the line. Of the
keywords that fit, the longest counts. The rest of the line is the name followed by arguments in delimiters,
or, for a container, by inheritance text.
-/

namespace Marginalia

/-- A declaration line. -/
structure Signature where
  kind : Kind
  keyword : Text
  name : Text
  /-- Arguments without their delimiters, or inheritance text. -/
  arguments : Text := []
  deriving DecidableEq, Repr

/-- A declaration and its documentation. -/
structure Declaration where
  signature : Signature
  doc : Block := {}
  deriving DecidableEq, Repr

namespace Declaration

/-- The declared name. -/
def name (d : Declaration) : Text := d.signature.name

/-- What is declared. -/
def kind (d : Declaration) : Kind := d.signature.kind

end Declaration

namespace Signature

/-- What follows a keyword and the blanks after it, on the same line. -/
def afterKeyword? (keyword line : Text) : Option Text :=
  match Text.afterStart? keyword line with
  | some (c :: rest) =>
    if isBlank c then
      let rest := Text.trimLeft rest
      if rest.contains '\n' then none else some rest
    else none
  | _ => none

/-- The longest keyword that starts a line, with its kind and what follows it. -/
def keywordOf? (declarations : List (Text × Kind)) (line : Text) : Option (Text × Kind × Text) :=
  declarations.foldl (fun best (keyword, kind) =>
    match afterKeyword? keyword line with
    | none => best
    | some rest =>
      match best with
      | some (longest, _, _) =>
        if longest.length < keyword.length then some (keyword, kind, rest) else best
      | none => some (keyword, kind, rest)) none

/-- The name and the inheritance text of a container. -/
def containerParts (rest : Text) : Text × Text :=
  (rest.takeWhile (· != ' '), Text.trim ((rest.dropWhile (· != ' ')).drop 1))

/-- The name and the arguments of a function: the arguments reach from the first start delimiter to the last
    end delimiter, so they may hold delimiters themselves. -/
def functionParts (argsStart argsEnd rest : Text) : Text × Text :=
  match Text.indexOf? argsStart rest, Text.lastIndexOf? argsEnd rest with
  | some start, some stop =>
    if start < stop then
      (Text.trim (rest.take start), Text.trim ((rest.take stop).drop (start + 1)))
    else (Text.trim rest, [])
  | _, _ => (Text.trim rest, [])

/-- The declaration on a line of skeleton code. -/
def ofLine? (p : Profile) (line : Text) : Option Signature :=
  match keywordOf? p.declarations.entries line.trim with
  | none => none
  | some (keyword, kind, rest) =>
    let rest := Text.trim rest
    let (name, arguments) :=
      if kind.isContainer then containerParts rest else functionParts p.argsStart p.argsEnd rest
    some ⟨kind, keyword, name, arguments⟩

end Signature

namespace Declaration

/-- Gives the first declaration a block and all others an empty one. -/
def documented (pending : Block) : List Signature → List Declaration
  | [] => []
  | first :: rest => ⟨first, pending⟩ :: rest.map fun signature => ⟨signature, {}⟩

/-- The declarations in skeleton code. Only the first of them is documented by the block before the
    code. -/
def ofCode (p : Profile) (code : Text) (pending : Block) : List Declaration :=
  documented pending (code.trim.lines.filterMap (Signature.ofLine? p))

end Declaration

end Marginalia
