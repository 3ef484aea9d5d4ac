import Marginalia.Document.Basic
import Marginalia.Fault

/-!
# Stored documents

A document as a value that can be written to a file, and back. Between the two stands a record: it has the parts of
a document, but any value may stand where a text belongs. A stored value may lack members that have an obvious
default. Neither the trace nor the selection is stored.
-/

namespace Marginalia

/-! ## Records -/

/-- A type with a description. -/
structure TypedRecord where
  type : Value
  description : Value

/-- The parts of a block. -/
structure BlockRecord where
  summary : Value
  description : Value
  tags : Dict Value
  uses : Dict Value
  params : Dict TypedRecord
  returns : Option TypedRecord
  others : Dict Value

/-- A declaration and its documentation. -/
structure DeclarationRecord where
  kind : Kind
  keyword : Value
  name : Value
  arguments : Value
  doc : BlockRecord

/-- A problem. -/
structure ProblemRecord where
  kind : ProblemKind
  message : Value

/-- The parts of a document. -/
structure DocumentRecord where
  filename : Value
  main : BlockRecord
  declarations : List DeclarationRecord
  /-- The positions of the declarations by lower-case name. -/
  index : Dict Nat
  problems : List ProblemRecord
  debug : List Text := []
  selected : Option DeclarationRecord := none

/-! ## Records as values -/

/-- The value of a tag as a value to be stored. -/
def TagValue.encode : TagValue → Value
  | .one t => .text t
  | .many ts => .list (ts.map .text)

/-- A map as an object. -/
def Dict.encode {α : Type} (f : α → Value) (d : Dict α) : Value := .object (d.mapValues f).entries

/-- A type with a description as a value to be stored. -/
def TypedRecord.encode (r : TypedRecord) : Value := .object [("type", r.type), ("description", r.description)]

/-- A block as a value to be stored. -/
def BlockRecord.encode (r : BlockRecord) : Value :=
  .object
    [("summary", r.summary),
     ("description", r.description),
     ("tags", .object r.tags.entries),
     ("uses", .object r.uses.entries),
     ("params", r.params.encode TypedRecord.encode),
     ("returns", (r.returns.map TypedRecord.encode).getD .null),
     ("others", .object r.others.entries)]

/-- A declaration as a value to be stored. -/
def DeclarationRecord.encode (r : DeclarationRecord) : Value :=
  .object
    [("kind", .text r.kind.name),
     ("keyword", r.keyword),
     ("name", r.name),
     ("arguments", r.arguments),
     ("doc", r.doc.encode)]

/-- A problem as a value to be stored. -/
def ProblemRecord.encode (r : ProblemRecord) : Value :=
  .object [("kind", .text r.kind.name), ("message", r.message)]

/-- A document as a value to be stored. -/
def DocumentRecord.encode (r : DocumentRecord) : Value :=
  .object
    [("filename", r.filename),
     ("main", r.main.encode),
     ("declarations", .list (r.declarations.map DeclarationRecord.encode)),
     ("errors", .list (r.problems.map ProblemRecord.encode))]

/-! ## Records of values -/

namespace Stored

/-- The members of a record. -/
def record (v : Value) : Except Fault (Entries Value) :=
  match v with
  | .object members => .ok members
  | _ => .error .wrongShape

/-- A text. -/
def text (v : Value) : Except Fault Text :=
  match v with
  | .text t => .ok t
  | _ => .error .wrongShape

/-- A member with a default. -/
def memberOr (members : Entries Value) (name : Text) (usual : Value) : Value := (members.get? name).getD usual

/-- A member that must be there. -/
def required (v : Value) (name : Text) : Except Fault Value :=
  match v with
  | .object members =>
    match Entries.get? members name with
    | some v => .ok v
    | none => .error (.missingMember name)
  | _ => .error .wrongType

/-- A key and a value from what yields two values. -/
def pair (v : Value) : Except Fault (Text × Value) :=
  match v.elements? with
  | some [key, value] =>
    match key.keyText? with
    | some key => .ok (key, value)
    | none => .error .wrongType
  | _ => .error .wrongType

/-- The items of a list; what counts as false has none. -/
def items (v : Value) : Except Fault (List Value) :=
  if !v.truthy then .ok []
  else
    match v.elements? with
    | some vs => .ok vs
    | none => .error .wrongType

/-- A map, which is an object or yields pairs; what counts as false has none. -/
def map (v : Value) : Except Fault (Dict Value) :=
  match v with
  | .object members => .ok (Dict.ofList members)
  | v => do return Dict.ofList (← (← items v).mapM pair)

/-- A map whose values are read by `f`. -/
def dict {α β : Type} (f : α → Except Fault β) (entries : Entries α) : Except Fault (Dict β) := do
  return Dict.ofList (← entries.mapM fun (k, v) => do return (k, ← f v))

/-- A value, or an object without members in place of one that counts as false. -/
def orEmpty (v : Value) : Value := v.orElse (.object [])

/-- A name among given ones, which must be there. -/
def named {α : Type} (ofName? : Text → Option α) (fault : Value → Fault) (v : Value) : Except Fault α :=
  match v with
  | .text t =>
    match ofName? t with
    | some a => .ok a
    | none => .error (fault v)
  | _ => .error (fault v)

end Stored

open Stored

/-- The type and description of a stored value. -/
def TypedRecord.decode (v : Value) : Except Fault TypedRecord := do
  let members ← record v
  return ⟨memberOr members "type" (.text []), memberOr members "description" (.text [])⟩

/-- The type and description of a stored value; what counts as false has none. -/
def TypedRecord.decodeOptional (v : Value) : Except Fault (Option TypedRecord) :=
  if v.truthy then some <$> TypedRecord.decode v else .ok none

/-- The block of a stored value. -/
def BlockRecord.decode (v : Value) : Except Fault BlockRecord := do
  let members ← record v
  return {
    summary := memberOr members "summary" (.text [])
    description := memberOr members "description" (.text [])
    tags := ← map (memberOr members "tags" .null)
    uses := ← map (memberOr members "uses" .null)
    params := ← dict TypedRecord.decode (← record (orEmpty (memberOr members "params" .null)))
    returns := ← TypedRecord.decodeOptional (memberOr members "returns" .null)
    others := ← map (memberOr members "others" .null) }

/-- The declaration of a stored value. The kind is looked at before the name. -/
def DeclarationRecord.decode (v : Value) : Except Fault DeclarationRecord := do
  let kind ← named Kind.ofName? .unknownKind (← required v "kind")
  let members ← record v
  let name ← required v "name"
  let doc ← BlockRecord.decode (orEmpty (memberOr members "doc" .null))
  return {
    kind, name, doc
    keyword := memberOr members "keyword" (.text kind.name)
    arguments := memberOr members "arguments" (.text []) }

/-- The problem of a stored value. -/
def ProblemRecord.decode (v : Value) : Except Fault ProblemRecord := do
  let kind ← named ProblemKind.ofName? .unknownProblem (← required v "kind")
  return ⟨kind, ← required v "message"⟩

/-- The positions of declarations by lower-case name. Only texts have a lower case. -/
def DeclarationRecord.index (declarations : List DeclarationRecord) : Except Fault (Dict Nat) := do
  return nameIndex (← declarations.mapM fun d => text d.name)

/-- The parts of a stored document. The names are looked at when everything is there but the problems. -/
def DocumentRecord.decode (v : Value) : Except Fault DocumentRecord := do
  let members ← record v
  let declarations ← (← items (memberOr members "declarations" .null)).mapM DeclarationRecord.decode
  let main ← BlockRecord.decode (orEmpty (memberOr members "main" .null))
  let index ← DeclarationRecord.index declarations
  let problems ← (← items (memberOr members "errors" .null)).mapM ProblemRecord.decode
  return { filename := memberOr members "filename" (.text []), main, declarations, index, problems }

/-! ## Records of documents -/

/-- The record of a type with a description. -/
def Typed.record (t : Typed) : TypedRecord := ⟨.text t.type, .text t.description⟩

/-- The record of a block. -/
def Block.record (b : Block) : BlockRecord where
  summary := .text b.summary
  description := .text b.description
  tags := b.tags.mapValues TagValue.encode
  uses := b.uses.mapValues .text
  params := b.params.mapValues Typed.record
  returns := b.returns.map Typed.record
  others := b.others.mapValues TagValue.encode

/-- The record of a declaration. -/
def Declaration.record (d : Declaration) : DeclarationRecord where
  kind := d.kind
  keyword := .text d.signature.keyword
  name := .text d.name
  arguments := .text d.signature.arguments
  doc := d.doc.record

/-- The record of a problem. -/
def Problem.record (p : Problem) : ProblemRecord := ⟨p.kind, .text p.message⟩

/-- The record of a document. -/
def Document.record (d : Document) : DocumentRecord where
  filename := .text d.filename
  main := d.main.record
  declarations := d.declarations.map Declaration.record
  index := d.index
  problems := d.problems.map Problem.record
  debug := d.debug
  selected := d.selection.map Declaration.record

/-- A document as a value to be stored. -/
def Document.encode (d : Document) : Value := d.record.encode

/-! ## Documents of records -/

/-- The value of a tag. -/
def TagValue.ofValue (v : Value) : Except Fault TagValue :=
  match v with
  | .text t => .ok (.one t)
  | .list items => do return .many (← items.mapM text)
  | _ => .error .wrongShape

/-- The type and description of a record. -/
def Typed.ofRecord (r : TypedRecord) : Except Fault Typed := do return ⟨← text r.type, ← text r.description⟩

/-- The block of a record. -/
def Block.ofRecord (r : BlockRecord) : Except Fault Block := do
  return {
    summary := ← text r.summary
    description := ← text r.description
    tags := ← dict TagValue.ofValue r.tags.entries
    uses := ← dict text r.uses.entries
    params := ← dict Typed.ofRecord r.params.entries
    returns := ← r.returns.mapM Typed.ofRecord
    others := ← dict TagValue.ofValue r.others.entries }

/-- The declaration of a record. -/
def Declaration.ofRecord (r : DeclarationRecord) : Except Fault Declaration := do
  return ⟨⟨r.kind, ← text r.keyword, ← text r.name, ← text r.arguments⟩, ← Block.ofRecord r.doc⟩

/-- The problem of a record. -/
def Problem.ofRecord (r : ProblemRecord) : Except Fault Problem := do return ⟨r.kind, ← text r.message⟩

/-- The document of a record, with nothing selected. A document has texts only; other records have none. -/
def Document.ofRecord (r : DocumentRecord) : Except Fault Document := do
  return {
    filename := ← text r.filename
    main := ← Block.ofRecord r.main
    declarations := ← r.declarations.mapM Declaration.ofRecord
    problems := ← r.problems.mapM Problem.ofRecord
    debug := r.debug }

/-- The block of a stored value. -/
def Block.decode (v : Value) : Except Fault Block := do Block.ofRecord (← BlockRecord.decode v)

/-- The document of a stored value. -/
def Document.decode (v : Value) : Except Fault Document := do Document.ofRecord (← DocumentRecord.decode v)

end Marginalia
