import Marginalia.Document.Stored
import Marginalia.Proofs.Fallible
import Marginalia.Proofs.Sorted

/-!
# Stored documents that are read back

A document that is stored and read back is the same document, without its trace and its selection. A stored value
may have been put in the order of its keys in between; then all maps of the document are in that order. Both are
one statement: `ordered` does nothing or puts things in order, as its first argument says. The statement holds for
records first, whatever values they have, and then for documents, whose records have texts.
-/

namespace Marginalia

/-! ## Left alone or put in order -/

/-- Pairs as they stand or in the order of their keys. -/
def Entries.ordered {α : Type} (inOrder : Bool) (entries : Entries α) : Entries α :=
  if inOrder then entries.sorted else entries

/-- A map as it stands or in the order of its keys. -/
def Dict.ordered {α : Type} (inOrder : Bool) (d : Dict α) : Dict α := if inOrder then d.sorted else d

/-- A value as it stands or with all objects in the order of their keys. -/
def Value.ordered (inOrder : Bool) (v : Value) : Value := if inOrder then v.sorted else v

theorem Dict.entries_ordered {α : Type} (inOrder : Bool) (d : Dict α) :
    (d.ordered inOrder).entries = d.entries.ordered inOrder := by
  cases inOrder <;> rfl

theorem Dict.mapValues_ordered {α β : Type} (inOrder : Bool) (f : α → β) (d : Dict α) :
    (d.mapValues f).ordered inOrder = (d.ordered inOrder).mapValues f := by
  cases inOrder with
  | false => rfl
  | true => exact Dict.ext (Entries.sorted_mapValues f d.entries)

namespace Value

@[simp] theorem ordered_text (inOrder : Bool) (t : Text) : (text t).ordered inOrder = .text t := by
  cases inOrder <;> rfl

@[simp] theorem ordered_null (inOrder : Bool) : null.ordered inOrder = .null := by
  cases inOrder <;> rfl

@[simp] theorem ordered_list (inOrder : Bool) (items : List Value) :
    (list items).ordered inOrder = .list (items.map (ordered inOrder)) := by
  cases inOrder with
  | false =>
    have same : ordered false = id := rfl
    rw [same, List.map_id]
    rfl
  | true => exact sorted_list items

theorem ordered_object (inOrder : Bool) (members : List (Text × Value)) :
    (object members).ordered inOrder
      = .object (Entries.mapValues (ordered inOrder) (Entries.ordered inOrder members)) := by
  cases inOrder with
  | false =>
    have same : Entries.mapValues (ordered false) members = members := List.map_id members
    rw [Entries.ordered, if_neg (by decide), same]
    rfl
  | true => exact sorted_object members

end Value

/-- The members of a value that is left alone or put in order. -/
def orderedMembers (inOrder : Bool) (members : Entries Value) : Entries Value :=
  Entries.mapValues (Value.ordered inOrder) (members.ordered inOrder)

theorem get?_orderedMembers (inOrder : Bool) {members : Entries Value} (nodup : members.keys.Nodup) (name : Text) :
    (orderedMembers inOrder members).get? name = (members.get? name).map (Value.ordered inOrder) := by
  rw [orderedMembers, Entries.get?_mapValues]
  cases inOrder with
  | false => rfl
  | true => rw [Entries.ordered, if_pos rfl, Entries.get?_sorted nodup]

theorem isEmpty_orderedMembers (inOrder : Bool) (members : Entries Value) :
    (orderedMembers inOrder members).isEmpty = members.isEmpty := by
  cases inOrder with
  | false => cases members <;> rfl
  | true =>
    rw [orderedMembers, Entries.ordered, if_pos rfl, Entries.mapValues, List.isEmpty_map]
    have perm := Entries.sorted_perm members
    rw [Bool.eq_iff_iff, List.isEmpty_iff, List.isEmpty_iff]
    constructor
    · intro none
      exact List.nil_perm.mp (none ▸ perm)
    · intro none
      exact List.perm_nil.mp (perm.trans (none ▸ List.Perm.refl _))

/-! ## The parts of a document in order -/

/-- A block with its maps as they stand or in order. -/
def Block.ordered (inOrder : Bool) (b : Block) : Block :=
  { b with
    tags := b.tags.ordered inOrder
    uses := b.uses.ordered inOrder
    params := b.params.ordered inOrder
    others := b.others.ordered inOrder }

/-- A declaration with the maps of its block as they stand or in order. -/
def Declaration.ordered (inOrder : Bool) (d : Declaration) : Declaration := { d with doc := d.doc.ordered inOrder }

/-- A document with all its maps as they stand or in order. -/
def Document.ordered (inOrder : Bool) (d : Document) : Document :=
  { d with
    main := d.main.ordered inOrder
    declarations := d.declarations.map (Declaration.ordered inOrder) }

/-- What is stored of a document: neither its trace nor its selection. -/
def Document.stored (d : Document) : Document := { d with debug := [], selected := none }

/-! ## Names do not depend on the order -/

namespace Document

theorem index_ordered (inOrder : Bool) (d : Document) : (d.ordered inOrder).index = d.index := by
  refine congrArg nameIndex ?_
  rw [ordered, List.map_map]
  rfl

theorem position?_ordered (inOrder : Bool) (d : Document) (name : Text) :
    (d.ordered inOrder).position? name = d.position? name :=
  congrArg (Dict.get? · name.trim.lower) (d.index_ordered inOrder)

theorem lookup_ordered (inOrder : Bool) (d : Document) (name : Text) :
    (d.ordered inOrder).lookup name = (d.lookup name).map (Declaration.ordered inOrder) := by
  rw [lookup, lookup, position?_ordered]
  cases d.position? name with
  | none => rfl
  | some n => exact List.getElem?_map ..

theorem selection_ordered (inOrder : Bool) (d : Document) :
    (d.ordered inOrder).selection = d.selection.map (Declaration.ordered inOrder) := by
  rw [selection, selection, show (d.ordered inOrder).selected = d.selected from rfl]
  cases d.selected with
  | none => rfl
  | some n => exact List.getElem?_map ..

/-- Asking for a declaration of a document in order is the same as asking first. -/
theorem select_ordered (inOrder : Bool) (d : Document) (name : Text) :
    (d.ordered inOrder).select name = (d.select name).ordered inOrder := by
  rw [select, select, position?_ordered]
  cases d.position? name <;> rfl

end Document

/-! ## The parts of a record in order -/

/-- A type with a description, both as they stand or in order. -/
def TypedRecord.ordered (inOrder : Bool) (r : TypedRecord) : TypedRecord :=
  ⟨r.type.ordered inOrder, r.description.ordered inOrder⟩

/-- The parts of a block as they stand or in order. -/
def BlockRecord.ordered (inOrder : Bool) (r : BlockRecord) : BlockRecord where
  summary := r.summary.ordered inOrder
  description := r.description.ordered inOrder
  tags := (r.tags.ordered inOrder).mapValues (Value.ordered inOrder)
  uses := (r.uses.ordered inOrder).mapValues (Value.ordered inOrder)
  params := (r.params.ordered inOrder).mapValues (TypedRecord.ordered inOrder)
  returns := r.returns.map (TypedRecord.ordered inOrder)
  others := (r.others.ordered inOrder).mapValues (Value.ordered inOrder)

/-- The parts of a declaration as they stand or in order. -/
def DeclarationRecord.ordered (inOrder : Bool) (r : DeclarationRecord) : DeclarationRecord where
  kind := r.kind
  keyword := r.keyword.ordered inOrder
  name := r.name.ordered inOrder
  arguments := r.arguments.ordered inOrder
  doc := r.doc.ordered inOrder

/-- A problem with its message as it stands or in order. -/
def ProblemRecord.ordered (inOrder : Bool) (r : ProblemRecord) : ProblemRecord :=
  { r with message := r.message.ordered inOrder }

/-- The parts of a document that are stored, as they stand or in order. -/
def DocumentRecord.ordered (inOrder : Bool) (r : DocumentRecord) : DocumentRecord :=
  { r with
    filename := r.filename.ordered inOrder
    main := r.main.ordered inOrder
    declarations := r.declarations.map (DeclarationRecord.ordered inOrder)
    problems := r.problems.map (ProblemRecord.ordered inOrder) }

/-- What is stored of a record: neither its trace nor its selection. -/
def DocumentRecord.stored (r : DocumentRecord) : DocumentRecord := { r with debug := [], selected := none }

section Unordered

theorem Dict.mapValues_id {α : Type} (d : Dict α) : d.mapValues id = d := Dict.ext (List.map_id _)

theorem TypedRecord.ordered_false : TypedRecord.ordered false = id := rfl

theorem BlockRecord.ordered_false : BlockRecord.ordered false = id := by
  funext r
  have values : Value.ordered false = id := rfl
  unfold ordered
  simp only [values, TypedRecord.ordered_false, Dict.mapValues_id, Option.map_id]
  rfl

theorem DeclarationRecord.ordered_false : DeclarationRecord.ordered false = id := by
  funext r
  unfold ordered
  rw [BlockRecord.ordered_false]
  rfl

theorem DocumentRecord.ordered_false (r : DocumentRecord) : r.ordered false = r := by
  have problems : ProblemRecord.ordered false = id := rfl
  unfold ordered
  rw [BlockRecord.ordered_false, DeclarationRecord.ordered_false, problems, List.map_id, List.map_id]
  rfl

end Unordered

/-! ## Reading members back -/

namespace Stored

theorem text_ordered (inOrder : Bool) (v : Value) : text (v.ordered inOrder) = text v := by
  cases inOrder with
  | false => rfl
  | true => cases v <;> rfl

theorem required_of_get? {members : Entries Value} {name : Text} {v : Value} (found : members.get? name = some v) :
    required (.object members) name = .ok v := by
  rw [required, found]

theorem named_name {α : Type} {ofName? : Text → Option α} {name : α → Text} (a : α)
    (known : ofName? (name a) = some a) (fault : Value → Fault) (inOrder : Bool) :
    named ofName? fault ((Value.text (name a)).ordered inOrder) = .ok a := by
  rw [Value.ordered_text, named, known]

section Members

variable (inOrder : Bool) {members : Entries Value} (nodup : members.keys.Nodup) {name : Text} {v : Value}
  (found : members.get? name = some v)
include nodup found

theorem memberOr_ordered (usual : Value) :
    memberOr (orderedMembers inOrder members) name usual = v.ordered inOrder := by
  rw [memberOr, get?_orderedMembers inOrder nodup, found]
  rfl

theorem required_ordered : required (.object (orderedMembers inOrder members)) name = .ok (v.ordered inOrder) :=
  required_of_get? (by rw [get?_orderedMembers inOrder nodup, found, Option.map_some])

end Members

theorem orderedMembers_entries (inOrder : Bool) (d : Dict Value) :
    orderedMembers inOrder d.entries = ((d.ordered inOrder).mapValues (Value.ordered inOrder)).entries := by
  rw [orderedMembers, ← Dict.entries_ordered]
  rfl

theorem map_ordered (inOrder : Bool) (d : Dict Value) : map ((Value.object d.entries).ordered inOrder)
    = .ok ((d.ordered inOrder).mapValues (Value.ordered inOrder)) := by
  have entries := orderedMembers_entries inOrder d
  rw [orderedMembers] at entries
  rw [Value.ordered_object, entries, map, Dict.ofList_entries]

theorem record_object (members : Entries Value) : record (.object members) = .ok members := rfl

theorem record_orEmpty (members : Entries Value) : record (orEmpty (.object members)) = .ok members := by
  cases members <;> rfl

/-- A map whose values are read one by one keeps its keys in order. -/
theorem dict_mapValues {α β γ : Type} {f : β → Except Fault γ} {g : α → β} {h : α → γ}
    (each : ∀ v, f (g v) = .ok (h v)) (d : Dict α) : dict f (d.mapValues g).entries = .ok (d.mapValues h) := by
  have read : ((d.mapValues g).entries.mapM fun entry => do return (entry.1, ← f entry.2))
      = .ok (d.mapValues h).entries := by
    refine Fallible.mapM_map_of_forall fun entry _ => ?_
    simp only [each]
    rfl
  refine (congrArg (· >>= fun entries => .ok (Dict.ofList entries)) read).trans ?_
  exact congrArg Except.ok (Dict.ofList_entries _)

theorem items_list (vs : List Value) : items (.list vs) = .ok vs := by
  cases vs <;> rfl

end Stored

open Stored

/-! ## Records that are read back -/

theorem Kind.ofName?_name (k : Kind) : Kind.ofName? k.name = some k := by
  cases k <;> decide

theorem ProblemKind.ofName?_name (k : ProblemKind) : ProblemKind.ofName? k.name = some k := by
  cases k <;> decide

/-- The members of a stored type with a description. -/
def TypedRecord.fields (r : TypedRecord) : Entries Value := [("type", r.type), ("description", r.description)]

theorem TypedRecord.fields_nodup (r : TypedRecord) : r.fields.keys.Nodup :=
  show [("type" : Text), "description"].Nodup by decide

theorem TypedRecord.ordered_encode (inOrder : Bool) (r : TypedRecord) :
    r.encode.ordered inOrder = .object (orderedMembers inOrder r.fields) := Value.ordered_object inOrder _

theorem TypedRecord.decode_encode (inOrder : Bool) (r : TypedRecord) :
    decode (r.encode.ordered inOrder) = .ok (r.ordered inOrder) := by
  have type := @memberOr_ordered inOrder r.fields r.fields_nodup "type" _ rfl (.text [])
  have description := @memberOr_ordered inOrder r.fields r.fields_nodup "description" _ rfl (.text [])
  rw [ordered_encode, decode]
  simp only [record_object, bind, Except.bind, type, description]
  rfl

theorem Stored.record_encode (inOrder : Bool) {α : Type} (f : α → Value) (d : Dict α) :
    record (orEmpty ((d.encode f).ordered inOrder))
      = .ok ((d.ordered inOrder).mapValues fun v => (f v).ordered inOrder).entries := by
  have entries := orderedMembers_entries inOrder (d.mapValues f)
  rw [orderedMembers, Dict.mapValues_ordered] at entries
  rw [Dict.encode, Value.ordered_object, record_orEmpty, entries]
  exact congrArg Except.ok (List.map_map ..)

theorem TypedRecord.decodeOptional_encode (inOrder : Bool) (r : Option TypedRecord) :
    decodeOptional (((r.map encode).getD .null).ordered inOrder) = .ok (r.map (ordered inOrder)) := by
  cases r with
  | none =>
    rw [Option.map_none, Option.getD_none, Value.ordered_null]
    rfl
  | some r =>
    have truthy : (r.encode.ordered inOrder).truthy = true := by
      rw [ordered_encode, Value.truthy, isEmpty_orderedMembers]
      rfl
    rw [Option.map_some, Option.getD_some, decodeOptional, if_pos truthy, r.decode_encode]
    rfl

/-- The members of a stored block. -/
def BlockRecord.fields (r : BlockRecord) : Entries Value :=
  [("summary", r.summary), ("description", r.description), ("tags", .object r.tags.entries),
   ("uses", .object r.uses.entries), ("params", r.params.encode TypedRecord.encode),
   ("returns", (r.returns.map TypedRecord.encode).getD .null), ("others", .object r.others.entries)]

theorem BlockRecord.fields_nodup (r : BlockRecord) : r.fields.keys.Nodup :=
  show [("summary" : Text), "description", "tags", "uses", "params", "returns", "others"].Nodup by decide

theorem BlockRecord.ordered_encode (inOrder : Bool) (r : BlockRecord) :
    r.encode.ordered inOrder = .object (orderedMembers inOrder r.fields) := Value.ordered_object inOrder _

theorem BlockRecord.decode_encode (inOrder : Bool) (r : BlockRecord) :
    decode (r.encode.ordered inOrder) = .ok (r.ordered inOrder) := by
  have member := fun name v => @memberOr_ordered inOrder r.fields r.fields_nodup name v
  have summary := member "summary" _ rfl (.text [])
  have description := member "description" _ rfl (.text [])
  have tags := member "tags" _ rfl .null
  have uses := member "uses" _ rfl .null
  have params := member "params" _ rfl .null
  have returns := member "returns" _ rfl .null
  have others := member "others" _ rfl .null
  rw [ordered_encode, decode]
  simp only [record_object, bind, Except.bind, summary, description, tags, uses, params, returns, others, map_ordered,
    record_encode, dict_mapValues (TypedRecord.decode_encode inOrder), TypedRecord.decodeOptional_encode]
  rfl

theorem BlockRecord.decode_orEmpty (inOrder : Bool) (r : BlockRecord) :
    decode (orEmpty (r.encode.ordered inOrder)) = .ok (r.ordered inOrder) := by
  have truthy : (r.encode.ordered inOrder).truthy = true := by
    rw [ordered_encode, Value.truthy, isEmpty_orderedMembers]
    rfl
  rw [orEmpty, Value.orElse, if_pos truthy, decode_encode]

/-- The members of a stored declaration. -/
def DeclarationRecord.fields (r : DeclarationRecord) : Entries Value :=
  [("kind", .text r.kind.name), ("keyword", r.keyword), ("name", r.name), ("arguments", r.arguments),
   ("doc", r.doc.encode)]

theorem DeclarationRecord.fields_nodup (r : DeclarationRecord) : r.fields.keys.Nodup :=
  show [("kind" : Text), "keyword", "name", "arguments", "doc"].Nodup by decide

theorem DeclarationRecord.decode_encode (inOrder : Bool) (r : DeclarationRecord) :
    decode (r.encode.ordered inOrder) = .ok (r.ordered inOrder) := by
  have whole : r.encode.ordered inOrder = .object (orderedMembers inOrder r.fields) := Value.ordered_object inOrder _
  have kind := @required_ordered inOrder r.fields r.fields_nodup "kind" _ rfl
  have name := @required_ordered inOrder r.fields r.fields_nodup "name" _ rfl
  have known : ∀ fault, named Kind.ofName? fault ((Value.text r.kind.name).ordered inOrder) = .ok r.kind :=
    fun fault => named_name r.kind r.kind.ofName?_name fault inOrder
  have keyword := @memberOr_ordered inOrder r.fields r.fields_nodup "keyword" _ rfl (.text r.kind.name)
  have arguments := @memberOr_ordered inOrder r.fields r.fields_nodup "arguments" _ rfl (.text [])
  have doc := @memberOr_ordered inOrder r.fields r.fields_nodup "doc" _ rfl .null
  rw [whole, decode]
  simp only [bind, Except.bind, kind, known, record_object, name, keyword, arguments, doc, BlockRecord.decode_orEmpty]
  rfl

/-- The members of a stored problem. -/
def ProblemRecord.fields (r : ProblemRecord) : Entries Value :=
  [("kind", .text r.kind.name), ("message", r.message)]

theorem ProblemRecord.fields_nodup (r : ProblemRecord) : r.fields.keys.Nodup :=
  show [("kind" : Text), "message"].Nodup by decide

theorem ProblemRecord.decode_encode (inOrder : Bool) (r : ProblemRecord) :
    decode (r.encode.ordered inOrder) = .ok (r.ordered inOrder) := by
  have whole : r.encode.ordered inOrder = .object (orderedMembers inOrder r.fields) := Value.ordered_object inOrder _
  have kind := @required_ordered inOrder r.fields r.fields_nodup "kind" _ rfl
  have message := @required_ordered inOrder r.fields r.fields_nodup "message" _ rfl
  have known : ∀ fault, named ProblemKind.ofName? fault ((Value.text r.kind.name).ordered inOrder) = .ok r.kind :=
    fun fault => named_name r.kind r.kind.ofName?_name fault inOrder
  rw [whole, decode]
  simp only [bind, Except.bind, kind, known, message]
  rfl

/-- The members of a stored document. -/
def DocumentRecord.fields (r : DocumentRecord) : Entries Value :=
  [("filename", r.filename), ("main", r.main.encode),
   ("declarations", .list (r.declarations.map DeclarationRecord.encode)),
   ("errors", .list (r.problems.map ProblemRecord.encode))]

theorem DocumentRecord.fields_nodup (r : DocumentRecord) : r.fields.keys.Nodup :=
  show [("filename" : Text), "main", "declarations", "errors"].Nodup by decide

theorem DeclarationRecord.index_ordered (inOrder : Bool) (declarations : List DeclarationRecord) :
    index (declarations.map (ordered inOrder)) = index declarations := by
  have name : ∀ d : DeclarationRecord, text (d.ordered inOrder).name = text d.name :=
    fun d => text_ordered inOrder d.name
  rw [index, index, List.mapM_map]
  simp only [Function.comp_def, name]

/-- A record is read back from what is stored of it, whatever values it has, if only its names are texts. -/
theorem DocumentRecord.decode_encode (inOrder : Bool) {r : DocumentRecord} {index : Dict Nat}
    (names : DeclarationRecord.index r.declarations = .ok index) :
    decode (r.encode.ordered inOrder) = .ok { r.stored.ordered inOrder with index } := by
  have whole : r.encode.ordered inOrder = .object (orderedMembers inOrder r.fields) := Value.ordered_object inOrder _
  have member := fun name v => @memberOr_ordered inOrder r.fields r.fields_nodup name v
  have filename := member "filename" _ rfl (.text [])
  have main := member "main" _ rfl .null
  have declarations := member "declarations" _ rfl .null
  have problems := member "errors" _ rfl .null
  rw [Value.ordered_list, List.map_map] at declarations problems
  have readDeclarations : (r.declarations.map (Value.ordered inOrder ∘ DeclarationRecord.encode)).mapM
      DeclarationRecord.decode = .ok (r.declarations.map (DeclarationRecord.ordered inOrder)) :=
    Fallible.mapM_map_of_forall fun d _ => d.decode_encode inOrder
  have readProblems : (r.problems.map (Value.ordered inOrder ∘ ProblemRecord.encode)).mapM ProblemRecord.decode
      = .ok (r.problems.map (ProblemRecord.ordered inOrder)) :=
    Fallible.mapM_map_of_forall fun p _ => p.decode_encode inOrder
  have positions := (DeclarationRecord.index_ordered inOrder r.declarations).trans names
  rw [whole, decode]
  simp only [record_object, bind, Except.bind, filename, main, declarations, problems, items_list, readDeclarations,
    readProblems, BlockRecord.decode_orEmpty, positions]
  rfl

/-- What has been read has the positions of its names, no trace and no selection. -/
theorem DocumentRecord.of_decode {v : Value} {r : DocumentRecord} (read : decode v = .ok r) :
    DeclarationRecord.index r.declarations = .ok r.index ∧ r.stored = r := by
  obtain ⟨members, -, read⟩ := Fallible.bind_eq_ok.mp read
  obtain ⟨stored, -, read⟩ := Fallible.bind_eq_ok.mp read
  obtain ⟨declarations, -, read⟩ := Fallible.bind_eq_ok.mp read
  obtain ⟨main, -, read⟩ := Fallible.bind_eq_ok.mp read
  obtain ⟨index, names, read⟩ := Fallible.bind_eq_ok.mp read
  obtain ⟨storedToo, -, read⟩ := Fallible.bind_eq_ok.mp read
  obtain ⟨problems, -, read⟩ := Fallible.bind_eq_ok.mp read
  cases read
  exact ⟨names, rfl⟩

/-! ## Documents that are read back -/

theorem TagValue.ordered_encode (inOrder : Bool) (t : TagValue) : t.encode.ordered inOrder = t.encode := by
  cases t with
  | one t => exact Value.ordered_text inOrder t
  | many ts =>
    rw [encode, Value.ordered_list, List.map_map]
    simp [Function.comp_def]

theorem TagValue.ofValue_encode (t : TagValue) : ofValue t.encode = .ok t := by
  cases t with
  | one t => rfl
  | many ts =>
    have texts : (ts.map Value.text).mapM text = .ok (ts.map id) := Fallible.mapM_map_of_forall fun _ _ => rfl
    rw [List.map_id] at texts
    rw [encode, ofValue]
    simp only [texts]
    rfl

/-- Values that are in order already stay as they are when the map is put in order. -/
theorem Dict.mapValues_ordered_of_fixed {α β : Type} {f : α → β} {order : β → β} (fixed : ∀ v, order (f v) = f v)
    (inOrder : Bool) (d : Dict α) :
    ((d.mapValues f).ordered inOrder).mapValues order = (d.ordered inOrder).mapValues f := by
  rw [Dict.mapValues_ordered]
  refine Dict.ext ((List.map_map ..).trans (List.map_congr_left fun entry _ => ?_))
  exact congrArg (Prod.mk entry.1) (fixed entry.2)

namespace Typed

theorem ordered_record (inOrder : Bool) (t : Typed) : t.record.ordered inOrder = t.record := by
  simp [record, TypedRecord.ordered]

theorem ofRecord_record (t : Typed) : ofRecord t.record = .ok t := rfl

end Typed

namespace Block

theorem ordered_record (inOrder : Bool) (b : Block) : b.record.ordered inOrder = (b.ordered inOrder).record := by
  have tags := Dict.mapValues_ordered_of_fixed (TagValue.ordered_encode inOrder) inOrder b.tags
  have uses := Dict.mapValues_ordered_of_fixed (Value.ordered_text inOrder) inOrder b.uses
  have params := Dict.mapValues_ordered_of_fixed (Typed.ordered_record inOrder) inOrder b.params
  have others := Dict.mapValues_ordered_of_fixed (TagValue.ordered_encode inOrder) inOrder b.others
  have returns : (b.returns.map Typed.record).map (TypedRecord.ordered inOrder) = b.returns.map Typed.record := by
    rw [Option.map_map]
    exact Option.map_congr fun t _ => t.ordered_record inOrder
  unfold record BlockRecord.ordered
  simp only [tags, uses, params, others, returns, Value.ordered_text]
  rfl

theorem ofRecord_record (b : Block) : ofRecord b.record = .ok b := by
  have tags := dict_mapValues TagValue.ofValue_encode b.tags
  have back : ∀ t : Text, text (.text t) = .ok t := fun _ => rfl
  have uses := dict_mapValues back b.uses
  have params := dict_mapValues Typed.ofRecord_record b.params
  have others := dict_mapValues TagValue.ofValue_encode b.others
  have returns : (b.returns.map Typed.record).mapM Typed.ofRecord = .ok b.returns := by
    cases b.returns <;> rfl
  have same : ∀ {α : Type} (d : Dict α), d.mapValues (fun v => v) = d := Dict.mapValues_id
  rw [same] at tags uses params others
  unfold ofRecord record
  simp only [bind, Except.bind, text, tags, uses, params, others, returns]
  rfl

end Block

namespace Declaration

theorem ordered_record (inOrder : Bool) (d : Declaration) : d.record.ordered inOrder = (d.ordered inOrder).record := by
  unfold record DeclarationRecord.ordered
  simp only [Value.ordered_text, Block.ordered_record]
  rfl

theorem ofRecord_record (d : Declaration) : ofRecord d.record = .ok d := by
  unfold ofRecord record
  simp only [bind, Except.bind, text, Block.ofRecord_record]
  rfl

end Declaration

namespace Problem

theorem ordered_record (inOrder : Bool) (p : Problem) : p.record.ordered inOrder = p.record := by
  simp [record, ProblemRecord.ordered]

theorem ofRecord_record (p : Problem) : ofRecord p.record = .ok p := rfl

end Problem

namespace Document

theorem index_record (d : Document) : DeclarationRecord.index d.record.declarations = .ok d.index := by
  have names : (d.declarations.map Declaration.record).mapM (fun r => text r.name)
      = .ok (d.declarations.map Declaration.name) := Fallible.mapM_map_of_forall fun _ _ => rfl
  rw [DeclarationRecord.index, record, names]
  rfl

theorem ordered_record (inOrder : Bool) (d : Document) :
    { d.record.stored.ordered inOrder with index := d.index } = (d.stored.ordered inOrder).record := by
  have declarations : (d.declarations.map Declaration.record).map (DeclarationRecord.ordered inOrder)
      = (d.declarations.map (Declaration.ordered inOrder)).map Declaration.record := by
    rw [List.map_map, List.map_map]
    exact List.map_congr_left fun x _ => x.ordered_record inOrder
  have problems : (d.problems.map Problem.record).map (ProblemRecord.ordered inOrder) = d.problems.map Problem.record := by
    rw [List.map_map]
    exact List.map_congr_left fun x _ => x.ordered_record inOrder
  have index : (d.stored.ordered inOrder).index = d.index := d.stored.index_ordered inOrder
  unfold record
  rw [index]
  simp only [DocumentRecord.ordered, DocumentRecord.stored, declarations, problems, Value.ordered_text,
    Block.ordered_record]
  rfl

theorem ofRecord_record (d : Document) : ofRecord d.record = .ok { d with selected := none } := by
  have declarations : (d.declarations.map Declaration.record).mapM Declaration.ofRecord = .ok (d.declarations.map id) :=
    Fallible.mapM_map_of_forall fun x _ => x.ofRecord_record
  have problems : (d.problems.map Problem.record).mapM Problem.ofRecord = .ok (d.problems.map id) :=
    Fallible.mapM_map_of_forall fun x _ => x.ofRecord_record
  rw [List.map_id] at declarations problems
  unfold ofRecord record
  simp only [bind, Except.bind, text, declarations, problems, Block.ofRecord_record]
  rfl

/-- A document is read back from what is stored of it, with its maps in the order in which they were stored. -/
theorem decode_encode (inOrder : Bool) (d : Document) :
    decode (d.encode.ordered inOrder) = .ok (d.stored.ordered inOrder) := by
  rw [decode, encode, DocumentRecord.decode_encode inOrder d.index_record, ordered_record]
  exact (d.stored.ordered inOrder).ofRecord_record

theorem ordered_false (d : Document) : d.ordered false = d := by
  have declarations : Declaration.ordered false = id := rfl
  rw [ordered, declarations, List.map_id]
  rfl

theorem stored_of_decode {v : Value} {d : Document} (read : decode v = .ok d) : d.stored = d := by
  obtain ⟨r, whole, read⟩ := Fallible.bind_eq_ok.mp read
  obtain ⟨-, same⟩ := DocumentRecord.of_decode whole
  obtain ⟨filename, -, read⟩ := Fallible.bind_eq_ok.mp read
  obtain ⟨main, -, read⟩ := Fallible.bind_eq_ok.mp read
  obtain ⟨declarations, -, read⟩ := Fallible.bind_eq_ok.mp read
  obtain ⟨problems, -, read⟩ := Fallible.bind_eq_ok.mp read
  cases read
  rw [← same]
  rfl

/-- Reading undoes storing. A record with texts for names is read back without trace and selection, with the positions
    of its names, and all its maps and lists as they were. A document has these positions already. Whatever else is
    read, as a record or as a document, stays the same when it is stored and read again. -/
theorem readBack :
    (∀ (r : DocumentRecord) (names : List Text), r.declarations.map DeclarationRecord.name = names.map .text →
      DocumentRecord.decode r.encode = .ok { r with index := nameIndex names, debug := [], selected := none })
    ∧ (∀ d : Document, DocumentRecord.decode d.encode = .ok { d.record with debug := [], selected := none }
      ∧ decode d.encode = .ok { d with debug := [], selected := none })
    ∧ (∀ (v : Value) (r : DocumentRecord), DocumentRecord.decode v = .ok r → DocumentRecord.decode r.encode = .ok r)
    ∧ ∀ (v : Value) (d : Document), decode v = .ok d → decode d.encode = .ok d := by
  have record : ∀ {r : DocumentRecord} {index : Dict Nat}, DeclarationRecord.index r.declarations = .ok index →
      DocumentRecord.decode r.encode = .ok { r.stored with index } := by
    intro r index names
    have read := DocumentRecord.decode_encode false names
    rwa [DocumentRecord.ordered_false] at read
  have document : ∀ d : Document, decode d.encode = .ok d.stored := by
    intro d
    have read := d.decode_encode false
    rwa [ordered_false] at read
  refine ⟨fun r names texts => record ?_, fun d => ⟨record d.index_record, document d⟩, fun v r read => ?_,
    fun v d read => ?_⟩
  · have read : (names.map Value.text).mapM text = .ok (names.map id) := Fallible.mapM_map_of_forall fun _ _ => rfl
    rw [List.map_id, ← texts, List.mapM_map] at read
    rw [DeclarationRecord.index]
    exact congrArg (· >>= fun names => pure (nameIndex names)) read
  · obtain ⟨names, same⟩ := DocumentRecord.of_decode read
    rw [record names, same]
  · rw [document d, stored_of_decode read]

/-- A stored value that lacks most members, with values that are no texts, an empty result and tags in pairs. -/
def sparse : Value :=
  .object
    [("main", .object [("summary", .int 5), ("returns", .object []),
       ("tags", .list [.text "ab", .list [.text "since", .null]])]),
     ("declarations", .list [.object [("kind", .text "class"), ("name", .text "A"), ("doc", .null)]])]

theorem readBack_sparse : ∃ r, DocumentRecord.decode sparse = .ok r ∧ DocumentRecord.decode r.encode = .ok r
    ∧ r.main.returns = none ∧ r.main.tags.entries = ([("a", .text "b"), ("since", .null)] : Entries Value)
    ∧ r.declarations.map DeclarationRecord.keyword = [.text "class"] := by
  have read : ∃ r, DocumentRecord.decode sparse = .ok r ∧ r.main.returns = none
      ∧ r.main.tags.entries = ([("a", .text "b"), ("since", .null)] : Entries Value)
      ∧ r.declarations.map DeclarationRecord.keyword = [.text "class"] := ⟨_, rfl, rfl, rfl, rfl⟩
  obtain ⟨r, read, rest⟩ := read
  exact ⟨r, read, readBack.2.2.1 sparse r read, rest⟩

end Document

/-! ## What is stored is well formed -/

theorem wellFormed_text (t : Text) : (Value.text t).WellFormed := rfl

theorem Dict.wellFormed_encode {α : Type} {encode : α → Value} {d : Dict α}
    (each : ∀ entry ∈ d.entries, (encode entry.2).WellFormed) : (d.encode encode).WellFormed := by
  rw [Dict.encode, Value.wellFormed_object]
  refine ⟨(d.mapValues encode).nodup, fun m member => ?_⟩
  obtain ⟨entry, inside, rfl⟩ := List.mem_map.mp member
  exact each entry inside

theorem TagValue.wellFormed_encode (t : TagValue) : t.encode.WellFormed := by
  cases t with
  | one t => rfl
  | many ts =>
    rw [TagValue.encode, Value.wellFormed_list]
    intro v member
    obtain ⟨t, -, rfl⟩ := List.mem_map.mp member
    rfl

theorem Typed.wellFormed_encode (t : Typed) : t.record.encode.WellFormed := by
  rw [TypedRecord.encode, Value.wellFormed_object]
  refine ⟨t.record.fields_nodup, ?_⟩
  simp [Typed.record, wellFormed_text]

theorem Block.wellFormed_encode (b : Block) : b.record.encode.WellFormed := by
  have tags : (b.tags.encode TagValue.encode).WellFormed := Dict.wellFormed_encode fun _ _ => TagValue.wellFormed_encode _
  have uses : (b.uses.encode .text).WellFormed := Dict.wellFormed_encode fun _ _ => wellFormed_text _
  have others : (b.others.encode TagValue.encode).WellFormed :=
    Dict.wellFormed_encode fun _ _ => TagValue.wellFormed_encode _
  have params : ((b.params.mapValues Typed.record).encode TypedRecord.encode).WellFormed := by
    refine Dict.wellFormed_encode fun entry member => ?_
    obtain ⟨original, -, rfl⟩ := List.mem_map.mp member
    exact original.2.wellFormed_encode
  have returns : ((b.record.returns.map TypedRecord.encode).getD .null).WellFormed := by
    unfold record
    cases b.returns with
    | none => rfl
    | some t => exact t.wellFormed_encode
  show (Value.object b.record.fields).WellFormed
  rw [Value.wellFormed_object]
  refine ⟨b.record.fields_nodup, ?_⟩
  simp only [BlockRecord.fields, List.forall_mem_cons]
  exact ⟨wellFormed_text _, wellFormed_text _, tags, uses, params, returns, others, by simp⟩

theorem Declaration.wellFormed_encode (d : Declaration) : d.record.encode.WellFormed := by
  rw [DeclarationRecord.encode, Value.wellFormed_object]
  refine ⟨d.record.fields_nodup, ?_⟩
  simp [Declaration.record, wellFormed_text, Block.wellFormed_encode]

theorem Problem.wellFormed_encode (p : Problem) : p.record.encode.WellFormed := by
  rw [ProblemRecord.encode, Value.wellFormed_object]
  refine ⟨p.record.fields_nodup, ?_⟩
  simp [Problem.record, wellFormed_text]

theorem Document.wellFormed_encode (d : Document) : d.encode.WellFormed := by
  have declarations : (Value.list (d.record.declarations.map DeclarationRecord.encode)).WellFormed := by
    rw [Value.wellFormed_list, record, List.map_map, List.forall_mem_map]
    exact fun x _ => x.wellFormed_encode
  have problems : (Value.list (d.record.problems.map ProblemRecord.encode)).WellFormed := by
    rw [Value.wellFormed_list, record, List.map_map, List.forall_mem_map]
    exact fun x _ => x.wellFormed_encode
  show (Value.object d.record.fields).WellFormed
  rw [Value.wellFormed_object]
  refine ⟨d.record.fields_nodup, ?_⟩
  simp only [DocumentRecord.fields, List.forall_mem_cons]
  exact ⟨wellFormed_text _, d.main.wellFormed_encode, declarations, problems, by simp⟩

end Marginalia
