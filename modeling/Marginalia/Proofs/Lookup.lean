import Marginalia.Document.File
import Marginalia.Proofs.Grouping
import Marginalia.Proofs.Links
import Marginalia.Proofs.Stored
import Mathlib.Logic.Relation

/-!
# Declarations that are looked up

A declaration is found through the index of its document, and what is found is what a search through all declarations
finds: the last one with that name. A record keeps its index beside its declarations, so it could come to have another
one. It does not: whatever is read from a source or from a stored value has the index of its names, and no operation on
records takes the two apart. A page for one declaration is the page of the document in which that one is selected.
-/

namespace Marginalia

/-! ## Indices -/

theorem keys_nameIndex (names : List Text) : (nameIndex names).keys = (names.map Text.lower).eraseDups := by
  induction names using List.reverseRecOn with
  | nil => rfl
  | append_singleton names name ih =>
    have same : name.lower ∈ (nameIndex names).keys ↔ name.lower ∈ names.map Text.lower := by
      rw [ih, List.mem_eraseDups]
    have inserted := Entries.keys_insert (nameIndex names).entries name.lower names.length
    rw [nameIndex_concat, List.map_append, List.map_singleton, eraseDups_concat, ← ih]
    exact inserted.trans (if_congr same rfl rfl)

section Finding

variable {α : Type}

/-- What an index finds under a key is what a search through the declarations finds. -/
structure Finds (name : α → Text) (declarations : List α) (index : Dict Nat) (key : Text) (found : Option α) :
    Prop where
  /-- The position under the key is that of a declaration. -/
  inside : ∀ n, index.get? key = some n → n < declarations.length
  /-- Of several declarations the last one is found. -/
  last : found = declarations.reverse.find? fun x => (name x).lower = key
  missing : found = none ↔ ∀ x ∈ declarations, (name x).lower ≠ key
  /-- Every name is listed once, where it comes first. -/
  keys : index.keys = (declarations.map fun x => (name x).lower).eraseDups

/-- Under a key there is nothing, and nothing to be found, or the position of what is found. -/
theorem nameIndex_cases (name : α → Text) (declarations : List α) (key : Text) :
    ((nameIndex (declarations.map name)).get? key = none
      ∧ declarations.reverse.find? (fun x => (name x).lower = key) = none)
    ∨ ∃ n found, (nameIndex (declarations.map name)).get? key = some n ∧ declarations[n]? = some found
      ∧ declarations.reverse.find? (fun x => (name x).lower = key) = some found := by
  induction declarations using List.reverseRecOn with
  | nil => exact .inl ⟨rfl, rfl⟩
  | append_singleton front x ih =>
    rw [List.map_append, List.map_singleton, get?_nameIndex_concat, List.length_map, List.reverse_append,
      List.reverse_singleton, List.singleton_append, List.find?_cons]
    by_cases same : (name x).lower = key
    · refine .inr ⟨front.length, x, if_pos same, List.getElem?_concat_length, ?_⟩
      simp [same]
    · rw [if_neg same]
      simp only [same, decide_false]
      rcases ih with nothing | ⟨n, found, index, position, searched⟩
      · exact .inl nothing
      · have small : n < front.length := (List.getElem?_eq_some_iff.mp position).1
        exact .inr ⟨n, found, index, (List.getElem?_append_left small).trans position, searched⟩

theorem finds_nameIndex (name : α → Text) (declarations : List α) (key : Text) :
    Finds name declarations (nameIndex (declarations.map name)) key
      (((nameIndex (declarations.map name)).get? key).bind fun n => declarations[n]?) := by
  have searched : (((nameIndex (declarations.map name)).get? key).bind fun n => declarations[n]?)
      = declarations.reverse.find? fun x => (name x).lower = key := by
    rcases nameIndex_cases name declarations key with ⟨index, searched⟩ | ⟨n, found, index, position, searched⟩
    · rw [index, searched, Option.bind_none]
    · rw [index, searched, Option.bind_some, position]
  refine ⟨fun n under => ?_, searched, ?_, ?_⟩
  · rcases nameIndex_cases name declarations key with ⟨index, -⟩ | ⟨m, found, index, position, -⟩
    · rw [under] at index
      cases index
    · rw [under] at index
      cases index
      exact (List.getElem?_eq_some_iff.mp position).1
  · rw [searched, List.find?_eq_none]
    simp
  · rw [keys_nameIndex, List.map_map]
    rfl

end Finding

/-! ## Documents -/

namespace Document

theorem finds_lookup (d : Document) (name : Text) :
    Finds Declaration.name d.declarations d.index name.trim.lower (d.lookup name) :=
  finds_nameIndex Declaration.name d.declarations name.trim.lower

/-- A position is found together with its declaration, or neither is. -/
theorem lookup_cases (d : Document) (name : Text) :
    (d.position? name = none ∧ d.lookup name = none)
    ∨ ∃ n found, d.position? name = some n ∧ d.declarations[n]? = some found ∧ d.lookup name = some found := by
  cases under : d.position? name with
  | none =>
    refine .inl ⟨rfl, ?_⟩
    rw [lookup, under, Option.bind_none]
  | some n =>
    have there := List.getElem?_eq_getElem ((d.finds_lookup name).inside n under)
    have found : d.lookup name = d.declarations[n]? := by rw [lookup, under, Option.bind_some]
    exact .inr ⟨n, _, rfl, there, found.trans there⟩

theorem select_of_missing {d : Document} {name : Text} (missing : d.lookup name = none) :
    d.select name = { d with
      selected := none, problems := d.problems ++ [⟨.lookupNotFound, notFoundMessage name⟩] } := by
  rcases d.lookup_cases name with ⟨nothing, -⟩ | ⟨n, found, -, -, something⟩
  · rw [select, nothing]
    rfl
  · rw [missing] at something
    cases something

theorem select_of_found {d : Document} {name : Text} {found : Declaration} (there : d.lookup name = some found) :
    ∃ n, d.declarations[n]? = some found ∧ d.select name = { d with selected := some n } := by
  rcases d.lookup_cases name with ⟨-, nothing⟩ | ⟨n, other, under, position, something⟩
  · rw [there] at nothing
    cases nothing
  · rw [there] at something
    cases something
    refine ⟨n, position, ?_⟩
    rw [select, under]

theorem selection_select (d : Document) (name : Text) : (d.select name).selection = d.lookup name := by
  cases there : d.lookup name with
  | none =>
    rw [select_of_missing there]
    rfl
  | some found =>
    obtain ⟨n, position, selected⟩ := select_of_found there
    rw [selected]
    exact position

end Document

/-! ## Records -/

namespace DeclarationRecord

/-- The name of a declaration where it is a text. -/
def plainName (r : DeclarationRecord) : Text :=
  match r.name with
  | .text name => name
  | _ => []

theorem plainName_of_text {r : DeclarationRecord} {name : Text} (read : Stored.text r.name = .ok name) :
    r.name = .text r.plainName ∧ name = r.plainName := by
  unfold Stored.text at read
  unfold plainName
  split at read
  · next given =>
    cases read
    rw [given]
    exact ⟨rfl, rfl⟩
  · cases read

/-- Declarations have an index only if their names are texts, and it is the index of these names. -/
theorem index_eq_ok {declarations : List DeclarationRecord} {positions : Dict Nat}
    (given : index declarations = .ok positions) :
    (∀ x ∈ declarations, x.name = .text x.plainName) ∧ positions = nameIndex (declarations.map plainName) := by
  obtain ⟨names, read, same⟩ := Fallible.bind_eq_ok.mp given
  obtain rfl := Except.ok.inj same
  have texts : ∀ {xs : List DeclarationRecord} {names : List Text},
      List.Forall₂ (fun x name => Stored.text x.name = .ok name) xs names →
      (∀ x ∈ xs, x.name = .text x.plainName) ∧ names = xs.map plainName := by
    intro xs names each
    induction each with
    | nil => exact ⟨fun _ member => absurd member List.not_mem_nil, rfl⟩
    | cons first _ ih =>
      obtain ⟨text, name⟩ := plainName_of_text first
      exact ⟨List.forall_mem_cons.mpr ⟨text, ih.1⟩, congrArg₂ List.cons name ih.2⟩
  obtain ⟨text, same⟩ := texts (Fallible.forall₂_of_mapM read)
  exact ⟨text, congrArg nameIndex same⟩

end DeclarationRecord

namespace DocumentRecord

/-- A declaration by name, through the index. An index may have a position where there is no declaration. -/
def lookup (r : DocumentRecord) (name : Text) : Except Fault (Option DeclarationRecord) :=
  match r.index.get? name.trim.lower with
  | none => .ok none
  | some n =>
    match r.declarations[n]? with
    | some found => .ok (some found)
    | none => .error .noSuchPosition

/-- One more problem. -/
def addProblem (r : DocumentRecord) (kind : ProblemKind) (message : Value) : DocumentRecord :=
  { r with problems := r.problems ++ [⟨kind, message⟩] }

/-- Asks for a declaration. If there is none, nothing is selected and the miss is a problem. -/
def select (r : DocumentRecord) (name : Text) : Except Fault DocumentRecord := do
  match ← r.lookup name with
  | some found => return { r with selected := some found }
  | none => return { r with selected := none }.addProblem .lookupNotFound (.text (Document.notFoundMessage name))

/-- A kept record as it is given out: nothing is selected in it. -/
def detached (r : DocumentRecord) : DocumentRecord := { r with selected := none }

/-- What is done with records. -/
inductive Step : DocumentRecord → DocumentRecord → Prop where
  | select {r s : DocumentRecord} (name : Text) (done : r.select name = .ok s) : Step r s
  | addProblem (r : DocumentRecord) (kind : ProblemKind) (message : Value) : Step r (r.addProblem kind message)
  | storedAgain {r s : DocumentRecord} (read : decode r.encode = .ok s) : Step r s
  | detached (r : DocumentRecord) : Step r r.detached

/-- Where records come from. -/
inductive Start : DocumentRecord → Prop where
  | source {p : Profile} {settings : Value} {filename source : Text} {request : Request} {d : Document}
      (read : Document.ofSource p settings filename source request = .ok d) : Start d.record
  | stored {v : Value} {r : DocumentRecord} (read : decode v = .ok r) : Start r

/-- A record that comes about somehow. -/
def Reached (r : DocumentRecord) : Prop := ∃ start, Start start ∧ Relation.ReflTransGen Step start r

/-- The index is that of the names. -/
def Indexed (r : DocumentRecord) : Prop := DeclarationRecord.index r.declarations = .ok r.index

theorem Start.indexed {r : DocumentRecord} (start : Start r) : r.Indexed := by
  cases start with
  | @source _ _ _ _ _ d read => exact d.index_record
  | stored read => exact (of_decode read).1

theorem select_eq_ok {r s : DocumentRecord} {name : Text} (done : r.select name = .ok s) :
    (r.lookup name = .ok none
      ∧ s = { r with selected := none }.addProblem .lookupNotFound (.text (Document.notFoundMessage name)))
    ∨ ∃ found, r.lookup name = .ok (some found) ∧ s = { r with selected := some found } := by
  obtain ⟨answer, looked, done⟩ := Fallible.bind_eq_ok.mp done
  cases answer with
  | none =>
    cases done
    exact .inl ⟨looked, rfl⟩
  | some found =>
    cases done
    exact .inr ⟨found, looked, rfl⟩

/-- No operation takes the index and the declarations apart. -/
theorem Step.indexed {r s : DocumentRecord} (step : Step r s) (indexed : r.Indexed) : s.Indexed := by
  cases step with
  | select name done =>
    rcases select_eq_ok done with ⟨-, rfl⟩ | ⟨found, -, rfl⟩
    · exact indexed
    · exact indexed
  | addProblem kind message => exact indexed
  | storedAgain read => exact (of_decode read).1
  | detached => exact indexed

theorem Reached.indexed {r : DocumentRecord} (reached : r.Reached) : r.Indexed := by
  obtain ⟨start, begun, steps⟩ := reached
  induction steps with
  | refl => exact begun.indexed
  | tail _ step ih => exact step.indexed ih

/-- An index that is that of the names finds what a search finds. -/
theorem Indexed.exists_lookup {r : DocumentRecord} (indexed : r.Indexed) (name : Text) :
    ∃ found, r.lookup name = .ok found
      ∧ Finds DeclarationRecord.plainName r.declarations r.index name.trim.lower found := by
  obtain ⟨-, index⟩ := DeclarationRecord.index_eq_ok indexed
  have finds := finds_nameIndex DeclarationRecord.plainName r.declarations name.trim.lower
  rw [← index] at finds
  refine ⟨_, ?_, finds⟩
  cases under : r.index.get? name.trim.lower with
  | none => rw [lookup, under, Option.bind_none]
  | some n =>
    have there := List.getElem?_eq_getElem (finds.inside n under)
    rw [lookup, under, Option.bind_some]
    dsimp only
    rw [there]

/-- A record with the index of its names is stored and read back. -/
theorem Indexed.stored_again {r : DocumentRecord} (indexed : r.Indexed) : decode r.encode = .ok r.stored := by
  have read := decode_encode false indexed
  rwa [ordered_false] at read

theorem select_of_lookup {r : DocumentRecord} {name : Text} {found : Option DeclarationRecord}
    (looked : r.lookup name = .ok found) :
    (found = none → r.select name = .ok { r with
      selected := none
      problems := r.problems ++ [⟨.lookupNotFound, .text (Document.notFoundMessage name)⟩] })
    ∧ ∀ x, found = some x → r.select name = .ok { r with selected := some x } := by
  refine ⟨?_, ?_⟩
  · rintro rfl
    rw [select, looked]
    rfl
  · rintro x rfl
    rw [select, looked]
    rfl

end DocumentRecord

namespace Document

theorem lookup_record (d : Document) (name : Text) :
    d.record.lookup name = .ok ((d.lookup name).map Declaration.record) := by
  have under : d.record.index.get? name.trim.lower = d.position? name := rfl
  have position : ∀ n, d.record.declarations[n]? = d.declarations[n]?.map Declaration.record :=
    fun n => List.getElem?_map
  rcases d.lookup_cases name with ⟨nothing, missing⟩ | ⟨n, found, something, there, looked⟩
  · rw [DocumentRecord.lookup, under, nothing, missing]
    rfl
  · rw [DocumentRecord.lookup, under, something, looked]
    dsimp only
    rw [position, there]
    rfl

theorem select_record (d : Document) (name : Text) : d.record.select name = .ok (d.select name).record := by
  obtain ⟨missed, hit⟩ := DocumentRecord.select_of_lookup (d.lookup_record name)
  cases there : d.lookup name with
  | none =>
    rw [missed (by rw [there]; rfl), select_of_missing there]
    simp [record, Problem.record, selection, index]
  | some found =>
    obtain ⟨n, position, selected⟩ := select_of_found there
    rw [hit found.record (by rw [there]; rfl), selected]
    simp [record, selection, index, position]

theorem addProblem_record (d : Document) (kind : ProblemKind) (message : Text) :
    d.record.addProblem kind (.text message) = (d.addProblem kind message).record := by
  simp [record, addProblem, DocumentRecord.addProblem, Problem.record, selection, index]

/-- Declarations are looked up as if all of them were searched. In a document, the last one with the name is found,
    and nothing if there is none; a miss is added to the problems and a hit adds nothing. The record of a document
    does what the document does. Whatever has been done with a record that was read from a source or from a stored
    value, its names are texts, it can be stored and read back, and the same holds for its index. -/
theorem lookup_searches :
    (∀ (d : Document) (name : Text),
      Finds Declaration.name d.declarations d.index name.trim.lower (d.lookup name)
      ∧ (d.lookup name = none → d.select name = { d with
          selected := none, problems := d.problems ++ [⟨.lookupNotFound, notFoundMessage name⟩] })
      ∧ (∀ found, d.lookup name = some found → ∃ n, d.declarations[n]? = some found
          ∧ d.select name = { d with selected := some n })
      ∧ d.record.lookup name = .ok ((d.lookup name).map Declaration.record)
      ∧ d.record.select name = .ok (d.select name).record
      ∧ (∀ kind message, d.record.addProblem kind (.text message) = (d.addProblem kind message).record)
      ∧ d.record.detached = d.detached.record
      ∧ DocumentRecord.decode d.record.encode = .ok d.stored.record)
    ∧ ∀ r : DocumentRecord, r.Reached → (∀ x ∈ r.declarations, x.name = .text x.plainName)
      ∧ DocumentRecord.decode r.encode = .ok { r with debug := [], selected := none }
      ∧ ∀ name : Text, ∃ found, r.lookup name = .ok found
        ∧ Finds DeclarationRecord.plainName r.declarations r.index name.trim.lower found
        ∧ (found = none → r.select name = .ok { r with
            selected := none, problems := r.problems ++ [⟨.lookupNotFound, .text (notFoundMessage name)⟩] })
        ∧ ∀ x, found = some x → r.select name = .ok { r with selected := some x } := by
  refine ⟨fun d name => ?_, fun r reached => ?_⟩
  · exact ⟨d.finds_lookup name, select_of_missing, fun _ => select_of_found, d.lookup_record name, d.select_record name,
      d.addProblem_record, rfl, DocumentRecord.Indexed.stored_again d.index_record⟩
  · have indexed := reached.indexed
    refine ⟨(DeclarationRecord.index_eq_ok indexed).1, indexed.stored_again, fun name => ?_⟩
    obtain ⟨found, looked, finds⟩ := indexed.exists_lookup name
    exact ⟨found, looked, finds, DocumentRecord.select_of_lookup looked⟩

/-- A stored value with three functions, of which the first and the last have one name in lower case. -/
def repeated : Value :=
  .object [("declarations", .list (["F", "g", "f"].map fun name =>
    .object [("kind", .text "function"), ("name", .text (String.toList name))]))]

/-- The name is listed once and the last function is found, after a miss and with nothing selected. -/
theorem lookup_searches_repeated : ∃ r : DocumentRecord, r.Reached
    ∧ r.problems.map ProblemRecord.kind = [.lookupNotFound]
    ∧ r.index.keys = ["f".toList, "g".toList]
    ∧ ∃ found, r.lookup " F " = .ok (some found) ∧ found.name = .text "f" := by
  obtain ⟨r, read, names, problems⟩ : ∃ r, DocumentRecord.decode repeated = .ok r
      ∧ r.declarations.map DeclarationRecord.plainName = ["F".toList, "g".toList, "f".toList] ∧ r.problems = [] :=
    ⟨_, rfl, rfl, rfl⟩
  have start := DocumentRecord.Start.stored read
  obtain ⟨missing, -, finds, missed, -⟩ := (lookup_searches.2 r ⟨r, start, .refl⟩).2.2 "h"
  have absent : ∀ name ∈ r.declarations.map DeclarationRecord.plainName, name.lower ≠ (Text.trim "h").lower := by
    rw [names]
    decide
  have selected := missed (finds.missing.mpr fun x member => absent _ (List.mem_map_of_mem member))
  have steps := (Relation.ReflTransGen.single (DocumentRecord.Step.select "h" selected)).tail
    (DocumentRecord.Step.detached _)
  obtain ⟨texts, -, answers⟩ := lookup_searches.2 _ ⟨r, start, steps⟩
  obtain ⟨found, looked, finds, -⟩ := answers " F "
  have last : found.map DeclarationRecord.plainName
      = (r.declarations.map DeclarationRecord.plainName).reverse.find? fun t => t.lower = (Text.trim " F ").lower := by
    rw [finds.last, ← List.map_reverse, List.find?_map]
    rfl
  have second : (["F".toList, "g".toList, "f".toList].reverse.find? fun t : Text => t.lower = (Text.trim " F ").lower)
      = some "f".toList := by decide
  rw [names, second] at last
  obtain ⟨x, rfl, named⟩ := Option.map_eq_some_iff.mp last
  have member : x ∈ r.declarations := List.mem_reverse.mp (List.mem_of_find?_eq_some finds.last.symm)
  have keys : r.index.keys = ((r.declarations.map DeclarationRecord.plainName).map Text.lower).eraseDups := by
    rw [List.map_map]
    exact finds.keys
  refine ⟨_, ⟨r, start, steps⟩, ?_, ?_, x, looked, ?_⟩
  · simp [DocumentRecord.detached, problems]
  · rw [names] at keys
    exact keys.trans (by decide)
  · rw [texts x member, named]

end Document

/-! ## Pages -/

namespace Page

theorem inScope_select (d : Document) {scope : Text} (asked : scope ≠ []) :
    inScope (d.select scope) [] = inScope d scope := by
  have whole : inScope (d.select scope) [] = (d.lookup scope, (d.select scope).messages) := by
    rw [← d.selection_select scope]
    rfl
  rw [whole, inScope, if_neg (by simpa using asked)]
  cases there : d.lookup scope with
  | none =>
    rw [Document.select_of_missing there]
    simp [Document.messages]
  | some found =>
    obtain ⟨n, -, selected⟩ := Document.select_of_found there
    rw [selected]
    rfl

/-- A page shows a document's problems and selection only through what is in scope. -/
theorem render_of_inScope (style : Style) (clickable showProblems : Bool) {d : Document} {scope other : Text}
    {selected : Option Nat} {problems : List Problem}
    (same : inScope { d with selected, problems } other = inScope d scope) :
    render style { clickable, showProblems, scope } d
      = render style { clickable, showProblems, scope := other } { d with selected, problems } := by
  have shown : shownParts { clickable, showProblems, scope } d
      = shownParts { clickable, showProblems, scope := other } { d with selected, problems } := by
    unfold shownParts
    dsimp only
    rw [same]
  have page : layout style { clickable, showProblems, scope } d
      = layout style { clickable, showProblems, scope := other } { d with selected, problems } := by
    unfold layout body
    dsimp only
    rw [same]
  rw [render, render, shown, page]

/-- The page for what is asked for is the page of the document in which it has been selected. So it is for every
    style that settings give, whether there is such a declaration or not, and whatever was selected before. -/
theorem render_select {scope : Text} (asked : scope ≠ []) (settings : Value) (converter : Markup.Converter)
    (links? : Option Markup.LinkBuilder) (clickable showProblems : Bool) (d : Document) :
    (Style.ofSettings settings converter links? >>= fun style => render style { clickable, showProblems, scope } d)
      = Style.ofSettings settings converter links? >>= fun style =>
        render style { clickable, showProblems, scope := [] } (d.select scope) := by
  have kept : d.select scope
      = { d with selected := (d.select scope).selected, problems := (d.select scope).problems } := by
    cases there : d.lookup scope with
    | none => rw [Document.select_of_missing there]
    | some found =>
      obtain ⟨n, -, selected⟩ := Document.select_of_found there
      rw [selected]
  have same := inScope_select d asked
  rw [kept] at same ⊢
  exact congrArg _ (funext fun style => render_of_inScope style clickable showProblems same)

/-- The document with two functions of one name, after the first of them was selected. -/
def twiceSelected : Document := { twice with selected := some 0 }

/-- The page for what is asked for, in the usual style. -/
def usualPage (scope : Text) (d : Document) : Except Fault Text :=
  Style.ofSettings .null Prose.render none >>= fun style =>
    render style { clickable := true, showProblems := true, scope } d

/-- A hit with blanks around it and in another case, and a miss, where something else was selected before. -/
theorem render_select_twice :
    (∃ page, usualPage " OTHER " twiceSelected = .ok page ∧ usualPage [] (twiceSelected.select " OTHER ") = .ok page)
    ∧ (twiceSelected.select " OTHER ").selection = some (undocumented "other")
    ∧ (∃ page, usualPage "none" twiceSelected = .ok page ∧ usualPage [] (twiceSelected.select "none") = .ok page)
    ∧ (twiceSelected.select "none").selection = none := by
  have hit : usualPage " OTHER " twiceSelected = usualPage [] (twiceSelected.select " OTHER ") :=
    render_select (by decide) .null Prose.render none true true twiceSelected
  have miss : usualPage "none" twiceSelected = usualPage [] (twiceSelected.select "none") :=
    render_select (by decide) .null Prose.render none true true twiceSelected
  rw [← hit, ← miss]
  exact ⟨⟨_, rfl, rfl⟩, by decide +kernel, ⟨_, rfl, rfl⟩, by decide +kernel⟩

end Page

end Marginalia
