import Marginalia.Proofs.Damage
import Marginalia.Proofs.Stored

/-!
# The shelf and its file

What a shelf keeps under a key is read back from its file with everything in the order of its keys, by a shelf with
the same fingerprint; a shelf with another fingerprint reads nothing. An entry answers with its document exactly as
long as its source has the time that it had when the document was put in.
-/

namespace Marginalia

theorem Value.sorted_sorted (v : Value) : v.sorted.sorted = v.sorted := by
  induction v using induct with
  | null | bool b | int n | float x | text t => rfl
  | list items ih =>
    rw [sorted_list, sorted_list, List.map_map]
    exact congrArg Value.list (List.map_congr_left ih)
  | object members ih =>
    rw [sorted_object, sorted_object, Entries.sorted_mapValues, Entries.sorted_sorted, Entries.mapValues,
      Entries.mapValues, List.map_map]
    refine congrArg Value.object (List.map_congr_left fun m member => ?_)
    exact congrArg (Prod.mk m.1) (ih m (Entries.mem_sorted.mp member))

theorem Value.sorted_ordered (inOrder : Bool) (v : Value) : (v.ordered inOrder).sorted = v.ordered true := by
  cases inOrder with
  | false => rfl
  | true => exact v.sorted_sorted

theorem Value.WellFormed.ordered {v : Value} (wellFormed : v.WellFormed) (inOrder : Bool) :
    (v.ordered inOrder).WellFormed := by
  cases inOrder with
  | false => exact wellFormed
  | true => exact wellFormed.sorted

namespace Entries

variable {α : Type}

theorem get?_filter {entries : Entries α} (nodup : entries.keys.Nodup) (keep : α → Bool) (key : Text) :
    Entries.get? (entries.filter fun entry => keep entry.2) key = (entries.get? key).filter keep := by
  apply Option.ext
  intro value
  rw [get?_eq_some_iff (keys_filter_nodup nodup _), List.mem_filter, Option.filter_eq_some_iff,
    get?_eq_some_iff nodup]

theorem get?_erase_of_ne (entries : Entries α) {key other : Text} (distinct : key ≠ other) :
    (entries.erase key).get? other = entries.get? other := by
  induction entries with
  | nil => rfl
  | cons entry rest ih =>
    obtain ⟨k, v⟩ := entry
    rw [erase]
    split
    · next same => rw [get?, if_neg (same ▸ distinct)]
    · rw [get?, get?, ih]

theorem erase_sublist (entries : Entries α) (key : Text) : (entries.erase key).Sublist entries := by
  induction entries with
  | nil => exact .slnil
  | cons entry rest ih =>
    obtain ⟨k, v⟩ := entry
    rw [erase]
    split
    · exact List.sublist_cons_self _ _
    · exact ih.cons_cons _

end Entries

theorem Dict.get?_ofList {α : Type} {pairs : Entries α} (nodup : pairs.keys.Nodup) (key : Text) :
    (Dict.ofList pairs).get? key = pairs.get? key := by
  show Entries.get? (Entries.insertAll [] pairs) key = _
  rw [Entries.insertAll_nil nodup]

namespace Shelf

open Fallible

/-! ## Entries -/

theorem wellFormed_modified (tree : FileTree) (name : Text) : (modified tree name).WellFormed := by
  unfold modified
  split
  · exact Value.wellFormed_float.mpr (Binary64.proper_add _ _)
  · rfl

theorem ordered_modified (inOrder : Bool) (tree : FileTree) (name : Text) :
    (modified tree name).ordered inOrder = modified tree name := by
  unfold modified
  split <;> cases inOrder <;> rfl

/-- The members of an entry. -/
def fields (tree : FileTree) (name : Text) (d : Document) : Entries Value :=
  [("filename", .text name), ("modified", modified tree name), ("document", d.encode)]

theorem fields_nodup (tree : FileTree) (name : Text) (d : Document) : (fields tree name d).keys.Nodup :=
  show [("filename" : Text), "modified", "document"].Nodup by decide

theorem wellFormed_entry (tree : FileTree) (name : Text) (d : Document) : (entry tree name d).WellFormed := by
  show (Value.object (fields tree name d)).WellFormed
  rw [Value.wellFormed_object]
  refine ⟨fields_nodup tree name d, ?_⟩
  simp [fields, wellFormed_text, wellFormed_modified, Document.wellFormed_encode]

theorem entry_ordered (inOrder : Bool) (tree : FileTree) (name : Text) (d : Document) :
    (entry tree name d).ordered inOrder = .object (orderedMembers inOrder (fields tree name d)) :=
  Value.ordered_object inOrder _

/-- An entry answers as long as its source has the time that it had when the document was put in. -/
theorem get_of_entry {s : Shelf} {tree before : FileTree} {name : Text} {d : Document} {inOrder : Bool}
    (kept : s.entries.get? name.lower = some ((entry before name d).ordered inOrder)) :
    s.get tree name
      = if (modified before name).same (modified tree name) then (some (d.stored.ordered inOrder), s, [])
        else (none, s.drop name, [.staleEntry name]) := by
  have get := get?_orderedMembers inOrder (fields_nodup before name d)
  have some : (Value.object (orderedMembers inOrder (fields before name d))).truthy = true := by
    rw [Value.truthy, isEmpty_orderedMembers]
    rfl
  have time : ((orderedMembers inOrder (fields before name d)).get? "modified").getD .null = modified before name := by
    rw [get "modified"]
    exact ordered_modified inOrder before name
  have document : Stored.required (.object (orderedMembers inOrder (fields before name d))) "document"
      = .ok (d.encode.ordered inOrder) := Stored.required_of_get? (get "document")
  obtain ⟨r, decoded, made⟩ := bind_eq_ok.mp (d.decode_encode inOrder)
  rw [Shelf.get, consult, kept, entry_ordered]
  simp only [some, Bool.not_true, Bool.false_eq_true, if_false, bind, Except.bind, time, document, decoded]
  cases same : (modified before name).same (modified tree name) with
  | false => rfl
  | true => simp [made]

/-! ## The file -/

/-- Every entry has a property that may depend on its key. -/
def Each (P : Text → Value → Prop) (s : Shelf) : Prop := ∀ kept ∈ s.entries.entries, P kept.1 kept.2

theorem Each.of_get? {P : Text → Value → Prop} {s : Shelf} (each : s.Each P) {key : Text} {v : Value}
    (kept : s.entries.get? key = some v) : P key v :=
  each (key, v) ((Entries.get?_eq_some_iff s.entries.nodup).mp kept)

theorem each_of_get? {P : Text → Value → Prop} {s : Shelf}
    (each : ∀ key v, s.entries.get? key = some v → P key v) : s.Each P := by
  rintro ⟨key, v⟩ member
  exact each key v ((Entries.get?_eq_some_iff s.entries.nodup).mpr member)

theorem Each.mono {P Q : Text → Value → Prop} {s : Shelf} (each : s.Each P) (weaker : ∀ key v, P key v → Q key v) :
    s.Each Q := fun kept member => weaker _ _ (each kept member)

theorem Each.drop {P : Text → Value → Prop} {s : Shelf} (each : s.Each P) (name : Text) : (s.drop name).Each P :=
  fun kept member => each kept ((Entries.erase_sublist _ _).subset member)

theorem Each.put {P : Text → Value → Prop} {s : Shelf} (each : s.Each P) {tree : FileTree} {name : Text}
    {d : Document} (new : P name.lower (entry tree name d)) : (s.put tree name d).Each P := by
  intro kept member
  rcases Entries.mem_insert member with rfl | old
  · exact new
  · exact each kept old

/-- What the file of a shelf says about itself. -/
def heading (s : Shelf) : Entries Value :=
  [("schema_version", .int schemaVersion), ("config_hash", .text s.fingerprint)]

/-- The parts of the file of a shelf. -/
def sections (s : Shelf) : Entries Value := [("meta", .object s.heading), ("entries", .object s.entries.entries)]

theorem heading_nodup (s : Shelf) : s.heading.keys.Nodup :=
  show [("schema_version" : Text), "config_hash"].Nodup by decide

theorem sections_nodup (s : Shelf) : s.sections.keys.Nodup := show [("meta" : Text), "entries"].Nodup by decide

theorem wellFormed_content {s : Shelf} (each : s.Each fun _ => Value.WellFormed) : s.content.WellFormed := by
  have head : (Value.object s.heading).WellFormed := by
    rw [Value.wellFormed_object]
    refine ⟨s.heading_nodup, ?_⟩
    simp only [heading, List.forall_mem_cons]
    exact ⟨rfl, rfl, nofun⟩
  have entries : (Value.object s.entries.entries).WellFormed := Value.wellFormed_object.mpr ⟨s.entries.nodup, each⟩
  show (Value.object s.sections).WellFormed
  rw [Value.wellFormed_object]
  refine ⟨s.sections_nodup, ?_⟩
  simp [sections, head, entries]

/-- What the file of a shelf holds under a fingerprint. -/
theorem entriesIn_content (s : Shelf) (fingerprint : Text) :
    if s.fingerprint = fingerprint then
      ∃ entries : Dict Value, entriesIn fingerprint s.content.sorted = .ok entries
        ∧ ∀ key, entries.get? key = ((s.entries.get? key).map Value.sorted).filter isRecord
    else entriesIn fingerprint s.content.sorted = .error .otherSettings := by
  have sections := get?_orderedMembers true s.sections_nodup
  have heading := get?_orderedMembers true s.heading_nodup
  have content : s.content.sorted = .object (orderedMembers true s.sections) := Value.ordered_object true _
  have head : (orderedMembers true s.sections).get? "meta" = some (.object (orderedMembers true s.heading)) := by
    rw [sections "meta"]
    exact congrArg some (Value.ordered_object true _)
  have entries : (orderedMembers true s.sections).get? "entries"
      = some (.object (orderedMembers true s.entries.entries)) := by
    rw [sections "entries"]
    exact congrArg some (Value.ordered_object true _)
  have version : (orderedMembers true s.heading).get? "schema_version" = some (.int schemaVersion) :=
    heading "schema_version"
  have hash : (orderedMembers true s.heading).get? "config_hash" = some (.text s.fingerprint) :=
    heading "config_hash"
  have right : (Value.int schemaVersion).same (.int schemaVersion) = true := by decide
  have nodup : (orderedMembers true s.entries.entries).keys.Nodup := by
    rw [orderedMembers, Entries.keys_mapValues]
    exact Entries.keys_sorted_nodup s.entries.nodup
  split
  · next same =>
    refine ⟨Dict.ofList ((orderedMembers true s.entries.entries).filter fun kept => isRecord kept.2), ?_, ?_⟩
    · have own : (Value.text s.fingerprint).same (.text fingerprint) = true := by simp [Value.same, same]
      simp only [content, entriesIn, head, entries, version, hash, Option.getD_some, right, own]
      rfl
    · intro key
      rw [Dict.get?_ofList (Entries.keys_filter_nodup nodup _), Entries.get?_filter nodup,
        get?_orderedMembers true s.entries.nodup]
      rfl
  · next distinct =>
    have foreign : (Value.text s.fingerprint).same (.text fingerprint) = false := by simp [Value.same, distinct]
    simp only [content, entriesIn, head, version, hash, Option.getD_some, right, foreign]
    rfl

/-- A shelf as it is at the start of a run. -/
def opened (path : Path) (fingerprint : Text) (tree : FileTree) : Shelf :=
  (Shelf.load { path, fingerprint } tree).1

theorem opened_of_absent {path : Path} {tree : FileTree} (absent : tree.at? path = none) (fingerprint : Text) :
    opened path fingerprint tree = { path, fingerprint } := by
  rw [opened, load, absent]
  rfl

theorem get_opened_of_absent {path : Path} {tree : FileTree} (absent : tree.at? path = none) (fingerprint : Text)
    (other : FileTree) (name : Text) : ((opened path fingerprint tree).get other name).1 = none := by
  rw [opened_of_absent absent]
  rfl

/-- A shelf is empty at the start of a run, or has the entries of its file. -/
theorem opened_cases (path : Path) (fingerprint : Text) (tree : FileTree) :
    opened path fingerprint tree = { path, fingerprint }
      ∨ ∃ data entries, (tree.readText path).toOption.bind Json.read? = some data
        ∧ entriesIn fingerprint data = .ok entries ∧ opened path fingerprint tree = { path, fingerprint, entries } := by
  unfold opened load
  split
  · exact .inl rfl
  · split
    · exact .inl rfl
    · next data read =>
      split
      · next entries found => exact .inr ⟨data, entries, read, found, rfl⟩
      · exact .inl rfl

theorem path_opened (path : Path) (fingerprint : Text) (tree : FileTree) :
    (opened path fingerprint tree).path = path := by
  rcases opened_cases path fingerprint tree with same | ⟨data, entries, -, -, same⟩ <;> rw [same]

theorem fingerprint_opened (path : Path) (fingerprint : Text) (tree : FileTree) :
    (opened path fingerprint tree).fingerprint = fingerprint := by
  rcases opened_cases path fingerprint tree with same | ⟨data, entries, -, -, same⟩ <;> rw [same]

/-- A file that a shelf has written is read back by a shelf with the same fingerprint, and by no other. -/
theorem get?_opened {s : Shelf} (each : s.Each fun _ => Value.WellFormed) {tree : FileTree}
    (file : tree.read s.path = .ok (Json.write .pretty s.content).toUtf8) (fingerprint key : Text) :
    (opened s.path fingerprint tree).entries.get? key
      = if s.fingerprint = fingerprint then ((s.entries.get? key).map Value.sorted).filter isRecord else none := by
  obtain ⟨stamp, there⟩ := FileTree.at?_of_read file
  have text := FileTree.readText_of_read (Json.printed_writeAt .pretty 0 s.content) file
  have data : Json.read? (Json.writeAt .pretty 0 s.content) = some s.content.sorted :=
    Json.read?_write rfl (wellFormed_content each)
  have found := entriesIn_content s fingerprint
  simp only [opened, load, there, Option.isNone_some, Bool.false_eq_true, if_false, text, Except.toOption,
    Option.bind_some, data]
  split at found
  · next same =>
    obtain ⟨entries, read, get⟩ := found
    simp only [read, get, if_pos same]
  · next distinct =>
    simp only [found, if_neg distinct]
    rfl

/-- A file that has the content it had in another tree, if it has any, gives the same entries or none. -/
theorem opened_of_read {path : Path} {tree other : FileTree}
    (kept : ∀ content, other.read path = .ok content → tree.read path = .ok content) (fingerprint : Text) :
    opened path fingerprint other = opened path fingerprint tree
      ∨ opened path fingerprint other = { path, fingerprint } := by
  cases given : other.read path with
  | error fault =>
    have text : other.readText path = .error fault := by
      rw [FileTree.readText, given]
      rfl
    right
    unfold opened load
    rw [text]
    split <;> rfl
  | ok content =>
    obtain ⟨stamp, there⟩ := FileTree.at?_of_read given
    obtain ⟨stamp', thereToo⟩ := FileTree.at?_of_read (kept content given)
    have text : other.readText path = tree.readText path := by
      rw [FileTree.readText, FileTree.readText, given, kept content given]
    left
    unfold opened load
    rw [there, thereToo, text]
    rfl

/-- What is read from a file is well formed, whoever has written it. -/
theorem wellFormed_opened (path : Path) (fingerprint : Text) (tree : FileTree) :
    (opened path fingerprint tree).Each fun _ => Value.WellFormed := by
  rcases opened_cases path fingerprint tree with same | ⟨data, entries, read, found, same⟩
  · rw [same]
    exact nofun
  · obtain ⟨text, -, given⟩ := Option.bind_eq_some_iff.mp read
    obtain ⟨kept, counts, rfl⟩ := entriesIn_eq_ok_iff.mp found
    have wellFormed := counts.wellFormed (Json.wellFormed_read? given)
    rw [same]
    intro entry member
    rcases Entries.mem_insertAll member with none | later
    · cases none
    · exact (Value.wellFormed_object.mp wellFormed).2 entry (List.mem_of_mem_filter later)

/-- Saving writes the content of the shelf, if anything has changed. -/
theorem save_eq_ok {s s' : Shelf} {tree tree' : FileTree} (saved : s.save tree = .ok (s', tree')) :
    if s.dirty then tree'.read s.path = .ok (Json.write .pretty s.content).toUtf8 else tree' = tree := by
  unfold save at saved
  cases dirty : s.dirty with
  | false =>
    rw [dirty] at saved
    exact (Prod.mk.inj (Except.ok.inj saved)).2.symm
  | true =>
    rw [dirty] at saved
    obtain ⟨made, -, rest⟩ := bind_eq_ok.mp saved
    obtain ⟨written, written_eq, rest⟩ := bind_eq_ok.mp rest
    obtain ⟨-, rfl⟩ := Prod.mk.inj (Except.ok.inj rest)
    exact FileTree.read_write written_eq

/-- What a run has changed on a shelf is there when the shelf is opened again. -/
theorem get?_opened_save {s closed : Shelf} (each : s.Each fun _ => Value.WellFormed) (dirty : s.dirty = true)
    {tree saved : FileTree} (written : s.save tree = .ok (closed, saved)) (fingerprint key : Text) :
    (opened s.path fingerprint saved).entries.get? key
      = if s.fingerprint = fingerprint then ((s.entries.get? key).map Value.sorted).filter isRecord else none := by
  have file := save_eq_ok written
  rw [if_pos dirty] at file
  exact get?_opened each file fingerprint key

end Shelf

end Marginalia
