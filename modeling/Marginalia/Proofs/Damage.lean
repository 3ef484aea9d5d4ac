import Marginalia.Cache.Shelf
import Marginalia.Proofs.Files
import Marginalia.Proofs.Json

/-!
# Damaged shelves

The entries of a shelf may be any values, and its file may hold anything. A request never fails for that. What a stored
value can be at fault for is known, so an entry at fault is thrown away, and all others stay as they are. A file counts
as a whole or not at all, and one that counts gives exactly those of its entries that are objects.
-/

namespace Marginalia

open Fallible

/-! ## Faults of values -/

/-- The operation fails, if it does, because a value is at fault. -/
def Excused {α : Type} (x : Except Fault α) : Prop := ∀ fault, x = .error fault → fault.isOfValue = true

section Excused

variable {α β : Type}

theorem excused_ok (a : α) : Excused (.ok a) := by
  intro fault failed
  cases failed

theorem excused_error {fault : Fault} (ofValue : fault.isOfValue = true) : Excused (.error fault : Except Fault α) := by
  intro other failed
  cases failed
  exact ofValue

theorem Excused.bind {x : Except Fault α} {f : α → Except Fault β} (first : Excused x) (next : ∀ a, Excused (f a)) :
    Excused (x >>= f) := by
  cases x with
  | error fault => exact excused_error (first fault rfl)
  | ok a => exact next a

theorem excused_mapM {f : α → Except Fault β} (each : ∀ a, Excused (f a)) (xs : List α) : Excused (xs.mapM f) := by
  induction xs with
  | nil => exact excused_ok []
  | cons x xs ih =>
    rw [mapM_cons]
    apply (each x).bind
    intro y
    apply ih.bind
    intro ys
    exact excused_ok _

end Excused

namespace Stored

theorem excused_record (v : Value) : Excused (record v) := by
  cases v with
  | object members => exact excused_ok members
  | _ => exact excused_error rfl

theorem excused_text (v : Value) : Excused (text v) := by
  cases v with
  | text t => exact excused_ok t
  | _ => exact excused_error rfl

theorem excused_required (v : Value) (name : Text) : Excused (required v name) := by
  cases v with
  | object members =>
    rw [required]
    cases Entries.get? members name with
    | none => exact excused_error rfl
    | some v => exact excused_ok v
  | _ => exact excused_error rfl

theorem excused_pair (v : Value) : Excused (pair v) := by
  unfold pair
  split
  · split
    · exact excused_ok _
    · exact excused_error rfl
  · exact excused_error rfl

theorem excused_items (v : Value) : Excused (items v) := by
  unfold items
  split
  · exact excused_ok []
  · split
    · exact excused_ok _
    · exact excused_error rfl

theorem excused_map (v : Value) : Excused (map v) := by
  unfold map
  split
  · exact excused_ok _
  · apply (excused_items v).bind
    intro vs
    apply (excused_mapM excused_pair vs).bind
    intro pairs
    exact excused_ok _

theorem excused_dict {α β : Type} {f : α → Except Fault β} (each : ∀ a, Excused (f a)) (entries : Entries α) :
    Excused (dict f entries) := by
  have values : ∀ entry : Text × α, Excused (f entry.2 >>= fun b => .ok (entry.1, b)) := by
    intro entry
    apply (each entry.2).bind
    intro b
    exact excused_ok _
  apply (excused_mapM values entries).bind
  intro pairs
  exact excused_ok _

theorem excused_named {α : Type} (ofName? : Text → Option α) {fault : Value → Fault}
    (ofValue : ∀ v, (fault v).isOfValue = true) (v : Value) : Excused (named ofName? fault v) := by
  cases v with
  | text t =>
    rw [named]
    cases ofName? t with
    | none => exact excused_error (ofValue _)
    | some a => exact excused_ok a
  | _ => exact excused_error (ofValue _)

end Stored

open Stored

theorem TypedRecord.excused_decode (v : Value) : Excused (decode v) := by
  apply (excused_record v).bind
  intro members
  exact excused_ok _

theorem TypedRecord.excused_decodeOptional (v : Value) : Excused (decodeOptional v) := by
  unfold decodeOptional
  split
  · apply (excused_decode v).bind
    intro r
    exact excused_ok _
  · exact excused_ok none

theorem BlockRecord.excused_decode (v : Value) : Excused (decode v) := by
  apply (excused_record v).bind
  intro members
  apply (excused_map _).bind
  intro tags
  apply (excused_map _).bind
  intro uses
  apply (excused_record _).bind
  intro params
  apply (excused_dict TypedRecord.excused_decode params).bind
  intro params
  apply (TypedRecord.excused_decodeOptional _).bind
  intro returns
  apply (excused_map _).bind
  intro others
  exact excused_ok _

theorem DeclarationRecord.excused_decode (v : Value) : Excused (decode v) := by
  apply (excused_required v "kind").bind
  intro kind
  apply (excused_named Kind.ofName? (fun _ => rfl) kind).bind
  intro kind
  apply (excused_record v).bind
  intro members
  apply (excused_required v "name").bind
  intro name
  apply (BlockRecord.excused_decode _).bind
  intro doc
  exact excused_ok _

theorem ProblemRecord.excused_decode (v : Value) : Excused (decode v) := by
  apply (excused_required v "kind").bind
  intro kind
  apply (excused_named ProblemKind.ofName? (fun _ => rfl) kind).bind
  intro kind
  apply (excused_required v "message").bind
  intro message
  exact excused_ok _

/-- Whatever value stands in a stored document, and wherever it stands, no other faults come of it. -/
theorem DocumentRecord.excused_decode (v : Value) : Excused (decode v) := by
  apply (excused_record v).bind
  intro members
  apply (excused_items _).bind
  intro declarations
  apply (excused_mapM DeclarationRecord.excused_decode declarations).bind
  intro declarations
  apply (BlockRecord.excused_decode _).bind
  intro main
  have names : Excused (DeclarationRecord.index declarations) := by
    apply (excused_mapM (fun d => excused_text d.name) declarations).bind
    intro names
    exact excused_ok _
  apply names.bind
  intro index
  apply (excused_items _).bind
  intro problems
  apply (excused_mapM ProblemRecord.excused_decode problems).bind
  intro problems
  exact excused_ok _

theorem Entries.keys_filter_nodup {α : Type} {entries : Entries α} (nodup : entries.keys.Nodup)
    (keep : Text × α → Bool) : Entries.keys (entries.filter keep) |>.Nodup :=
  (List.filter_sublist.map Prod.fst).nodup nodup

namespace Shelf

/-! ## Requests -/

/-- The entry is an object that holds the record, for a source that has the given time. -/
def Holds (entry time : Value) (r : DocumentRecord) : Prop :=
  ∃ members stored, entry = .object members ∧ ((Entries.get? members "modified").getD .null).same time = true
    ∧ Entries.get? members "document" = some stored ∧ DocumentRecord.decode stored = .ok r

/-- What becomes of a request, and of the shelf, if the source has the given time. -/
inductive Outcome (s : Shelf) (key : Text) (time : Value) : Option DocumentRecord → Shelf → Prop where
  /-- The record that the entry holds is answered. -/
  | served {entry : Value} {r : DocumentRecord} (there : s.entries.get? key.lower = some entry)
    (holds : Holds entry time r) : Outcome s key time (some r) s
  /-- There is no entry, or one that counts as false. -/
  | missing (nothing : ∀ entry, s.entries.get? key.lower = some entry → entry.truthy = false) :
    Outcome s key time none s
  /-- The entry holds no record for the time and is thrown away, and no other one is. -/
  | dropped {entry : Value} {s' : Shelf} (there : s.entries.get? key.lower = some entry) (filled : entry.truthy = true)
    (damaged : ∀ r, ¬ Holds entry time r)
    (others : s'.entries.entries = s.entries.entries.filter fun kept => kept.1 ≠ key.lower)
    (rest : s' = { s with entries := s'.entries, dirty := true }) : Outcome s key time none s'

theorem holds_object {members : Entries Value} {time : Value} {r : DocumentRecord}
    (holds : Holds (.object members) time r) :
    ((Entries.get? members "modified").getD .null).same time = true
      ∧ (required (.object members) "document" >>= DocumentRecord.decode) = .ok r := by
  obtain ⟨_, stored, same, timely, document, decoded⟩ := holds
  cases same
  refine ⟨timely, ?_⟩
  rw [required, document]
  exact decoded

theorem holds_of_required {members : Entries Value} {time : Value} {r : DocumentRecord}
    (timely : ((Entries.get? members "modified").getD .null).same time = true)
    (read : (required (.object members) "document" >>= DocumentRecord.decode) = .ok r) :
    Holds (.object members) time r := by
  obtain ⟨stored, found, decoded⟩ := bind_eq_ok.mp read
  unfold required at found
  dsimp only at found
  split at found
  · next stored' document =>
    cases found
    exact ⟨members, stored, rfl, timely, document, decoded⟩
  · cases found

/-- A request comes to one of three ends if the time of the source is known. -/
theorem consult_cases (s : Shelf) (key : Text) (time : Value) :
    (∃ entry r, s.entries.get? key.lower = some entry ∧ Holds entry time r
      ∧ s.consult key (.ok time) = .ok (some r, s, []))
    ∨ ((∀ entry, s.entries.get? key.lower = some entry → entry.truthy = false)
      ∧ s.consult key (.ok time) = .ok (none, s, []))
    ∨ ∃ entry events, s.entries.get? key.lower = some entry ∧ entry.truthy = true ∧ (∀ r, ¬ Holds entry time r)
      ∧ s.consult key (.ok time) = .ok (none, s.drop key, events) := by
  unfold consult
  cases there : s.entries.get? key.lower with
  | none =>
    refine .inr (.inl ⟨?_, rfl⟩)
    intro entry present
    cases present
  | some entry =>
    cases filled : entry.truthy with
    | false =>
      refine .inr (.inl ⟨?_, by simp only [filled, Bool.not_false, if_true]⟩)
      intro other present
      cases present
      exact filled
    | true =>
      simp only [filled, Bool.not_true, Bool.false_eq_true, if_false]
      cases entry with
      | object members =>
        simp only [ok_bind]
        cases timely : ((Entries.get? members "modified").getD .null).same time with
        | false =>
          refine .inr (.inr ⟨_, _, rfl, filled, ?_, rfl⟩)
          intro r holds
          rw [(holds_object holds).1] at timely
          cases timely
        | true =>
          cases read : required (.object members) "document" >>= DocumentRecord.decode with
          | ok r => exact .inl ⟨_, r, rfl, holds_of_required timely read, rfl⟩
          | error fault =>
            -- the only faults that can come of the entry are those that are caught
            have excused : fault.isOfValue = true :=
              (excused_required _ _).bind DocumentRecord.excused_decode fault read
            refine .inr (.inr ⟨_, _, rfl, filled, ?_, if_pos excused⟩)
            intro r holds
            rw [(holds_object holds).2] at read
            cases read
      | _ =>
        refine .inr (.inr ⟨_, _, rfl, filled, ?_, rfl⟩)
        rintro r ⟨members, -, same, -⟩
        cases same

/-! ## The file -/

/-- A cache file with this data was written in the layout of today and under the fingerprint, and has these entries. -/
def Counts (fingerprint : Text) (data : Value) (found : Entries Value) : Prop :=
  ∃ members info version, data = .object members ∧ Entries.get? members "meta" = some (.object info)
    ∧ Entries.get? info "schema_version" = some version ∧ version.same (.int schemaVersion) = true
    ∧ Entries.get? info "config_hash" = some (.text fingerprint)
    ∧ (Entries.get? members "entries").getD (.object []) = .object found

theorem eq_text_of_same {v : Value} {t : Text} (same : v.same (.text t) = true) : v = .text t := by
  cases v with
  | text s => simpa [Value.same] using same
  | _ => simp [Value.same, Value.numeric?] at same

/-- Where there is no version, the version is zero. -/
theorem exists_version {info : Entries Value}
    (version : ((Entries.get? info "schema_version").getD (.int 0)).same (.int schemaVersion) = true) :
    ∃ v, Entries.get? info "schema_version" = some v ∧ v.same (.int schemaVersion) = true := by
  cases there : Entries.get? info "schema_version" with
  | none =>
    rw [there] at version
    exact absurd version (by decide)
  | some v =>
    rw [there] at version
    exact ⟨v, rfl, version⟩

theorem exists_hash {info : Entries Value} {fingerprint : Text}
    (hash : ((Entries.get? info "config_hash").getD .null).same (.text fingerprint) = true) :
    Entries.get? info "config_hash" = some (.text fingerprint) := by
  have same := eq_text_of_same hash
  cases there : Entries.get? info "config_hash" with
  | none =>
    rw [there] at same
    cases same
  | some v =>
    rw [there] at same
    exact congrArg some same

/-- Where nothing is told of the file, there is no version either. -/
theorem get?_meta {members info : Entries Value} {version : Value}
    (head : (Entries.get? members "meta").getD (.object []) = .object info)
    (versioned : Entries.get? info "schema_version" = some version) :
    Entries.get? members "meta" = some (.object info) := by
  cases there : Entries.get? members "meta" with
  | none =>
    rw [there] at head
    cases head
    cases versioned
  | some v =>
    rw [there] at head
    exact congrArg some head

/-- The entries of a file are taken exactly if it counts. -/
theorem entriesIn_eq_ok_iff {fingerprint : Text} {data : Value} {entries : Dict Value} :
    entriesIn fingerprint data = .ok entries ↔
      ∃ found, Counts fingerprint data found ∧ entries = Dict.ofList (found.filter fun kept => isRecord kept.2) := by
  constructor
  · intro taken
    unfold entriesIn at taken
    split at taken
    · next members =>
      split at taken
      · next info head =>
        dsimp only at taken
        split at taken
        · cases taken
        · next version =>
          split at taken
          · cases taken
          · next hash =>
            split at taken
            · next found inside =>
              obtain ⟨v, versioned, right⟩ :=
                exists_version (by simpa only [Bool.not_eq_true, Bool.not_eq_false'] using version)
              have hashed := exists_hash (by simpa only [Bool.not_eq_true, Bool.not_eq_false'] using hash)
              exact ⟨found, ⟨members, info, v, rfl, get?_meta head versioned, versioned, right, hashed, inside⟩,
                (Except.ok.inj taken).symm⟩
            · cases taken
      · cases taken
    · cases taken
  · rintro ⟨found, ⟨members, info, version, rfl, headed, versioned, right, hashed, inside⟩, rfl⟩
    have own : (Value.text fingerprint).same (.text fingerprint) = true := by simp [Value.same]
    simp only [entriesIn, headed, versioned, hashed, inside, Option.getD_some, right, own]
    rfl

/-- The entries of a well-formed value are well formed. -/
theorem Counts.wellFormed {fingerprint : Text} {data : Value} {found : Entries Value}
    (counts : Counts fingerprint data found) (wellFormed : data.WellFormed) : (Value.object found).WellFormed := by
  obtain ⟨members, -, -, rfl, -, -, -, -, inside⟩ := counts
  obtain ⟨nodup, each⟩ := Value.wellFormed_object.mp wellFormed
  rw [← inside]
  cases there : Entries.get? members "entries" with
  | none => rfl
  | some v => exact each _ ((Entries.get?_eq_some_iff nodup).mp there)

end Shelf

end Marginalia
