import Marginalia.Text.Basic

/-!
# Ordered maps

Maps from texts that remember the order in which their keys were first put in. A key that is put in again
keeps its place. `Entries` is the bare list of pairs, `Dict` adds that no key occurs twice.
-/

namespace Marginalia

/-- Pairs of a key and a value. -/
abbrev Entries (α : Type) := List (Text × α)

namespace Entries

variable {α β : Type}

/-- The keys in order. -/
def keys (entries : Entries α) : List Text := entries.map Prod.fst

/-- The value of the first pair with the key. -/
def get? : Entries α → Text → Option α
  | [], _ => none
  | (k, v) :: rest, key => if k = key then some v else get? rest key

/-- The value is put at the place of its key, or last for a new key. -/
def insert : Entries α → Text → α → Entries α
  | [], key, value => [(key, value)]
  | (k, v) :: rest, key, value =>
    if k = key then (key, value) :: rest else (k, v) :: insert rest key value

/-- The pairs without the one of the key. -/
def erase : Entries α → Text → Entries α
  | [], _ => []
  | (k, v) :: rest, key => if k = key then rest else (k, v) :: erase rest key

/-- Pairs put in one after the other. -/
def insertAll (entries : Entries α) (pairs : List (Text × α)) : Entries α :=
  pairs.foldl (fun acc pair => acc.insert pair.1 pair.2) entries

/-- The pairs with their values replaced. -/
def mapValues (f : α → β) (entries : Entries α) : Entries β := entries.map fun entry => (entry.1, f entry.2)

@[simp] theorem keys_mapValues (f : α → β) (entries : Entries α) : (entries.mapValues f).keys = entries.keys := by
  simp [mapValues, keys, Function.comp_def]

theorem mem_keys_insert {entries : Entries α} {key k : Text} {value : α} :
    k ∈ (entries.insert key value).keys ↔ k = key ∨ k ∈ entries.keys := by
  induction entries with
  | nil => simp [insert, keys]
  | cons entry rest ih =>
    obtain ⟨k', v'⟩ := entry
    by_cases h : k' = key
    · simp [insert, keys, h]
    · simp only [insert, h, if_false, keys, List.map_cons, List.mem_cons]
      simp only [keys] at ih
      rw [ih, or_left_comm]

theorem keys_insert_nodup {entries : Entries α} (h : entries.keys.Nodup) (key : Text) (value : α) :
    (entries.insert key value).keys.Nodup := by
  induction entries with
  | nil => simp [insert, keys]
  | cons entry rest ih =>
    obtain ⟨k', v'⟩ := entry
    simp only [keys, List.map_cons, List.nodup_cons] at h
    by_cases hk : k' = key
    · subst hk
      simpa [insert, keys] using h
    · simp only [insert, hk, if_false, keys, List.map_cons, List.nodup_cons]
      refine ⟨?_, ih h.2⟩
      intro hm
      rcases mem_keys_insert.mp hm with rfl | hm
      · exact hk rfl
      · exact h.1 hm

theorem keys_erase_sublist (entries : Entries α) (key : Text) :
    (entries.erase key).keys.Sublist entries.keys := by
  induction entries with
  | nil => exact List.Sublist.refl _
  | cons entry rest ih =>
    obtain ⟨k', v'⟩ := entry
    by_cases hk : k' = key
    · simp [erase, hk, keys]
    · simpa [erase, hk, keys] using ih

theorem keys_insertAll_nodup (entries : Entries α) (h : entries.keys.Nodup) (pairs : List (Text × α)) :
    (entries.insertAll pairs).keys.Nodup := by
  induction pairs generalizing entries with
  | nil => exact h
  | cons pair rest ih => exact ih _ (keys_insert_nodup h pair.1 pair.2)

end Entries

/-- A map from texts that remembers the order of its keys. -/
structure Dict (α : Type) where
  entries : Entries α
  nodup : entries.keys.Nodup := by decide
  deriving DecidableEq

namespace Dict

variable {α β : Type}

instance [Repr α] : Repr (Dict α) := ⟨fun d n => reprPrec d.entries n⟩

/-- The map without keys. -/
def empty : Dict α := ⟨[], List.nodup_nil⟩

instance : Inhabited (Dict α) := ⟨empty⟩

/-- The keys in order. -/
def keys (d : Dict α) : List Text := d.entries.keys

/-- Nothing has been put in. -/
def isEmpty (d : Dict α) : Bool := d.entries.isEmpty

/-- The value of a key. -/
def get? (d : Dict α) (key : Text) : Option α := d.entries.get? key

/-- The key has a value. -/
def contains (d : Dict α) (key : Text) : Bool := (d.get? key).isSome

/-- The value is put at the place of its key, or last for a new key. -/
def insert (d : Dict α) (key : Text) (value : α) : Dict α :=
  ⟨d.entries.insert key value, Entries.keys_insert_nodup d.nodup key value⟩

/-- The map without the key. -/
def erase (d : Dict α) (key : Text) : Dict α :=
  ⟨d.entries.erase key, (Entries.keys_erase_sublist d.entries key).nodup d.nodup⟩

/-- The map with its values replaced. -/
def mapValues (f : α → β) (d : Dict α) : Dict β :=
  ⟨d.entries.mapValues f, (Entries.keys_mapValues f d.entries).symm ▸ d.nodup⟩

/-- Pairs put in one after the other: of a repeated key the last value counts, at the first place. -/
def ofList (pairs : List (Text × α)) : Dict α :=
  ⟨Entries.insertAll [] pairs, Entries.keys_insertAll_nodup [] List.nodup_nil pairs⟩

end Dict

end Marginalia
