import Marginalia.Proofs.Rounding
import Marginalia.Value.Basic
import Mathlib.Data.List.Nodup
import Mathlib.Data.List.Perm.Basic

/-!
# Maps in the order of their keys

Two maps without repeated keys that hold the same pairs are one map once their pairs stand in the order of their
keys. The same goes for values, whose objects are put in order at every depth.
-/

namespace Marginalia

/-! ## The order of texts -/

namespace Text

theorem le_total (s t : Text) : (le s t || le t s) = true := by
  induction s generalizing t with
  | nil => simp [le]
  | cons a s ih =>
    cases t with
    | nil => simp [le]
    | cons b t =>
      rcases Nat.lt_trichotomy a.toNat b.toNat with less | same | more
      · simp [le, less]
      · obtain rfl := Char.toNat_inj.mp same
        simpa [le] using ih t
      · simp [le, more]

theorem le_trans (s t u : Text) (first : le s t = true) (second : le t u = true) : le s u = true := by
  induction s generalizing t u with
  | nil => rfl
  | cons a s ih =>
    cases t with
    | nil => simp [le] at first
    | cons b t =>
      cases u with
      | nil => simp [le] at second
      | cons c u =>
        simp only [le, Bool.or_eq_true, decide_eq_true_eq, Bool.and_eq_true, beq_iff_eq] at first second ⊢
        rcases first with less | ⟨rfl, below⟩
        · rcases second with less' | ⟨rfl, -⟩
          · exact .inl (Nat.lt_trans less less')
          · exact .inl less
        · rcases second with less' | ⟨rfl, below'⟩
          · exact .inl less'
          · exact .inr ⟨rfl, ih t u below below'⟩

theorem le_antisymm (s t : Text) (first : le s t = true) (second : le t s = true) : s = t := by
  induction s generalizing t with
  | nil =>
    cases t with
    | nil => rfl
    | cons b t => simp [le] at second
  | cons a s ih =>
    cases t with
    | nil => simp [le] at first
    | cons b t =>
      simp only [le, Bool.or_eq_true, decide_eq_true_eq, Bool.and_eq_true, beq_iff_eq] at first second
      rcases first with less | ⟨rfl, below⟩
      · rcases second with less' | ⟨rfl, -⟩ <;> omega
      · rcases second with less' | ⟨-, below'⟩
        · omega
        · rw [ih t below below']

end Text

/-! ## Pairs in the order of their keys -/

namespace Entries

variable {α β : Type}

theorem mem_keys_of_mem {entries : Entries α} {key : Text} {value : α} (h : (key, value) ∈ entries) :
    key ∈ entries.keys := List.mem_map.mpr ⟨(key, value), h, rfl⟩

theorem get?_eq_some_iff {entries : Entries α} (nodup : entries.keys.Nodup) {key : Text} {value : α} :
    entries.get? key = some value ↔ (key, value) ∈ entries := by
  induction entries with
  | nil => simp [get?]
  | cons entry rest ih =>
    obtain ⟨k, v⟩ := entry
    obtain ⟨fresh, restNodup⟩ := List.nodup_cons.mp nodup
    by_cases same : k = key
    · subst same
      have absent : (k, value) ∉ rest := fun h => fresh (mem_keys_of_mem h)
      simp [get?, absent, eq_comm]
    · simp [get?, same, ih restNodup, Ne.symm same]

theorem get?_of_perm {entries others : Entries α} (nodup : entries.keys.Nodup) (perm : entries.Perm others)
    (key : Text) : entries.get? key = others.get? key := by
  have othersNodup : others.keys.Nodup := (perm.map Prod.fst).nodup_iff.mp nodup
  apply Option.ext
  intro value
  rw [get?_eq_some_iff nodup, get?_eq_some_iff othersNodup]
  exact perm.mem_iff

theorem get?_mapValues (f : α → β) (entries : Entries α) (key : Text) :
    (entries.mapValues f).get? key = (entries.get? key).map f := by
  induction entries with
  | nil => rfl
  | cons entry rest ih =>
    obtain ⟨k, v⟩ := entry
    by_cases same : k = key
    · simp [mapValues, get?, same]
    · simpa [mapValues, get?, same] using ih

theorem insert_of_not_mem {entries : Entries α} {key : Text} (fresh : key ∉ entries.keys) (value : α) :
    entries.insert key value = entries ++ [(key, value)] := by
  induction entries with
  | nil => rfl
  | cons entry rest ih =>
    obtain ⟨k, v⟩ := entry
    simp only [keys, List.map_cons, List.mem_cons, not_or] at fresh
    rw [insert, if_neg (Ne.symm fresh.1), ih fresh.2, List.cons_append]

/-- A key that is there keeps its place and gets the value. -/
theorem insert_of_mem {entries : Entries α} (nodup : entries.keys.Nodup) {key : Text} (member : key ∈ entries.keys)
    (value : α) :
    entries.insert key value = entries.map fun entry => if entry.1 = key then (key, value) else entry := by
  induction entries with
  | nil => cases member
  | cons entry rest ih =>
    obtain ⟨k, v⟩ := entry
    obtain ⟨fresh, restNodup⟩ := List.nodup_cons.mp nodup
    rw [insert]
    by_cases same : k = key
    · subst same
      have kept : rest.map (fun entry => if entry.1 = k then (k, value) else entry) = rest := by
        refine (List.map_congr_left fun entry inside => ?_).trans (List.map_id rest)
        rw [if_neg]
        · rfl
        · rintro rfl
          exact fresh (mem_keys_of_mem inside)
      rw [if_pos rfl, List.map_cons, if_pos rfl, kept]
    · have later : key ∈ keys rest := (List.mem_cons.mp member).resolve_left (Ne.symm same)
      rw [if_neg same, ih restNodup later, List.map_cons, if_neg same]

theorem get?_insert (entries : Entries α) (key other : Text) (value : α) :
    (entries.insert key value).get? other = if key = other then some value else entries.get? other := by
  induction entries with
  | nil => rfl
  | cons entry rest ih =>
    obtain ⟨k, v⟩ := entry
    rw [insert]
    split
    · next same =>
      subst same
      rw [get?, get?]
      split <;> rfl
    · next distinct =>
      rw [get?, get?, ih]
      split
      · next same => rw [if_neg (fun h => distinct (same.trans h.symm))]
      · rfl

theorem keys_insert (entries : Entries α) (key : Text) (value : α) :
    (entries.insert key value).keys = if key ∈ entries.keys then entries.keys else entries.keys ++ [key] := by
  induction entries with
  | nil => rfl
  | cons entry rest ih =>
    obtain ⟨k, v⟩ := entry
    simp only [keys] at ih
    by_cases same : k = key
    · simp [insert, keys, same]
    · simp only [insert, if_neg same, keys, List.map_cons, List.mem_cons, ih, Ne.symm same, false_or]
      exact apply_ite (k :: ·) _ _ _

theorem get?_of_not_mem {entries : Entries α} {key : Text} (fresh : key ∉ entries.keys) : entries.get? key = none := by
  induction entries with
  | nil => rfl
  | cons entry rest ih =>
    simp only [keys, List.map_cons, List.mem_cons, not_or] at fresh
    rw [get?, if_neg (Ne.symm fresh.1), ih fresh.2]

theorem insert_insert (entries : Entries α) (key : Text) (value other : α) :
    (entries.insert key value).insert key other = entries.insert key other := by
  induction entries with
  | nil => simp [insert]
  | cons entry rest ih =>
    obtain ⟨k, v⟩ := entry
    by_cases same : k = key
    · simp [insert, same]
    · simp [insert, same, ih]

theorem mem_insert {entries : Entries α} {key : Text} {value : α} {m : Text × α}
    (member : m ∈ entries.insert key value) : m = (key, value) ∨ m ∈ entries := by
  induction entries with
  | nil => exact .inl (List.mem_singleton.mp member)
  | cons entry rest ih =>
    rw [insert] at member
    split at member
    · rcases List.mem_cons.mp member with new | old
      · exact .inl new
      · exact .inr (List.mem_cons_of_mem _ old)
    · rcases List.mem_cons.mp member with first | later
      · exact .inr (first ▸ List.mem_cons_self)
      · exact (ih later).imp_right (List.mem_cons_of_mem _)

theorem mem_insertAll {entries : Entries α} {pairs : List (Text × α)} {m : Text × α}
    (member : m ∈ entries.insertAll pairs) : m ∈ entries ∨ m ∈ pairs := by
  induction pairs generalizing entries with
  | nil => exact .inl member
  | cons pair rest ih =>
    rcases ih member with inserted | later
    · rcases mem_insert inserted with rfl | old
      · exact .inr List.mem_cons_self
      · exact .inl old
    · exact .inr (List.mem_cons_of_mem _ later)

theorem insert_mapValues (f : α → β) (entries : Entries α) (key : Text) (value : α) :
    (entries.mapValues f).insert key (f value) = (entries.insert key value).mapValues f := by
  induction entries with
  | nil => rfl
  | cons entry rest ih =>
    obtain ⟨k, v⟩ := entry
    by_cases same : k = key
    · simp [mapValues, insert, same]
    · simpa [mapValues, insert, same] using ih

theorem insertAll_mapValues (f : α → β) (entries pairs : Entries α) :
    (entries.mapValues f).insertAll (pairs.mapValues f) = (entries.insertAll pairs).mapValues f := by
  induction pairs generalizing entries with
  | nil => rfl
  | cons pair rest ih =>
    have later := ih (entries.insert pair.1 pair.2)
    rwa [← insert_mapValues] at later

theorem insertAll_append {entries pairs : Entries α} (nodup : (entries ++ pairs).keys.Nodup) :
    entries.insertAll pairs = entries ++ pairs := by
  induction pairs generalizing entries with
  | nil => simp [insertAll]
  | cons pair rest ih =>
    obtain ⟨k, v⟩ := pair
    have fresh : k ∉ entries.keys := by
      intro member
      simp only [keys, List.map_append, List.map_cons, List.nodup_append] at nodup
      exact nodup.2.2 k member k List.mem_cons_self rfl
    have shifted : entries ++ (k, v) :: rest = entries ++ [(k, v)] ++ rest := by simp
    rw [shifted] at nodup ⊢
    rw [← ih nodup, ← insert_of_not_mem fresh]
    rfl

theorem insertAll_nil {pairs : Entries α} (nodup : pairs.keys.Nodup) : insertAll [] pairs = pairs :=
  insertAll_append nodup

/-- The pairs in the order of their keys. -/
def sorted (entries : Entries α) : Entries α := entries.mergeSort fun a b => Text.le a.1 b.1

theorem sorted_perm (entries : Entries α) : entries.sorted.Perm entries := List.mergeSort_perm _ _

theorem mem_sorted {entries : Entries α} {entry : Text × α} : entry ∈ entries.sorted ↔ entry ∈ entries :=
  (sorted_perm entries).mem_iff

theorem keys_sorted_nodup {entries : Entries α} (nodup : entries.keys.Nodup) : entries.sorted.keys.Nodup :=
  ((sorted_perm entries).map Prod.fst).nodup_iff.mpr nodup

theorem get?_sorted {entries : Entries α} (nodup : entries.keys.Nodup) (key : Text) :
    entries.sorted.get? key = entries.get? key :=
  get?_of_perm (keys_sorted_nodup nodup) (sorted_perm entries) key

theorem sorted_pairwise (entries : Entries α) :
    entries.sorted.Pairwise fun a b => Text.le a.1 b.1 = true := by
  apply List.pairwise_mergeSort
  · intro a b c
    exact Text.le_trans a.1 b.1 c.1
  · intro a b
    exact Text.le_total a.1 b.1

theorem sorted_of_perm {members others : Entries α} (nodup : members.keys.Nodup)
    (perm : members.Perm others) : members.sorted = others.sorted := by
  refine List.Perm.eq_of_pairwise ?_ (sorted_pairwise members) (sorted_pairwise others)
    ((sorted_perm members).trans (perm.trans (sorted_perm others).symm))
  intro a b first second below above
  have inside : a ∈ members := mem_sorted.mp first
  have insideToo : b ∈ members := perm.mem_iff.mpr (mem_sorted.mp second)
  exact List.inj_on_of_nodup_map nodup inside insideToo (Text.le_antisymm a.1 b.1 below above)

theorem sorted_sorted {entries : Entries α} : entries.sorted.sorted = entries.sorted :=
  List.mergeSort_of_pairwise (sorted_pairwise entries)

theorem sorted_mapValues (f : α → β) (entries : Entries α) :
    (entries.mapValues f).sorted = entries.sorted.mapValues f := by
  symm
  apply List.map_mergeSort
  intro a _ b _
  rfl

end Entries

theorem Dict.ext {α : Type} {d e : Dict α} (same : d.entries = e.entries) : d = e := by
  obtain ⟨entries, nodup⟩ := d
  subst same
  rfl

/-- A map with its pairs in the order of their keys. -/
def Dict.sorted {α : Type} (d : Dict α) : Dict α := ⟨d.entries.sorted, Entries.keys_sorted_nodup d.nodup⟩

theorem Dict.get?_sorted {α : Type} (d : Dict α) (key : Text) : d.sorted.get? key = d.get? key :=
  Entries.get?_sorted d.nodup key

theorem Dict.ofList_entries {α : Type} (d : Dict α) : Dict.ofList d.entries = d := by
  obtain ⟨entries, nodup⟩ := d
  simp only [ofList, Entries.insertAll_nil nodup]

/-! ## Values -/

namespace Value

/-- A property holds of every value if it holds of a list whenever it holds of its items, and of an object
    whenever it holds of its members. -/
@[elab_as_elim]
theorem induct {P : Value → Prop} (null : P .null) (bool : ∀ b, P (.bool b)) (int : ∀ n, P (.int n))
    (float : ∀ x, P (.float x)) (text : ∀ t, P (.text t)) (list : ∀ items, (∀ v ∈ items, P v) → P (.list items))
    (object : ∀ members, (∀ m ∈ members, P m.2) → P (.object members)) (v : Value) : P v :=
  @Value.rec P (fun items => ∀ v ∈ items, P v) (fun members => ∀ m ∈ members, P m.2) (fun m => P m.2)
    null bool int float text list object
    (fun _ h => absurd h List.not_mem_nil)
    (fun _ _ first rest w h => (List.mem_cons.mp h).elim (fun same => same ▸ first) (rest w))
    (fun _ h => absurd h List.not_mem_nil)
    (fun _ _ first rest n h => (List.mem_cons.mp h).elim (fun same => same ▸ first) (rest n))
    (fun _ _ h => h) v

mutual

/-- No object has a key twice, and all floating-point numbers are numbers of the format. -/
def wellFormed : Value → Bool
  | .float x => decide x.Proper
  | .list items => wellFormedItems items
  | .object members => decide (Entries.keys members).Nodup && wellFormedMembers members
  | _ => true

/-- Every item is well formed. -/
def wellFormedItems : List Value → Bool
  | [] => true
  | v :: vs => v.wellFormed && wellFormedItems vs

/-- Every member is well formed. -/
def wellFormedMembers : List (Text × Value) → Bool
  | [] => true
  | (_, v) :: rest => v.wellFormed && wellFormedMembers rest

end

/-- A value that a data file can hold. -/
def WellFormed (v : Value) : Prop := v.wellFormed = true

instance (v : Value) : Decidable v.WellFormed := inferInstanceAs (Decidable (v.wellFormed = true))

theorem wellFormed_list {items : List Value} : (list items).WellFormed ↔ ∀ v ∈ items, v.WellFormed := by
  unfold WellFormed
  rw [wellFormed]
  induction items with
  | nil => simp [wellFormedItems]
  | cons v vs ih => simp [wellFormedItems, ih]

theorem wellFormed_object {members : List (Text × Value)} :
    (object members).WellFormed ↔ (Entries.keys members).Nodup ∧ ∀ m ∈ members, m.2.WellFormed := by
  have each : wellFormedMembers members = true ↔ ∀ m ∈ members, m.2.WellFormed := by
    induction members with
    | nil => simp [wellFormedMembers]
    | cons m rest ih => simp only [wellFormedMembers, Bool.and_eq_true, ih, List.forall_mem_cons, WellFormed]
  unfold WellFormed
  rw [wellFormed, Bool.and_eq_true, decide_eq_true_iff, each]
  rfl

theorem wellFormed_float {x : Binary64} : (float x).WellFormed ↔ x.Proper := by
  unfold WellFormed
  rw [wellFormed, decide_eq_true_iff]

mutual

/-- A value whose objects have their members in the order of their keys, at every depth. -/
def sorted : Value → Value
  | .list items => .list (sortedItems items)
  | .object members => .object (Entries.sorted (sortedMembers members))
  | v => v

/-- The items of a list, each in order. -/
def sortedItems : List Value → List Value
  | [] => []
  | v :: vs => v.sorted :: sortedItems vs

/-- The members of an object, each value in order. -/
def sortedMembers : List (Text × Value) → List (Text × Value)
  | [] => []
  | (k, v) :: rest => (k, v.sorted) :: sortedMembers rest

end

theorem sorted_list (items : List Value) : (list items).sorted = .list (items.map sorted) := by
  rw [sorted]
  congr 1
  induction items with
  | nil => rfl
  | cons v vs ih => rw [sortedItems, List.map_cons, ih]

theorem sorted_object (members : List (Text × Value)) :
    (object members).sorted = .object (Entries.mapValues sorted (Entries.sorted members)) := by
  have each : sortedMembers members = Entries.mapValues sorted members := by
    induction members with
    | nil => rfl
    | cons m rest ih =>
      rw [sortedMembers, ih]
      rfl
  rw [sorted, each, Entries.sorted_mapValues]

theorem WellFormed.sorted {v : Value} (wellFormed : v.WellFormed) : v.sorted.WellFormed := by
  induction v using induct with
  | null => exact wellFormed
  | bool b => exact wellFormed
  | int n => exact wellFormed
  | float x => exact wellFormed
  | text t => exact wellFormed
  | list items ih =>
    rw [sorted_list, wellFormed_list]
    intro w member
    obtain ⟨v, inside, rfl⟩ := List.mem_map.mp member
    exact ih v inside (wellFormed_list.mp wellFormed v inside)
  | object members ih =>
    obtain ⟨nodup, each⟩ := wellFormed_object.mp wellFormed
    rw [sorted_object, wellFormed_object, Entries.keys_mapValues]
    refine ⟨Entries.keys_sorted_nodup nodup, fun n member => ?_⟩
    obtain ⟨m, inside, rfl⟩ := List.mem_map.mp member
    exact ih m (Entries.mem_sorted.mp inside) (each m (Entries.mem_sorted.mp inside))

end Value

end Marginalia
