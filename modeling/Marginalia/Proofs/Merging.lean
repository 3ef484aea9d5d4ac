import Marginalia.Proofs.Fallible
import Marginalia.Proofs.Sorted
import Marginalia.Value.Merge

/-!
# Merged values

What is in a merged object is told path by path: a path of keys leads to what the update holds there, and to what the
base holds there where the update says nothing. A list under an additive key holds the items of both lists in order.
A second merge of the same update finds everything in its place; only a list under an additive key that was taken
over as it stood is put in order by it.
-/

namespace Marginalia

theorem Entries.mem_of_get? {α : Type} {entries : Entries α} {key : Text} {value : α}
    (found : entries.get? key = some value) : (key, value) ∈ entries := by
  induction entries with
  | nil => cases found
  | cons entry rest ih =>
    rw [get?] at found
    split at found
    · next same =>
      cases found
      rw [← same]
      exact List.mem_cons_self
    · exact List.mem_cons_of_mem _ (ih found)

namespace Value

/-- What a value holds at a path of keys. -/
def at? (v : Value) : List Text → Option Value
  | [] => some v
  | key :: path =>
    match v with
    | .object members => (Entries.get? members key).bind fun w => w.at? path
    | _ => none

/-! ## Lists under additive keys -/

/-- The value is a text. -/
def isText : Value → Bool
  | .text _ => true
  | _ => false

mutual

/-- In a value under a key, all lists under additive keys hold texts only. -/
def additiveTexts (key : Text) : Value → Bool
  | .list items => !additiveKeys.contains key || items.all isText
  | .object members => additiveTextsMembers members
  | _ => true

/-- In the members of an object, all lists under additive keys hold texts only. -/
def additiveTextsMembers : List (Text × Value) → Bool
  | [] => true
  | (key, v) :: rest => additiveTexts key v && additiveTextsMembers rest

end

theorem additiveTextsMembers_iff {members : Entries Value} :
    additiveTextsMembers members = true ↔ ∀ m ∈ members, additiveTexts m.1 m.2 = true := by
  induction members with
  | nil => simp [additiveTextsMembers]
  | cons m rest ih => simp [additiveTextsMembers, ih]

theorem exists_texts {items : List Value} (texts : items.all isText = true) :
    ∃ ts : List Text, items = ts.map .text := by
  induction items with
  | nil => exact ⟨[], rfl⟩
  | cons v items ih =>
    rw [List.all_cons, Bool.and_eq_true] at texts
    obtain ⟨ts, rfl⟩ := ih texts.2
    cases v with
    | text t => exact ⟨t :: ts, rfl⟩
    | _ => exact absurd texts.1 Bool.false_ne_true

theorem exists_texts_of_additive {key : Text} {items : List Value} (additive : key ∈ additiveKeys)
    (texts : additiveTexts key (.list items) = true) : ∃ ts : List Text, items = ts.map .text := by
  have listed : additiveKeys.contains key = true := List.contains_iff_mem.mpr additive
  rw [additiveTexts, listed, Bool.not_true, Bool.false_or] at texts
  exact exists_texts texts

/-- Equal texts are kept once. -/
theorem exists_distinct (ts : List Text) :
    ∃ us : List Text, distinct (ts.map .text) = us.map .text ∧ us.Nodup ∧ ∀ t, t ∈ us ↔ t ∈ ts := by
  -- the fold has seen some texts already
  have fold : ∀ seen : List Text, seen.Nodup → ∃ us : List Text,
      (ts.map text).foldl (fun seen v => if seen.any (same v) then seen else v :: seen) (seen.map .text) = us.map .text
        ∧ us.Nodup ∧ ∀ t, t ∈ us ↔ t ∈ seen ∨ t ∈ ts := by
    induction ts with
    | nil => exact fun seen nodup => ⟨seen, rfl, nodup, by simp⟩
    | cons t ts ih =>
      intro seen nodup
      have known : (seen.map text).any (same (.text t)) = decide (t ∈ seen) := by
        rw [List.any_map, Bool.eq_iff_iff, List.any_eq_true, decide_eq_true_iff]
        simp [same]
      rw [List.map_cons, List.foldl_cons, known]
      by_cases member : t ∈ seen
      · obtain ⟨us, result, usNodup, mem⟩ := ih seen nodup
        refine ⟨us, by simpa [member] using result, usNodup, fun u => ?_⟩
        rw [mem, List.mem_cons]
        grind
      · obtain ⟨us, result, usNodup, mem⟩ := ih (t :: seen) (List.nodup_cons.mpr ⟨member, nodup⟩)
        refine ⟨us, by simpa [member] using result, usNodup, fun u => ?_⟩
        rw [mem, List.mem_cons, List.mem_cons]
        grind
  obtain ⟨us, result, nodup, mem⟩ := fold [] List.nodup_nil
  refine ⟨us.reverse, ?_, List.nodup_reverse.mpr nodup, by simpa using mem⟩
  rw [List.map_reverse]
  exact congrArg List.reverse result

/-- Texts stand in strictly increasing order. -/
def Ascending (ts : List Text) : Prop := ts.Pairwise fun s t => Text.le s t = true ∧ s ≠ t

/-- The union of texts: each text of either list once, in increasing order. -/
theorem exists_union (a b : List Text) :
    ∃ ts : List Text, union (a.map .text) (b.map .text) = .ok (ts.map .text) ∧ Ascending ts
      ∧ ∀ t, t ∈ ts ↔ t ∈ a ∨ t ∈ b := by
  obtain ⟨us, items, nodup, mem⟩ := exists_distinct (a ++ b)
  have comparable : comparable (us.map .text) = true := by
    cases us with
    | nil => rfl
    | cons u us =>
      cases us with
      | nil => rfl
      | cons v us => simp [Value.comparable, le?]
  have sorted : (us.map text).mergeSort (fun x y => (le? x y).getD false) = (us.mergeSort Text.le).map text := by
    symm
    apply List.map_mergeSort
    intro s _ t _
    rfl
  refine ⟨us.mergeSort Text.le, ?_, ?_, fun t => ?_⟩
  · rw [union, ← List.map_append, items, comparable, sorted]
    simp [isPlain]
  · have below := List.pairwise_mergeSort Text.le_trans Text.le_total us
    exact below.and ((List.mergeSort_perm us Text.le).nodup_iff.mpr nodup)
  · rw [List.mem_mergeSort, mem, List.mem_append]

/-! ## One level -/

section Members

variable {base update merged : Entries Value} {key : Text} {v w : Value}

theorem mergeMembers_cons {rest : Entries Value} :
    mergeMembers base ((key, v) :: rest) = .ok merged
      ↔ ∃ w, mergeValue key (base.get? key) v = .ok w ∧ mergeMembers (base.insert key w) rest = .ok merged := by
  rw [mergeMembers]
  exact Fallible.bind_eq_ok

/-- What a key holds after a merge: each key of the update is merged once, with what the base holds. -/
theorem get?_of_mergeMembers (nodup : update.keys.Nodup) (given : mergeMembers base update = .ok merged) (key : Text) :
    (update.get? key = none → merged.get? key = base.get? key)
      ∧ ∀ v, update.get? key = some v → ∃ w, mergeValue key (base.get? key) v = .ok w ∧ merged.get? key = some w := by
  induction update generalizing base with
  | nil =>
    cases given
    exact ⟨fun _ => rfl, fun v found => by cases found⟩
  | cons m rest ih =>
    obtain ⟨k, x⟩ := m
    obtain ⟨fresh, restNodup⟩ := List.nodup_cons.mp nodup
    obtain ⟨w, first, later⟩ := mergeMembers_cons.mp given
    obtain ⟨untouched, touched⟩ := ih restNodup later
    rw [Entries.get?_insert] at untouched touched
    rw [Entries.get?]
    by_cases same : k = key
    · subst same
      have absent : Entries.get? rest k = none := Entries.get?_of_not_mem fresh
      rw [if_pos rfl] at untouched ⊢
      refine ⟨fun none => (by cases none), fun v found => ?_⟩
      cases found
      exact ⟨w, first, untouched absent⟩
    · rw [if_neg same] at untouched touched ⊢
      exact ⟨untouched, touched⟩

/-- The keys of the base in order, then the new ones. -/
theorem keys_of_mergeMembers (nodup : update.keys.Nodup) (given : mergeMembers base update = .ok merged) :
    merged.keys = base.keys ++ update.keys.filter (· ∉ base.keys) := by
  induction update generalizing base with
  | nil =>
    cases given
    exact (List.append_nil _).symm
  | cons m rest ih =>
    obtain ⟨k, x⟩ := m
    obtain ⟨fresh, restNodup⟩ := List.nodup_cons.mp nodup
    obtain ⟨w, -, later⟩ := mergeMembers_cons.mp given
    rw [ih restNodup later, Entries.keys_insert]
    have keys : Entries.keys ((k, x) :: rest) = k :: Entries.keys rest := rfl
    rw [keys]
    by_cases there : k ∈ base.keys
    · rw [if_pos there, List.filter_cons_of_neg (by simpa using there)]
    · rw [if_neg there, List.filter_cons_of_pos (by simpa using there), List.append_assoc, List.singleton_append]
      congr 2
      refine List.filter_congr fun other member => ?_
      have apart : other ≠ k := ne_of_mem_of_not_mem member fresh
      simp [apart]

theorem exists_mergeMembers (nodup : update.keys.Nodup)
    (each : ∀ m ∈ update, ∃ w, mergeValue m.1 (base.get? m.1) m.2 = .ok w) :
    ∃ merged, mergeMembers base update = .ok merged := by
  induction update generalizing base with
  | nil => exact ⟨base, rfl⟩
  | cons m rest ih =>
    obtain ⟨k, x⟩ := m
    obtain ⟨fresh, restNodup⟩ := List.nodup_cons.mp nodup
    rw [List.forall_mem_cons] at each
    obtain ⟨⟨w, first⟩, others⟩ := each
    obtain ⟨merged, later⟩ : ∃ merged, mergeMembers (base.insert k w) rest = .ok merged := by
      apply ih restNodup
      intro m member
      have apart : k ≠ m.1 := fun same => fresh (same ▸ Entries.mem_keys_of_mem member)
      rw [Entries.get?_insert, if_neg apart]
      exact others m member
    exact ⟨merged, mergeMembers_cons.mpr ⟨w, first, later⟩⟩

end Members

/-! ## One value -/

section One

variable {key : Text} {old : Option Value} {v w : Value}

theorem mergeValue_lists (additive : key ∈ additiveKeys) (a b : List Value) :
    mergeValue key (some (.list a)) (.list b) = (union a b).map .list := by
  rw [mergeValue, if_pos (List.contains_iff_mem.mpr additive)]

/-- What is no object takes the place of what was there, unless two lists are united. -/
theorem mergeValue_of_replaces (plain : ∀ members, v ≠ .object members)
    (single : ¬ (key ∈ additiveKeys ∧ ∃ a b, old = some (.list a) ∧ v = .list b)) : mergeValue key old v = .ok v := by
  cases v with
  | object members => exact absurd rfl (plain members)
  | list items =>
    by_cases listed : ∃ base, old = some (.list base)
    · obtain ⟨base, rfl⟩ := listed
      have replaced : ¬ additiveKeys.contains key = true := fun additive =>
        single ⟨List.contains_iff_mem.mp additive, base, items, rfl, rfl⟩
      rw [mergeValue, if_neg replaced]
    · rw [mergeValue]
      exact fun base same => listed ⟨base, same⟩
  | _ => rfl

theorem mergeValue_objects (base update : List (Text × Value)) :
    mergeValue key (some (.object base)) (.object update) = (mergeMembers base update).map .object := by
  rw [mergeValue]

theorem mergeValue_of_not_object (other : ∀ base, old ≠ some (.object base)) (update : List (Text × Value)) :
    mergeValue key old (.object update) = .ok (.object update) := by
  rw [mergeValue]
  exact other

theorem mergeValue_none (key : Text) (v : Value) : mergeValue key none v = .ok v := by
  cases v with
  | object members => exact mergeValue_of_not_object (fun base same => by cases same) members
  | _ => rfl

/-- An object is merged with an object, and takes the place of anything else. -/
theorem mergeValue_object {update : List (Text × Value)} (given : mergeValue key old (.object update) = .ok w) :
    (∃ base merged, old = some (.object base) ∧ mergeMembers base update = .ok merged ∧ w = .object merged)
      ∨ (∀ base, old ≠ some (.object base)) ∧ w = .object update := by
  by_cases both : ∃ base, old = some (.object base)
  · obtain ⟨base, rfl⟩ := both
    rw [mergeValue_objects] at given
    left
    cases merged : mergeMembers base update with
    | error fault =>
      rw [merged] at given
      cases given
    | ok members =>
      rw [merged] at given
      cases given
      exact ⟨base, members, rfl, merged, rfl⟩
  · have other : ∀ base, old ≠ some (.object base) := fun base same => both ⟨base, same⟩
    rw [mergeValue_of_not_object other] at given
    cases given
    exact .inr ⟨other, rfl⟩

/-- Values whose additive lists hold texts can be merged. -/
theorem exists_mergeValue (unique : v.WellFormed) (texts : additiveTexts key v = true)
    (oldTexts : ∀ o ∈ old, additiveTexts key o = true) : ∃ w, mergeValue key old v = .ok w := by
  induction v using induct generalizing key old with
  | object update ih =>
    by_cases both : ∃ base, old = some (.object base)
    · obtain ⟨base, rfl⟩ := both
      obtain ⟨nodup, each⟩ := wellFormed_object.mp unique
      have baseTexts := additiveTextsMembers_iff.mp (oldTexts _ rfl)
      obtain ⟨merged, given⟩ : ∃ merged, mergeMembers base update = .ok merged := by
        apply exists_mergeMembers nodup
        intro m member
        apply ih m member (each m member) (additiveTextsMembers_iff.mp texts m member)
        intro o found
        exact baseTexts (m.1, o) (Entries.mem_of_get? found)
      exact ⟨.object merged, by rw [mergeValue_objects, given]; rfl⟩
    · exact ⟨.object update, mergeValue_of_not_object (fun base same => both ⟨base, same⟩) update⟩
  | list items _ =>
    by_cases both : key ∈ additiveKeys ∧ ∃ base, old = some (.list base)
    · obtain ⟨additive, base, rfl⟩ := both
      obtain ⟨ts, rfl⟩ := exists_texts_of_additive additive texts
      obtain ⟨us, rfl⟩ := exists_texts_of_additive additive (oldTexts _ rfl)
      obtain ⟨both, united, -⟩ := exists_union us ts
      exact ⟨_, by rw [mergeValue_lists additive, united]; rfl⟩
    · refine ⟨_, mergeValue_of_replaces (fun _ same => by cases same) ?_⟩
      rintro ⟨additive, a, b, same, -⟩
      exact both ⟨additive, a, same⟩
  | null | bool | int | float | text => exact ⟨_, rfl⟩

end One

/-! ## Paths -/

section Paths

variable {base update merged : List (Text × Value)}

theorem at?_object_cons (members : List (Text × Value)) (key : Text) (path : List Text) :
    (object members).at? (key :: path) = (Entries.get? members key).bind fun w => w.at? path := rfl

theorem at?_object_singleton (members : List (Text × Value)) (key : Text) :
    (object members).at? [key] = Entries.get? members key := by
  rw [at?_object_cons]
  cases Entries.get? members key <;> rfl

/-- Only an object holds something at a path with keys. -/
theorem eq_object_of_at? {v w : Value} {path : List Text} (nonempty : path ≠ []) (found : v.at? path = some w) :
    ∃ members, v = .object members := by
  cases path with
  | nil => exact absurd rfl nonempty
  | cons key path =>
    cases v with
    | object members => exact ⟨members, rfl⟩
    | _ => cases found

/-- Where no object is on the way, nothing is at the end of it. -/
theorem bind_at?_of_not_object {old : Option Value} (other : ∀ below, old ≠ some (.object below)) {path : List Text}
    (nonempty : path ≠ []) : (old.bind fun w => w.at? path) = none := by
  rw [Option.bind_eq_none_iff]
  intro x there
  rw [Option.eq_none_iff_forall_ne_some]
  intro w found
  obtain ⟨below, rfl⟩ := eq_object_of_at? nonempty found
  exact other below there

/-- A key under which the update holds an object leads to two objects that are merged, or to the object of the
    update. -/
theorem get?_of_object (unique : (object update).WellFormed) (given : mergeMembers base update = .ok merged)
    {key : Text} {inner : List (Text × Value)} (found : Entries.get? update key = some (.object inner)) :
    (∃ below result, Entries.get? base key = some (.object below) ∧ mergeMembers below inner = .ok result
        ∧ Entries.get? merged key = some (.object result))
      ∨ (∀ below, Entries.get? base key ≠ some (.object below)) ∧ Entries.get? merged key = some (.object inner) := by
  obtain ⟨w, one, there⟩ := (get?_of_mergeMembers (wellFormed_object.mp unique).1 given key).2 _ found
  rcases mergeValue_object one with ⟨below, result, before, both, rfl⟩ | ⟨other, rfl⟩
  · exact .inl ⟨below, result, before, both, there⟩
  · exact .inr ⟨other, there⟩

theorem wellFormed_of_get? (unique : (object update).WellFormed) {key : Text} {v : Value}
    (found : Entries.get? update key = some v) : v.WellFormed :=
  (wellFormed_object.mp unique).2 (key, v) (Entries.mem_of_get? found)

theorem WellFormed.of_at? {v w : Value} (unique : v.WellFormed) {path : List Text} (found : v.at? path = some w) :
    w.WellFormed := by
  induction path generalizing v with
  | nil =>
    cases found
    exact unique
  | cons key path ih =>
    obtain ⟨members, rfl⟩ := eq_object_of_at? (List.cons_ne_nil key path) found
    rw [at?_object_cons, Option.bind_eq_some_iff] at found
    obtain ⟨x, member, deeper⟩ := found
    exact ih (wellFormed_of_get? unique member) deeper

theorem additiveTexts_of_at? {members : List (Text × Value)} (texts : additiveTextsMembers members = true)
    {front : List Text} {key : Text} {v : Value} (found : (object members).at? (front ++ [key]) = some v) :
    additiveTexts key v = true := by
  induction front generalizing members with
  | nil =>
    rw [List.nil_append, at?_object_singleton] at found
    exact additiveTextsMembers_iff.mp texts (key, v) (Entries.mem_of_get? found)
  | cons k front ih =>
    rw [List.cons_append, at?_object_cons, Option.bind_eq_some_iff] at found
    obtain ⟨x, member, deeper⟩ := found
    obtain ⟨inner, rfl⟩ := eq_object_of_at? (by simp) deeper
    have below := additiveTextsMembers_iff.mp texts (k, .object inner) (Entries.mem_of_get? member)
    exact ih below deeper

/-- What an update holds at a path is merged with what the base holds there. -/
theorem exists_at?_mergeValue (unique : (object update).WellFormed) (given : mergeMembers base update = .ok merged)
    {front : List Text} {key : Text} {v : Value} (found : (object update).at? (front ++ [key]) = some v) :
    ∃ w, mergeValue key ((object base).at? (front ++ [key])) v = .ok w
      ∧ (object merged).at? (front ++ [key]) = some w := by
  induction front generalizing base update merged with
  | nil =>
    rw [List.nil_append, at?_object_singleton] at found ⊢
    rw [at?_object_singleton]
    exact (get?_of_mergeMembers (wellFormed_object.mp unique).1 given key).2 v found
  | cons k front ih =>
    rw [List.cons_append, at?_object_cons, Option.bind_eq_some_iff] at found
    obtain ⟨x, member, deeper⟩ := found
    obtain ⟨inner, rfl⟩ := eq_object_of_at? (by simp) deeper
    rw [List.cons_append, at?_object_cons, at?_object_cons]
    rcases get?_of_object unique given member with ⟨below, result, before, both, after⟩ | ⟨other, after⟩
    · rw [before, after]
      exact ih (wellFormed_of_get? unique member) both deeper
    · rw [bind_at?_of_not_object other (by simp), after]
      exact ⟨v, mergeValue_none key v, deeper⟩

/-- Where an update holds nothing, and objects on the way, everything stays as it is in the base. -/
theorem at?_of_none (unique : (object update).WellFormed) (given : mergeMembers base update = .ok merged)
    {path : List Text} (absent : (object update).at? path = none)
    (objects : ∀ front v, front <+: path → front ≠ path → (object update).at? front = some v →
      ∃ members, v = .object members) :
    (object merged).at? path = (object base).at? path := by
  induction path generalizing base update merged with
  | nil => cases absent
  | cons k path ih =>
    rw [at?_object_cons] at absent
    rw [at?_object_cons, at?_object_cons]
    cases found : Entries.get? update k with
    | none => rw [(get?_of_mergeMembers (wellFormed_object.mp unique).1 given k).1 found]
    | some x =>
      rw [found, Option.bind_some] at absent
      have more : path ≠ [] := by
        rintro rfl
        cases absent
      obtain ⟨inner, rfl⟩ := objects [k] x (by simp) (by simpa using more.symm)
        (by rw [at?_object_singleton, found])
      rcases get?_of_object unique given found with ⟨below, result, before, both, after⟩ | ⟨other, after⟩
      · rw [before, after]
        refine ih (wellFormed_of_get? unique found) both absent fun front v start proper held => ?_
        refine objects (k :: front) v (List.prefix_cons_inj k |>.mpr start) (by simpa using proper) ?_
        rw [at?_object_cons, found]
        exact held
      · rw [after, Option.bind_some, absent]
        symm
        exact bind_at?_of_not_object other more

end Paths

/-! ## The same update again -/

mutual

/-- Two values under a key that differ in nothing but the order and the repetition of items in lists under additive
    keys. -/
inductive Regrouped : Text → Value → Value → Prop where
  | same (key : Text) (v : Value) : Regrouped key v v
  | items {key : Text} {a b : List Value} (additive : key ∈ additiveKeys) (items : ∀ v, v ∈ a ↔ v ∈ b) :
    Regrouped key (.list a) (.list b)
  | members {key : Text} {a b : List (Text × Value)} (each : RegroupedMembers a b) :
    Regrouped key (.object a) (.object b)

/-- Two objects with the same keys in the same order whose values differ in nothing else. -/
inductive RegroupedMembers : List (Text × Value) → List (Text × Value) → Prop where
  | nil : RegroupedMembers [] []
  | cons {key : Text} {v w : Value} {rest others : List (Text × Value)} (first : Regrouped key v w)
    (later : RegroupedMembers rest others) : RegroupedMembers ((key, v) :: rest) ((key, w) :: others)

end

theorem RegroupedMembers.of_get? {a b : Entries Value} (nodup : a.keys.Nodup) (keys : b.keys = a.keys)
    (each : ∀ key v w, a.get? key = some v → b.get? key = some w → Regrouped key v w) : RegroupedMembers a b := by
  induction a generalizing b with
  | nil =>
    rw [List.map_eq_nil_iff.mp keys]
    exact .nil
  | cons m rest ih =>
    obtain ⟨k, v⟩ := m
    obtain ⟨fresh, restNodup⟩ := List.nodup_cons.mp nodup
    cases b with
    | nil => cases keys
    | cons n others =>
      obtain ⟨l, w⟩ := n
      obtain ⟨rfl, restKeys⟩ := List.cons.inj keys
      refine .cons (each l v w (if_pos rfl) (if_pos rfl)) (ih restNodup restKeys ?_)
      intro key x y found foundToo
      have apart : l ≠ key := by
        rintro rfl
        exact fresh (Entries.mem_keys_of_mem (Entries.mem_of_get? found))
      exact each key x y (by rw [Entries.get?, if_neg apart, found]) (by rw [Entries.get?, if_neg apart, foundToo])

section Again

variable {key : Text} {old : Option Value} {v w : Value} {base update merged : Entries Value}

theorem nodup_of_mergeMembers (baseNodup : base.keys.Nodup) (nodup : update.keys.Nodup)
    (given : mergeMembers base update = .ok merged) : merged.keys.Nodup := by
  rw [keys_of_mergeMembers nodup given]
  refine List.nodup_append.mpr ⟨baseNodup, nodup.filter _, ?_⟩
  rintro k inBase _ new rfl
  have absent := (List.mem_filter.mp new).2
  exact absurd inBase (by simpa using absent)

/-- If every key of the update is there and its value is settled, so is the object. -/
theorem exists_mergeMembers_again (mergedNodup : merged.keys.Nodup) (nodup : update.keys.Nodup)
    (each : ∀ m ∈ update, ∃ x again, merged.get? m.1 = some x ∧ mergeValue m.1 (some x) m.2 = .ok again
      ∧ Regrouped m.1 x again) :
    ∃ again, mergeMembers merged update = .ok again ∧ RegroupedMembers merged again := by
  obtain ⟨result, given⟩ : ∃ result, mergeMembers merged update = .ok result := by
    apply exists_mergeMembers nodup
    intro m member
    obtain ⟨x, again, there, one, -⟩ := each m member
    exact ⟨again, there ▸ one⟩
  have keys : result.keys = merged.keys := by
    have nothingNew : update.keys.filter (· ∉ merged.keys) = [] := by
      rw [List.filter_eq_nil_iff]
      intro k member
      obtain ⟨m, inside, rfl⟩ := List.mem_map.mp member
      obtain ⟨x, again, there, -⟩ := each m inside
      simpa using Entries.mem_keys_of_mem (Entries.mem_of_get? there)
    rw [keys_of_mergeMembers nodup given, nothingNew, List.append_nil]
  refine ⟨result, given, .of_get? mergedNodup keys ?_⟩
  intro key x y before after
  obtain ⟨untouched, touched⟩ := get?_of_mergeMembers nodup given key
  cases found : update.get? key with
  | none =>
    rw [untouched found, before] at after
    cases after
    exact .same key x
  | some v =>
    obtain ⟨w, one, there⟩ := touched v found
    obtain ⟨x', again, before', one', regrouped⟩ := each (key, v) (Entries.mem_of_get? found)
    cases before.symm.trans before'
    rw [before, one'] at one
    cases one
    cases after.symm.trans there
    exact regrouped

/-- A list that is merged a second time holds the same items. -/
theorem exists_mergeValue_list_again {items : List Value} (texts : additiveTexts key (.list items) = true)
    (oldTexts : ∀ o ∈ old, additiveTexts key o = true) (given : mergeValue key old (.list items) = .ok w) :
    ∃ again, mergeValue key (some w) (.list items) = .ok again ∧ Regrouped key w again := by
  have plain : ∀ members, Value.list items ≠ .object members := fun members same => by cases same
  by_cases additive : key ∈ additiveKeys
  · obtain ⟨ts, rfl⟩ := exists_texts_of_additive additive texts
    obtain ⟨us, rfl, inside⟩ : ∃ us : List Text, w = .list (us.map .text) ∧ ∀ t ∈ ts, t ∈ us := by
      by_cases listed : ∃ base, old = some (.list base)
      · obtain ⟨base, rfl⟩ := listed
        obtain ⟨bs, rfl⟩ := exists_texts_of_additive additive (oldTexts _ rfl)
        obtain ⟨us, united, -, mem⟩ := exists_union bs ts
        rw [mergeValue_lists additive, united] at given
        cases given
        exact ⟨us, rfl, fun t member => (mem t).mpr (.inr member)⟩
      · have single : ¬ (key ∈ additiveKeys ∧ ∃ a b, old = some (.list a) ∧ Value.list (ts.map .text) = .list b) := by
          rintro ⟨-, a, b, same, -⟩
          exact listed ⟨a, same⟩
        have replaced := mergeValue_of_replaces plain single
        cases replaced.symm.trans given
        exact ⟨ts, rfl, fun _ => id⟩
    obtain ⟨vs, united, -, mem⟩ := exists_union us ts
    refine ⟨.list (vs.map .text), by rw [mergeValue_lists additive, united]; rfl, .items additive fun v => ?_⟩
    have same : ∀ t, t ∈ us ↔ t ∈ vs := fun t => ⟨fun member => (mem t).mpr (.inl member), fun member =>
      ((mem t).mp member).elim id (inside t)⟩
    simp only [List.mem_map, same]
  · have replaced : ∀ old, mergeValue key old (.list items) = .ok (.list items) := fun old =>
      mergeValue_of_replaces plain fun both => additive both.1
    cases (replaced old).symm.trans given
    exact ⟨.list items, replaced _, .same _ _⟩

/-- A value that is merged a second time stays as it is, lists under additive keys apart. -/
theorem exists_mergeValue_again (unique : v.WellFormed) (texts : additiveTexts key v = true)
    (oldUnique : ∀ o ∈ old, o.WellFormed) (oldTexts : ∀ o ∈ old, additiveTexts key o = true)
    (given : mergeValue key old v = .ok w) :
    ∃ again, mergeValue key (some w) v = .ok again ∧ Regrouped key w again := by
  induction v using induct generalizing key old w with
  | object update ih =>
    obtain ⟨nodup, each⟩ := wellFormed_object.mp unique
    have updateTexts := additiveTextsMembers_iff.mp texts
    -- the second merge works on the merged object, or on the update itself if that was taken over
    obtain ⟨merged, rfl, mergedNodup, settled⟩ : ∃ merged : Entries Value, w = .object merged ∧ merged.keys.Nodup
        ∧ ∀ m ∈ update, ∃ x again, merged.get? m.1 = some x ∧ mergeValue m.1 (some x) m.2 = .ok again
          ∧ Regrouped m.1 x again := by
      rcases mergeValue_object given with ⟨base, merged, rfl, both, rfl⟩ | ⟨-, rfl⟩
      · have baseUnique := wellFormed_object.mp (oldUnique _ rfl)
        have baseTexts := additiveTextsMembers_iff.mp (oldTexts _ rfl)
        refine ⟨merged, rfl, nodup_of_mergeMembers baseUnique.1 nodup both, fun m member => ?_⟩
        have found := (Entries.get?_eq_some_iff nodup).mpr member
        obtain ⟨x, one, there⟩ := (get?_of_mergeMembers nodup both m.1).2 m.2 found
        obtain ⟨again, second, regrouped⟩ := ih m member (each m member) (updateTexts m member)
          (fun o before => baseUnique.2 (m.1, o) (Entries.mem_of_get? before))
          (fun o before => baseTexts (m.1, o) (Entries.mem_of_get? before)) one
        exact ⟨x, again, there, second, regrouped⟩
      · refine ⟨update, rfl, nodup, fun m member => ?_⟩
        obtain ⟨again, second, regrouped⟩ := ih m member (each m member) (updateTexts m member)
          (fun o none => by cases none) (fun o none => by cases none) (mergeValue_none m.1 m.2)
        exact ⟨m.2, again, (Entries.get?_eq_some_iff nodup).mpr member, second, regrouped⟩
    obtain ⟨again, second, regrouped⟩ := exists_mergeMembers_again mergedNodup nodup settled
    exact ⟨.object again, by rw [mergeValue_objects, second]; rfl, .members regrouped⟩
  | list items _ => exact exists_mergeValue_list_again texts oldTexts given
  | null | bool | int | float | text =>
    cases given
    exact ⟨_, rfl, .same _ _⟩

end Again

/-! ## Merging -/

section Whole

variable {base update merged : List (Text × Value)}

/-- Objects whose additive lists hold texts can be merged. -/
theorem exists_merge (updateUnique : (object update).WellFormed) (texts : additiveTextsMembers base = true)
    (updateTexts : additiveTextsMembers update = true) : ∃ merged, mergeMembers base update = .ok merged := by
  have baseTexts : ∀ o ∈ some (object base), additiveTexts [] o = true := by
    rintro _ ⟨⟩
    exact texts
  obtain ⟨w, given⟩ := exists_mergeValue updateUnique updateTexts baseTexts
  rcases mergeValue_object given with ⟨_, merged, same, both, -⟩ | ⟨other, -⟩
  · cases same
    exact ⟨merged, both⟩
  · exact absurd rfl (other base)

theorem RegroupedMembers.refl (members : List (Text × Value)) : RegroupedMembers members members := by
  induction members with
  | nil => exact .nil
  | cons m rest ih => exact .cons (.same m.1 m.2) ih

theorem exists_merge_again (unique : (object base).WellFormed) (updateUnique : (object update).WellFormed)
    (texts : additiveTextsMembers base = true) (updateTexts : additiveTextsMembers update = true)
    (given : mergeMembers base update = .ok merged) :
    ∃ again, mergeMembers merged update = .ok again ∧ RegroupedMembers merged again := by
  have baseUnique : ∀ o ∈ some (object base), o.WellFormed := by
    rintro _ ⟨⟩
    exact unique
  have baseTexts : ∀ o ∈ some (object base), additiveTexts [] o = true := by
    rintro _ ⟨⟩
    exact texts
  have first : mergeValue [] (some (.object base)) (.object update) = .ok (.object merged) := by
    rw [mergeValue_objects, given]
    rfl
  obtain ⟨w, second, regrouped⟩ := exists_mergeValue_again updateUnique updateTexts baseUnique baseTexts first
  rcases mergeValue_object second with ⟨_, again, same, both, rfl⟩ | ⟨other, -⟩
  · cases same
    refine ⟨again, both, ?_⟩
    cases regrouped with
    | same => exact .refl merged
    | members each => exact each
  · exact absurd rfl (other merged)

end Whole

/-- Merging follows paths. At a path where the update holds something that is no object, the result holds the same;
    only of two lists under an additive key it holds the items in strictly increasing order. At a path where the
    update holds nothing, and nothing but objects on the way, the result holds what the base holds. An object of the
    update is taken over where the base holds none. The keys of two objects that are merged are those of the base in
    order and then the new ones of the update in order. The same update again changes at most the order and the
    repetition of items in lists under additive keys. -/
theorem merge_paths {base update : List (Text × Value)} (unique : (object base).WellFormed)
    (updateUnique : (object update).WellFormed) (texts : additiveTextsMembers base = true)
    (updateTexts : additiveTextsMembers update = true) :
    ∃ merged, merge (.object base) (.object update) = .ok (.object merged)
      ∧ (∀ front key v, (object update).at? (front ++ [key]) = some v → (∀ members, v ≠ .object members) →
        ¬ (key ∈ additiveKeys ∧ ∃ a b, (object base).at? (front ++ [key]) = some (.list a) ∧ v = .list b) →
        (object merged).at? (front ++ [key]) = some v)
      ∧ (∀ front key a b, key ∈ additiveKeys → (object base).at? (front ++ [key]) = some (.list a) →
        (object update).at? (front ++ [key]) = some (.list b) →
        ∃ ts : List Text, (object merged).at? (front ++ [key]) = some (.list (ts.map .text))
          ∧ ts.Pairwise (fun s t => Text.le s t = true ∧ s ≠ t) ∧ ∀ t, t ∈ ts ↔ .text t ∈ a ∨ .text t ∈ b)
      ∧ (∀ path, (object update).at? path = none →
        (∀ front v, front <+: path → front ≠ path → (object update).at? front = some v →
          ∃ members, v = .object members) →
        (object merged).at? path = (object base).at? path)
      ∧ (∀ path b, (object update).at? path = some (.object b) → (∀ a, (object base).at? path ≠ some (.object a)) →
        (object merged).at? path = some (.object b))
      ∧ (∀ path a b, (object base).at? path = some (.object a) → (object update).at? path = some (.object b) →
        ∃ m, (object merged).at? path = some (.object m)
          ∧ Entries.keys m = Entries.keys a ++ (Entries.keys b).filter (· ∉ Entries.keys a))
      ∧ ∃ again, merge (.object merged) (.object update) = .ok (.object again) ∧ RegroupedMembers merged again := by
  obtain ⟨nodup, -⟩ := wellFormed_object.mp updateUnique
  obtain ⟨merged, given⟩ := exists_merge updateUnique texts updateTexts
  refine ⟨merged, by rw [merge, given]; rfl, ?_, ?_, ?_, ?_, ?_, ?_⟩
  · intro front key v found plain single
    obtain ⟨w, one, there⟩ := exists_at?_mergeValue updateUnique given found
    rw [mergeValue_of_replaces plain single] at one
    cases one
    exact there
  · intro front key a b additive before found
    obtain ⟨as, rfl⟩ := exists_texts_of_additive additive (additiveTexts_of_at? texts before)
    obtain ⟨bs, rfl⟩ := exists_texts_of_additive additive (additiveTexts_of_at? updateTexts found)
    obtain ⟨ts, united, ascending, mem⟩ := exists_union as bs
    obtain ⟨w, one, there⟩ := exists_at?_mergeValue updateUnique given found
    rw [before, mergeValue_lists additive, united] at one
    cases one
    exact ⟨ts, there, ascending, by simpa using mem⟩
  · intro path absent objects
    exact at?_of_none updateUnique given absent objects
  · intro path b found other
    rcases List.eq_nil_or_concat' path with rfl | ⟨front, key, rfl⟩
    · exact absurd rfl (other base)
    · obtain ⟨w, one, there⟩ := exists_at?_mergeValue updateUnique given found
      rw [mergeValue_of_not_object other] at one
      cases one
      exact there
  · intro path a b before found
    have innerNodup := (wellFormed_object.mp (updateUnique.of_at? found)).1
    rcases List.eq_nil_or_concat' path with rfl | ⟨front, key, rfl⟩
    · cases before
      cases found
      exact ⟨merged, rfl, keys_of_mergeMembers nodup given⟩
    · obtain ⟨w, one, there⟩ := exists_at?_mergeValue updateUnique given found
      rw [before] at one
      rcases mergeValue_object one with ⟨a', m, same, both, rfl⟩ | ⟨other, -⟩
      · cases same
        exact ⟨m, there, keys_of_mergeMembers innerNodup both⟩
      · exact absurd rfl (other a)
  · obtain ⟨again, second, regrouped⟩ := exists_merge_again unique updateUnique texts updateTexts given
    exact ⟨again, by rw [merge, second]; rfl, regrouped⟩

/-- Settings with objects inside each other and two lists under an additive key. -/
def nestedBase : List (Text × Value) :=
  [("lint", .object [("summary_exempt_names", .list [.text "b", .text "a"]), ("tags", .list [.int 1])]),
   ("debug", .int 0), ("render", .object [("labels", .object [])])]

/-- An object in the place of a number, a number in the place of an object, and a list under an additive key where
    there was none. -/
def nestedUpdate : List (Text × Value) :=
  [("render", .int 1), ("debug", .object [("summary_exempt_names", .list [.text "z", .text "y", .text "z"])]),
   ("lint", .object [("new", .null), ("tags", .list []), ("summary_exempt_names", .list [.text "c", .text "b"])])]

theorem merge_paths_nested :
    ∃ merged, merge (.object nestedBase) (.object nestedUpdate) = .ok (.object merged)
      ∧ (object merged).at? ["render"] = some (.int 1)
      ∧ (object merged).at? ["debug", "summary_exempt_names"] = some (.list [.text "z", .text "y", .text "z"])
      ∧ (∃ ts : List Text, (object merged).at? ["lint", "summary_exempt_names"] = some (.list (ts.map .text))
        ∧ ts.Pairwise (fun s t => Text.le s t = true ∧ s ≠ t)
        ∧ ∀ t, t ∈ ts ↔ .text t ∈ [text "b", .text "a"] ∨ .text t ∈ [text "c", .text "b"])
      ∧ (object merged).at? ["lint", "other"] = none
      ∧ (∃ m, (object merged).at? ["lint"] = some (.object m)
        ∧ Entries.keys m = ["summary_exempt_names".toList, "tags".toList, "new".toList])
      ∧ ∃ again, merge (.object merged) (.object nestedUpdate) = .ok (.object again)
        ∧ RegroupedMembers merged again := by
  obtain ⟨merged, given, replaced, united, kept, -, keys, again⟩ :=
    @merge_paths nestedBase nestedUpdate (by decide) (by decide) (by decide) (by decide)
  refine ⟨merged, given, ?_, ?_, united ["lint".toList] _ _ _ (by decide) rfl rfl, ?_, ?_, again⟩
  · refine replaced [] _ _ rfl (fun _ same => by cases same) ?_
    rintro ⟨additive, -⟩
    exact absurd additive (by decide)
  · refine replaced ["debug".toList] _ _ rfl (fun _ same => by cases same) ?_
    rintro ⟨-, a, b, found, -⟩
    cases found
  · refine (kept _ rfl ?_).trans rfl
    rintro front v ⟨rest, whole⟩ proper held
    rcases front with _ | ⟨k, _ | ⟨l, front⟩⟩
    · exact ⟨_, (Option.some.inj held).symm⟩
    · obtain rfl := (List.cons.inj whole).1
      exact ⟨_, (Option.some.inj held).symm⟩
    · have short := congrArg List.length whole
      have long : front ++ rest = [] := List.length_eq_zero_iff.mp (by simpa using short)
      rw [(List.append_eq_nil_iff.mp long).2, List.append_nil] at whole
      exact absurd whole proper
  · obtain ⟨m, there, keys⟩ := keys ["lint".toList] _ _ rfl rfl
    exact ⟨m, there, keys.trans (by decide)⟩

end Value

end Marginalia
