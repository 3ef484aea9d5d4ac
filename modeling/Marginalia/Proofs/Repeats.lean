import Marginalia.Cache.Slot
import Mathlib.Data.List.Induction

/-!
# What the slot answers

A request changes the slot, so what it is answered depends on all that was done with the slot before. The slot holds
the document of the last put as long as nothing but requests for its file has followed. A request for another file
empties it, and it stays empty until the next put.
-/

namespace Marginalia.Slot

/-- What can be done with the slot. -/
inductive Use where
  | put (name : Text) (d : Document)
  | get (key : Text)
  | clear

/-- A document is put in. -/
def Use.isPut : Use → Bool
  | .put .. => true
  | _ => false

/-- The slot after one use. -/
def use (s : Slot) : Use → Slot
  | .put name d => s.put name d
  | .get key => (s.get key).2
  | .clear => s.clear

/-- The slot after some uses of an empty one. -/
def after (uses : List Use) : Slot := uses.foldl use {}

theorem after_concat (uses : List Use) (u : Use) : after (uses ++ [u]) = (after uses).use u := by
  rw [after, List.foldl_append]
  rfl

/-- The last put was that of the document under the lower-case name, and nothing but requests for it has followed. -/
def Lasting (uses : List Use) (lower : Text) (d : Document) : Prop :=
  ∃ before name since, uses = before ++ .put name d :: since ∧ name.lower = lower
    ∧ ∀ u ∈ since, ∃ key, u = .get key ∧ key.lower = lower

/-! ## One use -/

theorem get_eq_some {s : Slot} {key : Text} {d : Document} :
    (s.get key).1 = some d ↔ s.held = some (key.lower, d) := by
  unfold get
  cases s.held with
  | none => simp
  | some kept =>
    obtain ⟨name, kept⟩ := kept
    by_cases same : name = key.lower
    · simp [same]
    · simp [same]

theorem held_get {s : Slot} {key lower : Text} {d : Document} :
    (s.get key).2.held = some (lower, d) ↔ key.lower = lower ∧ s.held = some (lower, d) := by
  unfold get
  cases there : s.held with
  | none => simp
  | some kept =>
    obtain ⟨name, kept⟩ := kept
    by_cases same : name = key.lower
    · subst same
      simp only [if_true, there, Option.some.injEq, Prod.mk.injEq]
      exact ⟨fun held => ⟨held.1, held⟩, fun held => held.2⟩
    · dsimp only
      rw [if_neg same]
      constructor
      · intro held
        cases held
      · rintro ⟨asked, held⟩
        cases held
        exact absurd asked.symm same

/-- What is held after a use was put in by it, or was held before and is what the use asks for. -/
theorem held_use {s : Slot} {u : Use} {lower : Text} {d : Document} :
    (s.use u).held = some (lower, d) ↔ (∃ name, u = .put name d ∧ name.lower = lower)
      ∨ (∃ key, u = .get key ∧ key.lower = lower) ∧ s.held = some (lower, d) := by
  cases u with
  | put name new => simp [use, put, and_comm]
  | get key => simp [use, held_get]
  | clear => simp [use, clear]

/-- The same of what the uses before say. -/
theorem lasting_concat {uses : List Use} {u : Use} {lower : Text} {d : Document} :
    Lasting (uses ++ [u]) lower d ↔ (∃ name, u = .put name d ∧ name.lower = lower)
      ∨ (∃ key, u = .get key ∧ key.lower = lower) ∧ Lasting uses lower d := by
  constructor
  · rintro ⟨before, name, since, same, named, asked⟩
    rcases List.eq_nil_or_concat since with rfl | ⟨since, last, rfl⟩
    · obtain ⟨-, last⟩ := List.append_inj' same rfl
      exact .inl ⟨name, List.singleton_inj.mp last, named⟩
    · have split : uses ++ [u] = (before ++ .put name d :: since) ++ [last] := by simpa using same
      obtain ⟨rfl, last⟩ := List.append_inj' split rfl
      obtain rfl := List.singleton_inj.mp last
      refine .inr ⟨asked u (by simp), before, name, since, rfl, named, ?_⟩
      intro earlier member
      exact asked earlier (by simp [member])
  · rintro (⟨name, rfl, named⟩ | ⟨asked, before, name, since, rfl, named, earlier⟩)
    · refine ⟨uses, name, [], rfl, named, ?_⟩
      intro u member
      cases member
    · refine ⟨before, name, since ++ [u], by simp, named, ?_⟩
      intro v member
      rcases List.mem_append.mp member with old | new
      · exact earlier v old
      · obtain rfl := List.mem_singleton.mp new
        exact asked

/-! ## All uses -/

theorem held_after {uses : List Use} {lower : Text} {d : Document} :
    (after uses).held = some (lower, d) ↔ Lasting uses lower d := by
  induction uses using List.reverseRecOn with
  | nil => simp [after, Lasting]
  | append_singleton uses u ih => rw [after_concat, held_use, lasting_concat, ih]

/-- The slot stays empty until something is put in. -/
theorem held_foldl_of_isPut {s : Slot} (empty : s.held = none) {more : List Use}
    (unfilled : ∀ u ∈ more, u.isPut = false) : (more.foldl use s).held = none := by
  induction more generalizing s with
  | nil => exact empty
  | cons u more ih =>
    rw [List.forall_mem_cons] at unfilled
    apply ih _ unfilled.2
    cases u with
    | put name d => cases unfilled.1
    | get key => simp [use, get, empty]
    | clear => rfl

theorem held_get_of_none {s : Slot} {key : Text} (miss : (s.get key).1 = none) : (s.get key).2.held = none := by
  unfold get at miss ⊢
  split
  · next name d there =>
    rw [there] at miss
    by_cases same : name = key.lower
    · simp [same] at miss
    · rw [if_neg same]
  · rfl

/-- A request is answered with a document if and only if that is the document of the last put, the put was for the same
    file without regard to case, and everything since was a request for that file. A request without an answer leaves
    all others without one until the next put. -/
theorem get_after (uses : List Use) (key : Text) :
    (∀ d, ((after uses).get key).1 = some d ↔ Lasting uses key.lower d)
    ∧ (((after uses).get key).1 = none → ∀ more : List Use, (∀ u ∈ more, u.isPut = false) → ∀ other,
      ((after (uses ++ .get key :: more)).get other).1 = none) := by
  refine ⟨fun d => get_eq_some.trans held_after, fun miss more unfilled other => ?_⟩
  have whole : after (uses ++ .get key :: more) = more.foldl use ((after uses).get key).2 := by
    rw [after, List.foldl_append]
    rfl
  have empty := held_foldl_of_isPut (held_get_of_none miss) unfilled
  rw [whole, Option.eq_none_iff_forall_ne_some]
  intro d found
  rw [get_eq_some, empty] at found
  cases found

/-- Two requests with other capitals are answered. A request for another file is not, and neither is the next one for
    the file that was put in. -/
theorem get_after_interrupted :
    let d : Document := { filename := "A.php" }
    ((after [.put "A.php" d, .get "a.PHP"]).get "a.php").1 = some d
    ∧ ((after [.put "A.php" d, .get "a.PHP"]).get "b.php").1 = none
    ∧ ((after ([.put "A.php" d, .get "a.PHP"] ++ .get "b.php" :: [.get "b.php", .clear])).get "A.php").1 = none := by
  intro d
  obtain ⟨answered, -⟩ := get_after [.put "A.php" d, .get "a.PHP"] "a.php"
  obtain ⟨-, emptied⟩ := get_after [.put "A.php" d, .get "a.PHP"] "b.php"
  have lower : Text.lower "A.php" = Text.lower "a.php" ∧ Text.lower "a.PHP" = Text.lower "a.php" := by decide +kernel
  have miss : ((after [.put "A.php" d, .get "a.PHP"]).get "b.php").1 = none := by decide +kernel
  refine ⟨(answered d).mpr ⟨[], "A.php", [.get "a.PHP"], rfl, lower.1, ?_⟩, miss, emptied miss _ ?_ _⟩
  · intro u member
    exact ⟨"a.PHP", List.mem_singleton.mp member, lower.2⟩
  · simp [Use.isPut]

end Marginalia.Slot
