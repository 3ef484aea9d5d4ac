import Marginalia.Fault
import Mathlib.Data.List.Forall2

/-!
# Operations that may fail

What a sequence of operations gives when all of them succeed.
-/

namespace Marginalia.Fallible

variable {ε α β : Type}

theorem bind_eq_ok {x : Except ε α} {f : α → Except ε β} {b : β} :
    (x >>= f) = .ok b ↔ ∃ a, x = .ok a ∧ f a = .ok b := by
  cases x with
  | error e => simp [bind, Except.bind]
  | ok a => simp [bind, Except.bind]

theorem ok_bind (a : α) (f : α → Except ε β) : (Except.ok a >>= f) = f a := rfl

@[simp] theorem throw_ne_ok {e : ε} {a : α} : (throw e : Except ε α) ≠ .ok a := nofun

theorem eq_ok_of_toOption {x : Except ε α} {a : α} (given : x.toOption = some a) : x = .ok a := by
  cases x with
  | error e => cases given
  | ok b => exact congrArg Except.ok (Option.some.inj given)

theorem mapM_cons (f : α → Except ε β) (x : α) (xs : List α) :
    (x :: xs).mapM f = f x >>= fun y => xs.mapM f >>= fun ys => .ok (y :: ys) := by
  rw [List.mapM_cons]
  rfl

/-- If every operation has a known result, so has the sequence. -/
theorem mapM_of_forall {f : α → Except ε β} {g : α → β} {xs : List α} (each : ∀ x ∈ xs, f x = .ok (g x)) :
    xs.mapM f = .ok (xs.map g) := by
  induction xs with
  | nil => rfl
  | cons x xs ih =>
    rw [List.forall_mem_cons] at each
    rw [mapM_cons, each.1, ih each.2]
    rfl

theorem mapM_map_of_forall {γ : Type} {f : β → Except ε γ} {g : α → β} {h : α → γ} {xs : List α}
    (each : ∀ x ∈ xs, f (g x) = .ok (h x)) : (xs.map g).mapM f = .ok (xs.map h) := by
  rw [List.mapM_map]
  exact mapM_of_forall each

theorem forall₂_of_mapM {f : α → Except ε β} {xs : List α} {ys : List β} (given : xs.mapM f = .ok ys) :
    List.Forall₂ (fun x y => f x = .ok y) xs ys := by
  induction xs generalizing ys with
  | nil =>
    cases given
    exact .nil
  | cons x xs ih =>
    rw [mapM_cons] at given
    obtain ⟨y, first, given⟩ := bind_eq_ok.mp given
    obtain ⟨rest, others, given⟩ := bind_eq_ok.mp given
    cases given
    exact .cons first (ih others)

theorem exists_mapM {f : α → Except ε β} {xs : List α} (each : ∀ x ∈ xs, ∃ y, f x = .ok y) :
    ∃ ys, xs.mapM f = .ok ys := by
  induction xs with
  | nil => exact ⟨[], rfl⟩
  | cons x xs ih =>
    rw [List.forall_mem_cons] at each
    obtain ⟨y, first⟩ := each.1
    obtain ⟨ys, others⟩ := ih each.2
    exact ⟨y :: ys, by rw [mapM_cons, first, others]; rfl⟩

/-! ## Operations that agree -/

/-- Two operations that fail with the same fault or succeed with related results. -/
def Agree (R : α → β → Prop) : Except ε α → Except ε β → Prop
  | .ok a, .ok b => R a b
  | .error e, .error f => e = f
  | _, _ => False

variable {γ δ : Type} {R : α → β → Prop} {S : γ → δ → Prop}

theorem Agree.bind {x : Except ε α} {y : Except ε β} {f : α → Except ε γ} {g : β → Except ε δ} (agree : Agree R x y)
    (next : ∀ a b, R a b → Agree S (f a) (g b)) : Agree S (x >>= f) (y >>= g) := by
  cases x with
  | error e =>
    cases y with
    | error e' => exact agree
    | ok b => exact agree.elim
  | ok a =>
    cases y with
    | error e' => exact agree.elim
    | ok b => exact next a b agree

theorem Agree.ok {x : Except ε α} {y : Except ε β} (agree : Agree R x y) {a : α} (given : x = .ok a) :
    ∃ b, y = .ok b ∧ R a b := by
  subst given
  cases y with
  | error e => exact agree.elim
  | ok b => exact ⟨b, rfl, agree⟩

theorem agree_refl {R : α → α → Prop} (refl : ∀ a, R a a) (x : Except ε α) : Agree R x x := by
  cases x with
  | error e => rfl
  | ok a => exact refl a

theorem eq_of_agree {x y : Except ε α} (agree : Agree Eq x y) : x = y := by
  cases x with
  | error e =>
    cases y with
    | error e' => exact congrArg Except.error agree
    | ok b => exact agree.elim
  | ok a =>
    cases y with
    | error e' => exact agree.elim
    | ok b => exact congrArg Except.ok agree

end Marginalia.Fallible
