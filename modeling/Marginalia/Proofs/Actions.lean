import Marginalia.Command.Run

/-!
# Actions that succeed

A sequence of actions succeeds if each of them does, in the world that the ones before it have left. So what a run has
done can be read off its steps.
-/

namespace Marginalia.Command

/-- The action gives a result and leaves a world. -/
def Gives {α : Type} (x : Action α) (w : World) (a : α) (w' : World) : Prop := x.run.run w = (.ok a, w')

section

variable {α β : Type} {w w' : World}

theorem gives_of_ok {x : Action α} {a : α} (ends : (x.run.run w).1 = .ok a) : Gives x w a (x.run.run w).2 :=
  Prod.ext ends rfl

theorem gives_bind {x : Action α} {f : α → Action β} {b : β} :
    Gives (x >>= f) w b w' ↔ ∃ a v, Gives x w a v ∧ Gives (f a) v b w' := by
  have split : (x >>= f).run.run w = (ExceptT.bindCont f (x.run.run w).1).run (x.run.run w).2 := rfl
  unfold Gives
  rw [split]
  obtain ⟨result, v⟩ := x.run.run w
  cases result with
  | error fault =>
    refine iff_of_false (fun given => ?_) ?_
    · cases given
    · rintro ⟨a, v', given, -⟩
      cases given
  | ok a =>
    refine ⟨fun given => ⟨a, v, rfl, given⟩, ?_⟩
    rintro ⟨a', v', same, given⟩
    cases same
    exact given

theorem gives_pure {a b : α} : Gives (pure a) w b w' ↔ b = a ∧ w' = w := by
  constructor
  · intro given
    cases given
    exact ⟨rfl, rfl⟩
  · rintro ⟨rfl, rfl⟩
    rfl

theorem gives_lift {x : Except Fault α} {a : α} : Gives (liftM x) w a w' ↔ x = .ok a ∧ w' = w := by
  constructor
  · intro given
    cases given
    exact ⟨rfl, rfl⟩
  · rintro ⟨rfl, rfl⟩
    rfl

/-- Changing the world always succeeds. -/
theorem gives_modify {change : World → World} {u : Unit} : Gives (modify change) w u w' ↔ w' = change w := by
  constructor
  · intro given
    cases given
    rfl
  · rintro rfl
    rfl

theorem gives_printLine {t : Text} {u : Unit} :
    Gives (printLine t) w u w' ↔ w' = { w with output := w.output ++ t ++ ['\n'] } :=
  gives_modify

theorem gives_report {events : List Event} {u : Unit} :
    Gives (report events) w u w' ↔ w' = { w with events := w.events ++ events } :=
  gives_modify

theorem gives_currentTree {tree : FileTree} : Gives currentTree w tree w' ↔ tree = w.tree ∧ w' = w :=
  gives_pure

theorem gives_setTree {tree : FileTree} {u : Unit} : Gives (setTree tree) w u w' ↔ w' = { w with tree } :=
  gives_modify

end

end Marginalia.Command
