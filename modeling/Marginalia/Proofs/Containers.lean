import Marginalia.Markup.Containers
import Mathlib.Data.List.Destutter

/-!
# Containers one after another

Elements are opened and closed in any order, and elements are closed that are not open. What is open after an operation
depends on that operation alone: the element that it opens, or none. So an operation writes the end tag of what the one
before it has opened and its own start tag, unless it is the same operation again, and all that is written are pairs of
tags.
-/

namespace Marginalia.Markup

/-- What can be done with containers. -/
inductive Operation where
  | opening (tag : Text)
  | closing (tag : Text)
  | closingAll
  deriving DecidableEq

/-- The element that an operation opens. -/
def Operation.opens : Operation → Containers
  | .opening tag => [tag]
  | _ => []

/-- An element without content. -/
def pair (tag : Text) : Text := startTag tag ++ endTag tag

namespace Containers

/-- What an operation puts out, and what is open after it. -/
def perform (s : Containers) : Operation → Text × Containers
  | .opening tag => s.openTag tag
  | .closing tag => s.close tag
  | .closingAll => (s.closeAll, [])

/-- All that operations put out one after another, and what is open after them. -/
def performAll : Containers → List Operation → Text × Containers
  | s, [] => ([], s)
  | s, op :: ops =>
    let (out, s) := s.perform op
    let (more, s) := performAll s ops
    (out ++ more, s)

/-- The elements that are opened, in order. The same operation at once again opens none. -/
def openings (ops : List Operation) : List Text := (ops.destutter (· ≠ ·)).flatMap Operation.opens

/-- What is put out when some elements have been opened and these containers are open: at most one is, the last one,
    with its start tag; those before it are whole. -/
structure Paired (opened : List Text) (out : Text) (s : Containers) : Prop where
  single : s.length ≤ 1
  pairs : ∃ closed, opened = closed ++ s ∧ out = closed.flatMap pair ++ s.flatMap startTag

/-! ## One operation -/

theorem close_of_single {s : Containers} (single : s.length ≤ 1) (tag : Text) : s.close tag = (s.closeAll, []) := by
  cases s with
  | nil => rfl
  | cons current rest =>
    obtain rfl : rest = [] := by simpa using single
    by_cases same : current = tag
    · simp [close, closeAll, same]
    · simp [close, closeAll, same]

theorem length_opens (op : Operation) : op.opens.length ≤ 1 := by
  cases op <;> simp [Operation.opens]

/-- The same operation again changes nothing; another one closes what is open and opens its own element. -/
theorem perform_opens (last op : Operation) :
    perform last.opens op
      = if last = op then ([], op.opens) else (closeAll last.opens ++ op.opens.flatMap startTag, op.opens) := by
  cases op with
  | opening tag =>
    have innermost : last.opens.head? = some tag ↔ last = .opening tag := by
      cases last <;> simp [Operation.opens]
    by_cases same : last = .opening tag
    · simp [perform, openTag, same, Operation.opens]
    · rw [perform, openTag, if_neg (mt innermost.mp same), if_neg same]
      simp [Operation.opens]
  | closing tag =>
    rw [perform, close_of_single (length_opens last)]
    by_cases same : last = .closing tag
    · simp [same, Operation.opens, closeAll]
    · simp [same, Operation.opens]
  | closingAll =>
    by_cases same : last = .closingAll
    · simp [perform, same, Operation.opens, closeAll]
    · simp [perform, same, Operation.opens]

/-! ## All operations -/

theorem flatMap_pair_opens (op : Operation) :
    op.opens.flatMap pair = op.opens.flatMap startTag ++ op.opens.flatMap endTag := by
  cases op <;> simp [Operation.opens, pair]

/-- Operations after another one. They find its element open, and its start tag stands before all that they put out. -/
theorem paired_performAll_opens (last : Operation) (ops : List Operation) :
    Paired ((ops.destutter' (· ≠ ·) last).flatMap Operation.opens)
      (last.opens.flatMap startTag ++ (performAll last.opens ops).1) (performAll last.opens ops).2 := by
  -- an operation is all that the next one needs to know of what was done before
  induction ops generalizing last with
  | nil => exact ⟨length_opens last, [], by simp [performAll]⟩
  | cons op ops ih =>
    by_cases same : last = op
    · subst same
      rw [List.destutter'_cons_neg _ (by simp), performAll, perform_opens, if_pos rfl]
      exact ih last
    · rw [List.destutter'_cons_pos _ same, performAll, perform_opens, if_neg same]
      obtain ⟨single, closed, opened, out⟩ := ih op
      refine ⟨single, last.opens ++ closed, ?_, ?_⟩
      · rw [List.flatMap_cons, opened, List.append_assoc]
      · calc last.opens.flatMap startTag
              ++ (closeAll last.opens ++ op.opens.flatMap startTag ++ (performAll op.opens ops).1)
            = last.opens.flatMap pair ++ (op.opens.flatMap startTag ++ (performAll op.opens ops).1) := by
              simp [flatMap_pair_opens, closeAll]
          _ = (last.opens ++ closed).flatMap pair ++ (performAll op.opens ops).2.flatMap startTag := by
              rw [out, List.flatMap_append, List.append_assoc]

theorem paired_performAll (ops : List Operation) :
    Paired (openings ops) (performAll [] ops).1 (performAll [] ops).2 := by
  -- containers that are fresh are as good as closed
  have whole := paired_performAll_opens .closingAll ops
  have same : (ops.destutter' (· ≠ ·) .closingAll).flatMap Operation.opens = openings ops := by
    cases ops with
    | nil => rfl
    | cons op ops =>
      rw [openings, List.destutter_cons']
      by_cases same : .closingAll = op
      · rw [← same, List.destutter'_cons_neg _ (by simp)]
      · rw [List.destutter'_cons_pos _ same]
        rfl
  rw [same] at whole
  exact whole

theorem Paired.closeAll {opened : List Text} {out : Text} {s : Containers} (paired : Paired opened out s) :
    out ++ s.closeAll = opened.flatMap pair := by
  obtain ⟨single, closed, rfl, rfl⟩ := paired
  cases s with
  | nil => simp [Containers.closeAll]
  | cons current rest =>
    obtain rfl : rest = [] := by simpa using single
    simp [Containers.closeAll, pair]

/-- Whatever is opened and closed, and in whatever order: after each operation at most one element is open, the last one
    that was opened, and those before it have been closed, each before the next one was opened. With all closed in the
    end, the markup is one pair of tags for each element that was opened. Closing any element, open or not, closes what
    is open. -/
theorem performAll_pairs (ops : List Operation) :
    (∀ n, Paired (openings (ops.take n)) (performAll [] (ops.take n)).1 (performAll [] (ops.take n)).2)
    ∧ (performAll [] ops).1 ++ (performAll [] ops).2.closeAll = (openings ops).flatMap pair
    ∧ ∀ tag, (performAll [] ops).2.close tag = ((performAll [] ops).2.closeAll, []) := by
  have paired := paired_performAll ops
  refine ⟨fun n => paired_performAll (ops.take n), paired.closeAll, fun tag => ?_⟩
  exact close_of_single paired.single tag

/-- An element that is opened again at once, and one that the end of another closes. -/
example :
    let ops : List Operation := [.opening "ul", .opening "ul", .opening "pre", .closing "b", .opening "pre"]
    performAll [] ops = ("<ul></ul><pre></pre><pre>".toList, [("pre" : Text)])
    ∧ openings ops = (["ul", "pre", "pre"] : List Text) := by
  decide

end Containers

end Marginalia.Markup
