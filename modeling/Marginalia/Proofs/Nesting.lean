import Marginalia.Markup.Table
import Marginalia.Proofs.Attributes

/-!
# Nested markup

The tags of a text open and close elements. Markup is well nested if each end tag closes the innermost element that is
open and nothing stays open in the end. Whole elements leave whatever is open around them as it is.
-/

namespace Marginalia.Markup

/-- The name of a start tag: its first word. -/
def tagName (inside : Text) : Text := inside.takeWhile (!isBlank ·)

/-- What is open after a tag, innermost first. An end tag must belong to the innermost element. -/
def enter (opened : Containers) : (tag : Text) → Option Containers
  | '/' :: name =>
    match opened with
    | current :: outer => if current = name then some outer else none
    | [] => none
  | inside => some (tagName inside :: opened)

/-- Every end tag closes the innermost open element, and all elements are closed in the end. -/
def WellNested (t : Text) : Prop := (tagsFrom none t).foldlM enter [] = some []

instance (t : Text) : Decidable (WellNested t) := inferInstanceAs (Decidable (_ = _))

/-- Tags that leave what is open as it is. -/
def Closed (tags : List Text) : Prop := ∀ opened, tags.foldlM enter opened = some opened

theorem closed_nil : Closed [] := fun _ => rfl

theorem Closed.append {tags more : List Text} (first : Closed tags) (second : Closed more) : Closed (tags ++ more) := by
  intro opened
  rw [List.foldlM_append, first opened]
  exact second opened

theorem closed_flatMap {α : Type} {f : α → List Text} {xs : List α} (each : ∀ x ∈ xs, Closed (f x)) :
    Closed (xs.flatMap f) := by
  induction xs with
  | nil => exact closed_nil
  | cons x xs ih =>
    rw [List.forall_mem_cons] at each
    rw [List.flatMap_cons]
    exact each.1.append (ih each.2)

/-- A start tag can have the name alone as its inside. -/
def IsName (name : Text) : Prop := name.head? ≠ some '/' ∧ tagName name = name

instance (name : Text) : Decidable (IsName name) := inferInstanceAs (Decidable (_ ∧ _))

theorem enter_name {name : Text} (isName : IsName name) (opened : Containers) :
    enter opened name = some (name :: opened) := by
  unfold enter
  split
  · exact absurd rfl isName.1
  · rw [isName.2]

/-- An element around whole elements is a whole element. -/
theorem Closed.around {name : Text} (isName : IsName name) {tags : List Text} (closed : Closed tags) :
    Closed (name :: (tags ++ ['/' :: name])) := by
  intro opened
  rw [List.foldlM_cons, enter_name isName]
  show (tags ++ ['/' :: name]).foldlM enter (name :: opened) = some opened
  rw [List.foldlM_append, closed (name :: opened)]
  simp [enter]

/-! ## Elements -/

section Elements

variable {tags : Text → Prop} (bracketed : ∀ tag, tags tag → Bracketed tag)
include bracketed

theorem tagsFrom_startTag {name : Text} (start : tags (startTag name)) (t : Text) :
    tagsFrom none (startTag name ++ t) = name :: tagsFrom none t := by
  have same : startTag name = '<' :: (name ++ ['>']) := by simp [startTag]
  obtain ⟨inside, whole, -, noClosing⟩ := bracketed _ start
  rw [same] at whole
  obtain rfl : name = inside := (List.append_inj' (List.cons.inj whole).2 rfl).1
  rw [same]
  exact tagsFrom_tag noClosing t

theorem tagsFrom_endTag {name : Text} (stop : tags (endTag name)) (t : Text) :
    tagsFrom none (endTag name ++ t) = ('/' :: name) :: tagsFrom none t := by
  have same : endTag name = '<' :: (('/' :: name) ++ ['>']) := by simp [endTag]
  obtain ⟨inside, whole, -, noClosing⟩ := bracketed _ stop
  rw [same] at whole
  obtain rfl : '/' :: name = inside := (List.append_inj' (List.cons.inj whole).2 rfl).1
  rw [same]
  exact tagsFrom_tag noClosing t

omit bracketed in
theorem composed_around {name content : Text} (start : tags (startTag name)) (stop : tags (endTag name))
    (composed : Composed tags content) : Composed tags (element name content) :=
  ((composed_of_tag start).append composed).append (composed_of_tag stop)

/-- The tags of an element are its own two and those of its content between them. -/
theorem tagsFrom_element {name content : Text} (start : tags (startTag name)) (stop : tags (endTag name))
    (composed : Composed tags content) :
    tagsFrom none (element name content) = name :: (tagsFrom none content ++ ['/' :: name]) := by
  have last : tagsFrom none (endTag name) = ['/' :: name] := by
    have alone := tagsFrom_endTag bracketed stop []
    rwa [List.append_nil] at alone
  rw [element, List.append_assoc, tagsFrom_startTag bracketed start, tagsFrom_append bracketed composed, last]

theorem tagsFrom_flatMap {α : Type} {f : α → Text} {xs : List α} (each : ∀ x ∈ xs, Composed tags (f x)) :
    tagsFrom none (xs.flatMap f) = xs.flatMap fun x => tagsFrom none (f x) := by
  induction xs with
  | nil => rfl
  | cons x xs ih =>
    rw [List.forall_mem_cons] at each
    rw [List.flatMap_cons, tagsFrom_append bracketed each.1, ih each.2, List.flatMap_cons]

/-- A tag that stands in composed markup is one of those it was composed of. -/
theorem Composed.tag_of_infix {t tag : Text} (composed : Composed tags t) (isTag : Bracketed tag) (inside : tag <:+: t) :
    tags tag := by
  obtain ⟨before, after, rfl⟩ := inside
  obtain ⟨name, rfl, -, noClosing⟩ := isTag
  rw [List.append_assoc, List.cons_append] at composed
  obtain ⟨tag, rest, kind, same⟩ := composed.exists_tag bracketed
  obtain ⟨name', rfl, -, noClosing'⟩ := bracketed tag kind
  have tails : name ++ '>' :: after = name' ++ '>' :: rest := by simpa using same
  -- both tags are read up to the first closing bracket
  have read := congrArg (tagsFrom (some [])) tails
  rw [tagsFrom_inside noClosing, tagsFrom_inside noClosing'] at read
  obtain rfl : name = name' := (List.cons.inj read).1
  exact kind

end Elements

end Marginalia.Markup
