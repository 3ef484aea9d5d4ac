import Marginalia.Dict
import Marginalia.Proofs.Lines
import Marginalia.Proofs.Tags

/-!
# Attributes that are read from markup

A reader of markup: the tags of a text, the attributes of a tag and the values that an attribute has in a text. Markup
that is composed of plain text and tags is read part by part, so the values of an attribute in a page are those in its
parts, one after the other.
-/

namespace Marginalia.Markup

/-! ## The reader -/

/-- The insides of the tags of a text. `inside` is what has been read of a tag that is open, last character first. -/
def tagsFrom : (inside : Option Text) → Text → List Text
  | _, [] => []
  | none, c :: t => tagsFrom (if c = '<' then some [] else none) t
  | some inside, c :: t =>
    if c = '>' then inside.reverse :: tagsFrom none t else tagsFrom (some (c :: inside)) t

/-- The name in front of a value: the last word, without the equals sign after it. -/
def attributeName (before : Text) : Text := (before.words.getLastD []).takeWhile (· != '=')

/-- The attributes of a tag that is cut at its quotation marks: names and values take turns. -/
def attributePairs : List Text → Entries Text
  | before :: value :: rest => (attributeName before, value) :: attributePairs rest
  | _ => []

/-- The attributes with values of a tag, by name. -/
def attributes (tag : Text) : Entries Text := attributePairs (tag.splitOn (· == '"'))

/-- The values that an attribute has in the tags of a text, in order. -/
def valuesOf (name t : Text) : List Text := (tagsFrom none t).filterMap fun tag => (attributes tag).get? name

/-! ## Markup part by part -/

theorem tagsFrom_plain {s : Text} (plain : Plain s) (t : Text) : tagsFrom none (s ++ t) = tagsFrom none t := by
  induction s with
  | nil => rfl
  | cons c s ih =>
    rw [Plain, List.forall_mem_cons] at plain
    rw [List.cons_append, tagsFrom, if_neg plain.1.1]
    exact ih plain.2

theorem tagsFrom_of_plain {s : Text} (plain : Plain s) : tagsFrom none s = [] := by
  have alone := tagsFrom_plain plain []
  rwa [List.append_nil] at alone

theorem tagsFrom_inside {inside : Text} (noClosing : '>' ∉ inside) (read t : Text) :
    tagsFrom (some read) (inside ++ '>' :: t) = (read.reverse ++ inside) :: tagsFrom none t := by
  induction inside generalizing read with
  | nil => simp [tagsFrom]
  | cons c inside ih =>
    rw [List.mem_cons, not_or] at noClosing
    rw [List.cons_append, tagsFrom, if_neg (Ne.symm noClosing.1), ih noClosing.2]
    simp

theorem tagsFrom_tag {inside : Text} (noClosing : '>' ∉ inside) (t : Text) :
    tagsFrom none ('<' :: (inside ++ ['>']) ++ t) = inside :: tagsFrom none t := by
  rw [List.cons_append, tagsFrom, if_pos rfl, List.append_assoc]
  exact tagsFrom_inside noClosing [] t

theorem valuesOf_tag (name : Text) {inside : Text} (noClosing : '>' ∉ inside) :
    valuesOf name ('<' :: (inside ++ ['>'])) = ((attributes inside).get? name).toList := by
  have alone := tagsFrom_tag noClosing []
  rw [List.append_nil] at alone
  rw [valuesOf, alone]
  cases found : (attributes inside).get? name with
  | none => simp [found, tagsFrom]
  | some value => simp [found, tagsFrom]

/-- A value in quotation marks is read with the name before it. -/
theorem attributes_append_cons {before value : Text} (noQuote : '"' ∉ before) (closed : '"' ∉ value) (rest : Text) :
    attributes (before ++ '"' :: (value ++ '"' :: rest)) = (attributeName before, value) :: attributes rest := by
  have whole : ∀ {t : Text}, '"' ∉ t → t.splitOn (· == '"') = [t] := by
    intro t absent
    refine Text.splitOn_of_forall fun c member => ?_
    rw [beq_eq_false_iff_ne]
    rintro rfl
    exact absent member
  rw [attributes, Text.splitOn_append_cons rfl, Text.splitOn_append_cons rfl, whole noQuote, whole closed]
  rfl

section Parts

variable {tags : Text → Prop} (bracketed : ∀ tag, tags tag → Bracketed tag)
include bracketed

/-- A piece is read apart from what follows it, and a tag that is read from it is the piece itself. -/
theorem tagsFrom_piece {piece : Text} (either : Plain piece ∨ tags piece) :
    (∀ t, tagsFrom none (piece ++ t) = tagsFrom none piece ++ tagsFrom none t)
      ∧ ∀ inside ∈ tagsFrom none piece, tags ('<' :: (inside ++ ['>'])) := by
  rcases either with plain | tag
  · rw [tagsFrom_of_plain plain]
    exact ⟨tagsFrom_plain plain, by simp⟩
  · obtain ⟨inside, rfl, -, noClosing⟩ := bracketed _ tag
    have alone := tagsFrom_tag noClosing []
    rw [List.append_nil] at alone
    rw [alone]
    refine ⟨tagsFrom_tag noClosing, fun other member => ?_⟩
    exact List.mem_singleton.mp member ▸ tag

theorem tagsFrom_append {s : Text} (composed : Composed tags s) (t : Text) :
    tagsFrom none (s ++ t) = tagsFrom none s ++ tagsFrom none t := by
  obtain ⟨pieces, rfl, each⟩ := composed
  induction pieces with
  | nil => rfl
  | cons piece rest ih =>
    rw [List.forall_mem_cons] at each
    have first := (tagsFrom_piece bracketed each.1).1
    rw [List.flatten_cons, List.append_assoc, first, first, ih each.2, List.append_assoc]

/-- The tags that are read from composed markup are those it was composed of. -/
theorem tags_of_mem_tagsFrom {s inside : Text} (composed : Composed tags s) (member : inside ∈ tagsFrom none s) :
    tags ('<' :: (inside ++ ['>'])) := by
  obtain ⟨pieces, rfl, each⟩ := composed
  induction pieces with
  | nil => cases member
  | cons piece rest ih =>
    rw [List.forall_mem_cons] at each
    obtain ⟨apart, first⟩ := tagsFrom_piece bracketed each.1
    rw [List.flatten_cons, apart, List.mem_append] at member
    rcases member with here | later
    · exact first inside here
    · exact ih each.2 later

theorem valuesOf_append (name : Text) {s : Text} (composed : Composed tags s) (t : Text) :
    valuesOf name (s ++ t) = valuesOf name s ++ valuesOf name t := by
  rw [valuesOf, tagsFrom_append bracketed composed, List.filterMap_append]
  rfl

theorem valuesOf_flatMap (name : Text) {α : Type} {f : α → Text} {xs : List α} (each : ∀ x ∈ xs, Composed tags (f x)) :
    valuesOf name (xs.flatMap f) = xs.flatMap fun x => valuesOf name (f x) := by
  induction xs with
  | nil => rfl
  | cons x xs ih =>
    rw [List.forall_mem_cons] at each
    rw [List.flatMap_cons, valuesOf_append bracketed name each.1, ih each.2, List.flatMap_cons]

omit bracketed in
theorem valuesOf_plain (name : Text) {s : Text} (plain : Plain s) : valuesOf name s = [] := by
  rw [valuesOf, tagsFrom_of_plain plain]
  rfl

theorem valuesOf_join (name : Text) {separator : Text} (plain : Plain separator) {parts : List Text}
    (each : ∀ part ∈ parts, Composed tags part) :
    valuesOf name (Text.join separator parts) = parts.flatMap (valuesOf name) := by
  induction parts with
  | nil => rfl
  | cons first rest ih =>
    rw [List.forall_mem_cons] at each
    cases rest with
    | nil => rw [Text.join_singleton, List.flatMap_singleton]
    | cons second rest =>
      rw [Text.join_cons_cons, valuesOf_append bracketed name each.1,
        valuesOf_append bracketed name (composed_of_plain plain), valuesOf_plain name plain, List.nil_append,
        ih each.2]
      exact List.flatMap_cons.symm

/-- An attribute that no tag of the kind has is not found in markup composed of such tags. -/
theorem valuesOf_eq_nil {name s : Text} (composed : Composed tags s)
    (absent : ∀ inside, tags ('<' :: (inside ++ ['>'])) → (attributes inside).get? name = none) :
    valuesOf name s = [] := by
  rw [valuesOf, List.filterMap_eq_nil_iff]
  intro inside member
  exact absent inside (tags_of_mem_tagsFrom bracketed composed member)

end Parts

end Marginalia.Markup
