import Marginalia.Markup.Inline
import Marginalia.Proofs.Escape
import Marginalia.Proofs.Text

/-!
# Markup made of text and tags

Markup is composed of plain text and of tags of a given kind. Such markup can be cut wherever as many tags have ended
as have started, and this is how blanks, a paragraph around the whole and the like are taken off. Where no tag of the
kind is that of a link, there is no link to be given a target.
-/

namespace Marginalia

/-- Nothing is replaced where there is nothing to replace. -/
theorem Text.replace_of_not_infix {part t : Text} (absent : ¬ part <:+: t) (new : Text) : replace part new t = t := by
  induction t with
  | nil => rfl
  | cons c t ih =>
    have here : part.isPrefixOf (c :: t) = false := by
      rw [Bool.eq_false_iff, Ne, List.isPrefixOf_iff_prefix]
      exact fun start => absent start.isInfix
    have later : replaceFrom part new 0 t = t := ih fun inside => absent (inside.trans (List.suffix_cons c t).isInfix)
    simp [replace, replaceFrom, here, later]

namespace Markup

/-- Text without the characters that start, end and quote inside tags. -/
def Plain (t : Text) : Prop := ∀ c ∈ t, c ≠ '<' ∧ c ≠ '>' ∧ c ≠ '"'

instance (t : Text) : Decidable (Plain t) := inferInstanceAs (Decidable (∀ c ∈ t, c ≠ '<' ∧ c ≠ '>' ∧ c ≠ '"'))

/-- Angle brackets with none inside. -/
def Bracketed (tag : Text) : Prop := ∃ inside, tag = '<' :: (inside ++ ['>']) ∧ '<' ∉ inside ∧ '>' ∉ inside

theorem bracketed_iff {tag : Text} : Bracketed tag ↔ tag = '<' :: (tag.tail.dropLast ++ ['>'])
    ∧ '<' ∉ tag.tail.dropLast ∧ '>' ∉ tag.tail.dropLast := by
  constructor
  · rintro ⟨inside, rfl, noOpening, noClosing⟩
    simp [noOpening, noClosing]
  · rintro ⟨same, noOpening, noClosing⟩
    exact ⟨_, same, noOpening, noClosing⟩

instance (tag : Text) : Decidable (Bracketed tag) := decidable_of_iff _ bracketed_iff.symm

/-- Plain texts and tags of the given kind, one after the other. -/
def Composed (tags : Text → Prop) (t : Text) : Prop :=
  ∃ pieces : List Text, t = pieces.flatten ∧ ∀ piece ∈ pieces, Plain piece ∨ tags piece

section Composition

variable {tags : Text → Prop} {s t : Text}

theorem composed_nil : Composed tags [] := ⟨[], rfl, nofun⟩

theorem composed_of_plain (plain : Plain t) : Composed tags t :=
  ⟨[t], (List.append_nil t).symm, fun _ member => .inl (List.mem_singleton.mp member ▸ plain)⟩

theorem composed_of_tag (tag : tags t) : Composed tags t :=
  ⟨[t], (List.append_nil t).symm, fun _ member => .inr (List.mem_singleton.mp member ▸ tag)⟩

theorem Composed.append (first : Composed tags s) (second : Composed tags t) : Composed tags (s ++ t) := by
  obtain ⟨ss, rfl, each⟩ := first
  obtain ⟨ts, rfl, eachToo⟩ := second
  refine ⟨ss ++ ts, List.flatten_append.symm, fun piece member => ?_⟩
  rcases List.mem_append.mp member with left | right
  · exact each piece left
  · exact eachToo piece right

theorem Composed.mono {more : Text → Prop} (composed : Composed tags t) (weaker : ∀ tag, tags tag → more tag) :
    Composed more t := by
  obtain ⟨pieces, rfl, each⟩ := composed
  exact ⟨pieces, rfl, fun piece member => (each piece member).imp_right (weaker piece)⟩

theorem composed_flatten {parts : List Text} (each : ∀ part ∈ parts, Composed tags part) :
    Composed tags parts.flatten := by
  induction parts with
  | nil => exact composed_nil
  | cons part rest ih =>
    rw [List.flatten_cons]
    exact (each part List.mem_cons_self).append (ih fun part member => each part (List.mem_cons_of_mem _ member))

theorem composed_flatMap {α : Type} {f : α → Text} {xs : List α} (each : ∀ x ∈ xs, Composed tags (f x)) :
    Composed tags (xs.flatMap f) := by
  refine composed_flatten fun part member => ?_
  obtain ⟨x, inside, rfl⟩ := List.mem_map.mp member
  exact each x inside

theorem composed_join {separator : Text} (between : Composed tags separator) {parts : List Text}
    (each : ∀ part ∈ parts, Composed tags part) : Composed tags (Text.join separator parts) :=
  Text.join_induction composed_nil (fun _ _ => Composed.append) between each

theorem plain_escape (t : Text) : Plain (escape t) := by
  intro c member
  have passive := isActive_of_mem_escape member
  simp only [isActive, Bool.or_eq_false_iff, beq_eq_false_iff_ne] at passive
  exact ⟨passive.1.1.1, passive.1.1.2, passive.1.2⟩

theorem composed_escape (t : Text) : Composed tags (escape t) := composed_of_plain (plain_escape t)

theorem composed_lineFeed : Composed tags "\n".toList := composed_of_plain (by decide)

end Composition

/-! ## Cuts -/

section Cuts

variable {tags : Text → Prop} {s t : Text}

theorem Plain.count_eq (plain : Plain t) : t.count '<' = 0 ∧ t.count '>' = 0 :=
  ⟨List.count_eq_zero.mpr fun member => (plain _ member).1 rfl,
    List.count_eq_zero.mpr fun member => (plain _ member).2.1 rfl⟩

theorem Bracketed.count_eq (bracketed : Bracketed t) : t.count '<' = 1 ∧ t.count '>' = 1 := by
  obtain ⟨inside, rfl, noOpening, noClosing⟩ := bracketed
  simp [List.count_eq_zero.mpr noOpening, List.count_eq_zero.mpr noClosing]

/-- A start of a tag that is not the whole tag has an opening bracket but no closing one. -/
theorem Bracketed.count_start (bracketed : Bracketed (s ++ t)) (some : s ≠ []) (more : t ≠ []) :
    s.count '<' ≠ s.count '>' := by
  obtain ⟨inside, same, -, noClosing⟩ := bracketed
  obtain ⟨c, s, rfl⟩ := List.exists_cons_of_ne_nil some
  obtain ⟨t, last, rfl⟩ := (List.eq_nil_or_concat' t).resolve_left more
  rw [List.cons_append, ← List.append_assoc] at same
  obtain ⟨rfl, tail⟩ := List.cons.inj same
  obtain ⟨rfl, -⟩ := List.append_inj' tail rfl
  have none : s.count '>' = 0 := List.count_eq_zero.mpr fun member => noClosing (List.mem_append_left _ member)
  simp [none]

theorem Composed.count_eq (bracketed : ∀ tag, tags tag → Bracketed tag) (composed : Composed tags t) :
    t.count '<' = t.count '>' := by
  obtain ⟨pieces, rfl, each⟩ := composed
  have balanced : ∀ piece ∈ pieces, piece.count '<' = piece.count '>' := by
    intro piece member
    rcases each piece member with plain | tag
    · rw [plain.count_eq.1, plain.count_eq.2]
    · rw [(bracketed piece tag).count_eq.1, (bracketed piece tag).count_eq.2]
  rw [List.count_flatten, List.count_flatten, List.map_congr_left balanced]

/-- Composed markup falls into two such parts where as many tags have ended as have started. -/
theorem Composed.cut (bracketed : ∀ tag, tags tag → Bracketed tag) (composed : Composed tags (s ++ t))
    (balanced : s.count '<' = s.count '>') : Composed tags s ∧ Composed tags t := by
  obtain ⟨pieces, same, each⟩ := composed
  induction pieces generalizing s with
  | nil =>
    obtain ⟨rfl, rfl⟩ := List.append_eq_nil_iff.mp same
    exact ⟨composed_nil, composed_nil⟩
  | cons piece rest ih =>
    have eachLater : ∀ piece ∈ rest, Plain piece ∨ tags piece := fun p member => each p (List.mem_cons_of_mem _ member)
    have first := each piece List.mem_cons_self
    rw [List.flatten_cons] at same
    rcases List.append_eq_append_iff.mp same with ⟨left, rfl, rfl⟩ | ⟨more, rfl, later⟩
    · -- the cut is in the first piece
      rcases first with plain | tag
      · exact ⟨composed_of_plain fun c member => plain c (List.mem_append_left _ member),
          (composed_of_plain fun c member => plain c (List.mem_append_right _ member)).append ⟨rest, rfl, eachLater⟩⟩
      · by_cases start : s = []
        · subst start
          exact ⟨composed_nil, (composed_of_tag tag).append ⟨rest, rfl, eachLater⟩⟩
        · by_cases whole : left = []
          · subst whole
            rw [List.append_nil] at tag
            exact ⟨composed_of_tag tag, ⟨rest, rfl, eachLater⟩⟩
          · exact absurd balanced ((bracketed _ tag).count_start start whole)
    · have even : Composed tags piece := ⟨[piece], by simp, by simpa using first⟩
      have count := even.count_eq bracketed
      rw [List.count_append, List.count_append] at balanced
      obtain ⟨before, after⟩ := ih (by omega) later.symm eachLater
      exact ⟨even.append before, after⟩

theorem Composed.trim (bracketed : ∀ tag, tags tag → Bracketed tag) (composed : Composed tags t) :
    Composed tags t.trim := by
  obtain ⟨before, after, same, blank⟩ := t.exists_trim
  have plain : Plain (before ++ after) := by
    intro c member
    refine ⟨?_, ?_, ?_⟩ <;> (rintro rfl; exact absurd (blank _ member) (by decide))
  have whole := composed.count_eq bracketed
  rw [same] at composed whole
  have sides := plain.count_eq
  simp only [List.count_append] at whole sides
  have kept := (composed.cut bracketed (by rw [List.count_append, List.count_append]; omega)).1
  exact (kept.cut bracketed (by omega)).2

theorem Composed.unwrap (bracketed : ∀ tag, tags tag → Bracketed tag) (composed : Composed tags t) :
    Composed tags (unwrap t) := by
  have trimmed := composed.trim bracketed
  unfold Markup.unwrap
  dsimp only
  split
  · next rest found =>
    rw [Text.afterStart?_eq_some.mp found] at trimmed
    have inner : Composed tags rest := (trimmed.cut bracketed rfl).2
    split
    · exact composed.trim bracketed
    · split
      · next ending =>
        obtain ⟨front, rfl⟩ := List.isSuffixOf_iff_suffix.mp ending
        have count := inner.count_eq bracketed
        rw [List.count_append, List.count_append] at count
        have front := (inner.cut bracketed (by simpa using count)).1
        simpa using front
      · exact inner
  · exact trimmed

/-- An opening bracket starts a tag. -/
theorem Composed.exists_tag (bracketed : ∀ tag, tags tag → Bracketed tag) (composed : Composed tags (s ++ '<' :: t)) :
    ∃ tag rest, tags tag ∧ '<' :: t = tag ++ rest := by
  obtain ⟨pieces, same, each⟩ := composed
  induction pieces generalizing s with
  | nil => simp at same
  | cons piece rest ih =>
    rw [List.flatten_cons] at same
    have eachLater : ∀ piece ∈ rest, Plain piece ∨ tags piece := fun p member => each p (List.mem_cons_of_mem _ member)
    rcases List.append_eq_append_iff.mp same with ⟨left, rfl, found⟩ | ⟨more, rfl, later⟩
    · cases left with
      | nil => exact ih (s := []) found eachLater
      | cons c left =>
        obtain ⟨rfl, -⟩ := List.cons.inj found
        rcases each _ List.mem_cons_self with plain | tag
        · exact absurd rfl (plain '<' (by simp)).1
        · obtain rfl : s = [] := by
            obtain ⟨inside, same, noOpening, -⟩ := bracketed _ tag
            cases s with
            | nil => rfl
            | cons d s =>
              have again : '<' ∈ inside ++ ['>'] := (List.cons.inj same).2 ▸ by simp
              exact absurd again (by simp [noOpening])
          exact ⟨_, rest.flatten, tag, found⟩
    · exact ih later.symm eachLater

/-- Links are given a target only where there are tags of links. -/
theorem retarget_of_composed (bracketed : ∀ tag, tags tag → Bracketed tag)
    (noLink : ∀ tag, tags tag → tag[1]? ≠ some 'a') (composed : Composed tags t) (target : Text) :
    retarget target t = t := by
  unfold retarget
  split
  · rfl
  · apply Text.replace_of_not_infix
    rintro ⟨before, after, same⟩
    rw [List.append_assoc, show "<a href=".toList ++ after = '<' :: 'a' :: (" href=".toList ++ after) from rfl] at same
    rw [← same] at composed
    obtain ⟨tag, rest, kind, found⟩ := composed.exists_tag bracketed
    obtain ⟨inside, rfl, -, -⟩ := bracketed tag kind
    refine noLink _ kind ?_
    cases inside with
    | nil => simp at found
    | cons c inside =>
      have second : 'a' = c := (List.cons.inj (List.cons.inj found).2).1
      exact congrArg some second.symm

end Cuts

end Markup

end Marginalia
