import Marginalia.Proofs.Attributes
import Marginalia.Proofs.PageTags

/-!
# Anchors and the tags that carry them

The anchors of declarations are distinct, whatever the names are: an anchor that is taken gets a number, and one of the
numbers up to the count of anchors taken is free. Two kinds of tags carry anchors: the places on a page and the links
that jump to them. What a page carries of both is put together from what its parts carry.
-/

namespace Marginalia

open Markup

/-! ## Anchors -/

namespace Anchor

theorem numbered_injective (slug : Text) : Function.Injective (numbered slug) := by
  intro m n same
  have digits : decimal m = decimal n := List.append_cancel_left same
  rw [← valueOfDigits_decimal m, digits, valueOfDigits_decimal]

/-- More numbers are tried than anchors are taken, so one of them is free. -/
theorem choose_not_mem (taken : List Text) (slug : Text) : choose taken slug ∉ taken := by
  unfold choose
  split
  · split
    · next n found => simpa using List.find?_some found
    · next none =>
      -- all numbered anchors would be among those taken, which are fewer
      have all : (List.range (taken.length + 1)).map (fun n => numbered slug (n + 2)) ⊆ taken := by
        intro anchor member
        obtain ⟨n, small, rfl⟩ := List.mem_map.mp member
        simpa using List.find?_eq_none.mp none n small
      have distinct : ((List.range (taken.length + 1)).map fun n => numbered slug (n + 2)).Nodup := by
        refine List.nodup_range.map fun m n same => ?_
        have numbers := numbered_injective slug same
        omega
      have fewer := (distinct.subperm all).length_le
      rw [List.length_map, List.length_range] at fewer
      omega
  · next free => simpa using free

theorem slug_ne_nil (t : Text) : slug t ≠ [] := by
  unfold slug
  split
  · decide
  · next some =>
    cases found : runs t.trim.lower with
    | nil => exact absurd found some
    | cons first rest =>
      have content : first ≠ [] := by
        have member : first ∈ runs t.trim.lower := by simp [found]
        simpa using (List.mem_filter.mp member).2
      obtain ⟨more, joined⟩ := Text.exists_join_cons "-" first rest
      rw [joined]
      exact List.append_ne_nil_of_left_ne_nil content more

theorem choose_ne_nil (taken : List Text) {slug : Text} (content : slug ≠ []) : choose taken slug ≠ [] := by
  unfold choose
  split
  · split
    · simp [numbered]
    · exact content
  · exact content

theorem assign_ne_nil (currentClass : Text) (taken : List Text) (declarations : List Declaration) :
    ∀ anchor ∈ assign currentClass taken declarations, anchor ≠ [] := by
  induction declarations generalizing currentClass taken with
  | nil => simp [assign]
  | cons d rest ih => exact List.forall_mem_cons.mpr ⟨choose_ne_nil _ (slug_ne_nil _), ih _ _⟩

theorem assign_distinct (currentClass : Text) (taken : List Text) (declarations : List Declaration) :
    (assign currentClass taken declarations).Nodup
      ∧ ∀ anchor ∈ assign currentClass taken declarations, anchor ∉ taken := by
  induction declarations generalizing currentClass taken with
  | nil => simp [assign]
  | cons d rest ih =>
    rw [assign]
    have fresh := choose_not_mem taken (slug (qualified currentClass d))
    generalize choose taken (slug (qualified currentClass d)) = anchor at *
    obtain ⟨distinct, free⟩ := ih (if d.kind = .classDecl then d.name else currentClass) (anchor :: taken)
    refine ⟨List.nodup_cons.mpr ⟨fun again => free anchor again List.mem_cons_self, distinct⟩, ?_⟩
    refine List.forall_mem_cons.mpr ⟨fresh, fun other member before => ?_⟩
    exact free other member (List.mem_cons_of_mem _ before)

theorem IsAnchor.passive {anchor : Text} (slug : IsAnchor anchor) : ∀ c ∈ anchor, isActive c = false := by
  intro c member
  have kept := slug c member
  rw [Bool.eq_false_iff]
  intro active
  simp only [isActive, Bool.or_eq_true, beq_iff_eq] at active
  rcases active with ((rfl | rfl) | rfl) | rfl <;> exact absurd kept (by decide)

end Anchor

theorem nodup_anchors (declarations : List Declaration) : (anchors declarations).Nodup :=
  (Anchor.assign_distinct _ _ _).1

/-! ## The tags that carry anchors -/

namespace Page

open Anchor

theorem bracketed_of_ownTag (tag : Text) (own : OwnTag tag) : Bracketed tag := by
  have around : ∀ start value stop : Text, ('<' ∉ start ∧ '>' ∉ start) → ('<' ∉ stop ∧ '>' ∉ stop) →
      (∀ c ∈ value, isActive c = false) → Bracketed ('<' :: start ++ value ++ (stop ++ ['>'])) := by
    intro start value stop first last passive
    have noOpening : '<' ∉ value := not_mem_of_passive passive rfl
    have noClosing : '>' ∉ value := not_mem_of_passive passive rfl
    exact ⟨start ++ value ++ stop, by simp, by simp [first, last, noOpening], by simp [first, last, noClosing]⟩
  cases own with
  | prose listed => exact Prose.bracketed_of_mem_tags _ listed
  | literal listed =>
    have each : ∀ tag ∈ tags, Bracketed tag.toList := by decide +kernel
    exact each _ listed
  | place slug => exact around "p class=\"docfunction\" id=\"" _ "\"" (by decide) (by decide) slug.passive
  | jump slug => exact around "a href=\"#" _ "\"" (by decide) (by decide) slug.passive
  | link passive => exact around "a href=\"?" _ "\"" (by decide) (by decide) passive

theorem valuesOf_place {anchor : Text} (slug : IsAnchor anchor) :
    valuesOf "id" ("<p class=\"docfunction\" id=\"" ++ anchor ++ "\">") = [anchor]
      ∧ valuesOf "href" ("<p class=\"docfunction\" id=\"" ++ anchor ++ "\">") = [] := by
  have noQuote : '"' ∉ anchor := not_mem_of_passive slug.passive rfl
  have noClosing : '>' ∉ anchor := not_mem_of_passive slug.passive rfl
  let inside : Text := "p class=" ++ '"' :: ("docfunction" ++ '"' :: (" id=" ++ '"' :: (anchor ++ ['"'])))
  have whole : "<p class=\"docfunction\" id=\"" ++ anchor ++ "\">" = '<' :: (inside ++ ['>']) := by simp [inside]
  have closed : '>' ∉ inside := by simp [inside, noClosing]
  have read : attributes inside = ([("class", "docfunction"), ("id", anchor)] : Entries Text) := by
    rw [attributes_append_cons (by decide) (by decide), attributes_append_cons (by decide) noQuote]
    rfl
  rw [whole, valuesOf_tag _ closed, valuesOf_tag _ closed, read]
  exact ⟨rfl, rfl⟩

/-- The tag of a link has its target as a value. -/
theorem valuesOf_target {target : Text} (passive : ∀ c ∈ target, isActive c = false) :
    valuesOf "id" ("<a href=\"" ++ target ++ "\">") = [] ∧ valuesOf "href" ("<a href=\"" ++ target ++ "\">") = [target] := by
  have noQuote : '"' ∉ target := not_mem_of_passive passive rfl
  have noClosing : '>' ∉ target := not_mem_of_passive passive rfl
  let inside : Text := "a href=" ++ '"' :: (target ++ ['"'])
  have whole : "<a href=\"" ++ target ++ "\">" = '<' :: (inside ++ ['>']) := by simp [inside]
  have closed : '>' ∉ inside := by simp [inside, noClosing]
  have read : attributes inside = ([("href", target)] : Entries Text) := by
    rw [attributes_append_cons (by decide) noQuote]
    rfl
  rw [whole, valuesOf_tag _ closed, valuesOf_tag _ closed, read]
  exact ⟨rfl, rfl⟩

theorem valuesOf_jump {anchor : Text} (slug : IsAnchor anchor) :
    valuesOf "id" ("<a href=\"#" ++ anchor ++ "\">") = []
      ∧ valuesOf "href" ("<a href=\"#" ++ anchor ++ "\">") = ['#' :: anchor] := by
  have same : "<a href=\"#" ++ anchor ++ "\">" = "<a href=\"" ++ ('#' :: anchor) ++ "\">" := by simp
  rw [same]
  exact valuesOf_target (List.forall_mem_cons.mpr ⟨by decide, slug.passive⟩)

theorem valuesOf_fixed {name t : Text} (known : name ∈ (["id", "href"] : List Text)) (composed : Composed FixedTag t) :
    valuesOf name t = [] := by
  have literals : ∀ name ∈ (["id", "href"] : List Text), ∀ tag ∈ tags,
      (attributes tag.toList.tail.dropLast).get? name = none := by decide +kernel
  have others : ∀ name ∈ (["id", "href"] : List Text), ∀ tag ∈ Prose.tags,
      (attributes tag.tail.dropLast).get? name = none := by decide +kernel
  refine valuesOf_eq_nil (fun tag fixed => bracketed_of_ownTag tag (HasFixed.fixed fixed)) composed ?_
  intro inside fixed
  generalize whole : '<' :: (inside ++ ['>']) = tag at fixed
  have same : inside = tag.tail.dropLast := by simp [← whole]
  rw [same]
  cases fixed with
  | prose listed => exact others name known _ listed
  | literal listed => exact literals name known _ listed

/-! ## What parts of a page carry -/

/-- Parts of a page that are composed of its tags and have these identifiers and targets of links, in order. -/
structure Carries (parts ids targets : List Text) : Prop where
  composed : ∀ part ∈ parts, Composed OwnTag part
  ids : parts.flatMap (valuesOf "id") = ids
  targets : parts.flatMap (valuesOf "href") = targets

section Carries

variable {parts others ids ids' targets targets' : List Text} {s t : Text}

theorem carries_nil : Carries [] [] [] := ⟨by simp, rfl, rfl⟩

theorem carries_fixed (fixed : ∀ part ∈ parts, Composed FixedTag part) : Carries parts [] [] where
  composed part member := (fixed part member).mono fun _ => HasFixed.fixed
  ids := List.flatMap_eq_nil_iff.mpr fun part member => valuesOf_fixed (by simp) (fixed part member)
  targets := List.flatMap_eq_nil_iff.mpr fun part member => valuesOf_fixed (by simp) (fixed part member)

theorem carries_fixed_singleton (fixed : Composed FixedTag t) : Carries [t] [] [] :=
  carries_fixed (List.forall_mem_singleton.mpr fixed)

theorem Carries.ne_nil (carries : Carries [t] ids targets) (some : ids ++ targets ≠ []) : t ≠ [] := by
  rintro rfl
  exact some (by rw [← carries.ids, ← carries.targets]; rfl)

theorem Carries.append (first : Carries parts ids targets) (second : Carries others ids' targets') :
    Carries (parts ++ others) (ids ++ ids') (targets ++ targets') where
  composed := List.forall_mem_append.mpr ⟨first.composed, second.composed⟩
  ids := by rw [List.flatMap_append, first.ids, second.ids]
  targets := by rw [List.flatMap_append, first.targets, second.targets]

theorem carries_flatMap {α : Type} {xs : List α} {f ids targets : α → List Text}
    (each : ∀ x ∈ xs, Carries (f x) (ids x) (targets x)) :
    Carries (xs.flatMap f) (xs.flatMap ids) (xs.flatMap targets) := by
  induction xs with
  | nil => exact carries_nil
  | cons x xs ih =>
    rw [List.forall_mem_cons] at each
    simp only [List.flatMap_cons]
    exact each.1.append (ih each.2)

theorem Carries.join (each : Carries parts ids targets) : Carries [Text.join "\n" parts] ids targets where
  composed := List.forall_mem_singleton.mpr (composed_join composed_lineFeed each.composed)
  ids := by
    rw [List.flatMap_singleton, valuesOf_join bracketed_of_ownTag _ (by decide) each.composed, each.ids]
  targets := by
    rw [List.flatMap_singleton, valuesOf_join bracketed_of_ownTag _ (by decide) each.composed, each.targets]

theorem Carries.flatten (each : Carries parts ids targets) : Carries [parts.flatten] ids targets where
  composed := List.forall_mem_singleton.mpr (composed_flatten each.composed)
  ids := by
    rw [List.flatMap_singleton, ← List.flatMap_id]
    exact (valuesOf_flatMap bracketed_of_ownTag _ each.composed).trans each.ids
  targets := by
    rw [List.flatMap_singleton, ← List.flatMap_id]
    exact (valuesOf_flatMap bracketed_of_ownTag _ each.composed).trans each.targets

theorem Carries.glue (first : Carries [s] ids targets) (second : Carries [t] ids' targets') :
    Carries [s ++ t] (ids ++ ids') (targets ++ targets') := by
  simpa using (first.append second).flatten

theorem carries_concat {α : Type} {xs : List α} {f : α → Text} {ids targets : α → List Text}
    (each : ∀ x ∈ xs, Carries [f x] (ids x) (targets x)) :
    Carries [xs.flatMap f] (xs.flatMap ids) (xs.flatMap targets) := by
  have whole := (carries_flatMap each).flatten
  rwa [← List.map_eq_flatMap, ← List.flatMap_def] at whole

/-- What stands around a part and has no values. -/
theorem Carries.between (inner : Carries [t] ids targets) {before after : Text} (opening : Composed FixedTag before)
    (closing : Composed FixedTag after) : Carries [before ++ t ++ after] ids targets := by
  simpa using ((carries_fixed_singleton opening).glue inner).glue (carries_fixed_singleton closing)

theorem Carries.filter (each : Carries parts ids targets) :
    Carries (parts.filter (!·.isEmpty)) ids targets := by
  have same : ∀ name : Text, (parts.filter (!·.isEmpty)).flatMap (valuesOf name) = parts.flatMap (valuesOf name) := by
    intro name
    clear each
    induction parts with
    | nil => rfl
    | cons part rest ih =>
      rw [List.filter_cons, List.flatMap_cons]
      cases part with
      | nil => simpa [valuesOf, tagsFrom] using ih
      | cons c part => simpa using ih
  exact ⟨fun part member => each.composed part (List.mem_of_mem_filter member), (same _).trans each.ids,
    (same _).trans each.targets⟩

end Carries

/-! ## What stands on a page -/

/-- A part that stands on a page between its tags and not inside of one. -/
def Holds (page part : Text) : Prop := ∃ before after, Composed OwnTag before ∧ page = before ++ part ++ after

section Holds

variable {page part t : Text}

theorem Holds.refl (page : Text) : Holds page page := ⟨[], [], composed_nil, by simp⟩

theorem Holds.after (holds : Holds t part) {before : Text} (composed : Composed OwnTag before) :
    Holds (before ++ t) part := by
  obtain ⟨start, stop, between, rfl⟩ := holds
  exact ⟨before ++ start, stop, composed.append between, by simp⟩

theorem Holds.before (holds : Holds t part) (after : Text) : Holds (t ++ after) part := by
  obtain ⟨start, stop, between, rfl⟩ := holds
  exact ⟨start, stop ++ after, between, by simp⟩

theorem Holds.trans (outer : Holds page t) (inner : Holds t part) : Holds page part := by
  obtain ⟨start, stop, between, rfl⟩ := outer
  exact (inner.after between).before stop

theorem Holds.ne_nil (holds : Holds page part) (content : part ≠ []) : page ≠ [] := by
  obtain ⟨start, stop, -, rfl⟩ := holds
  simp [content]

theorem holds_flatMap {α : Type} {f : α → Text} {xs : List α} (each : ∀ x ∈ xs, Composed OwnTag (f x)) {x : α}
    (member : x ∈ xs) : Holds (xs.flatMap f) (f x) := by
  induction xs with
  | nil => cases member
  | cons first rest ih =>
    rw [List.forall_mem_cons] at each
    rw [List.flatMap_cons]
    rcases List.mem_cons.mp member with rfl | later
    · exact (Holds.refl _).before _
    · exact (ih each.2 later).after each.1

theorem holds_join {parts : List Text} (each : ∀ p ∈ parts, Composed OwnTag p) (member : part ∈ parts) :
    Holds (Text.join "\n" parts) part := by
  induction parts with
  | nil => cases member
  | cons first rest ih =>
    rw [List.forall_mem_cons] at each
    rcases List.mem_cons.mp member with rfl | later
    · obtain ⟨more, joined⟩ := Text.exists_join_cons "\n" part rest
      rw [joined]
      exact (Holds.refl _).before _
    · obtain ⟨second, others, rfl⟩ := List.exists_cons_of_ne_nil (List.ne_nil_of_mem later)
      rw [Text.join_cons_cons]
      exact ((ih each.2 later).after composed_lineFeed).after each.1

/-- The values of a part are among those of the page, at one place. -/
theorem Holds.valuesOf (holds : Holds page part) (composed : Composed OwnTag part) {name value : Text}
    (only : valuesOf name part = [value]) : ∃ before after, page = before ++ part ++ after
      ∧ Markup.valuesOf name page = Markup.valuesOf name before ++ value :: Markup.valuesOf name after := by
  obtain ⟨before, after, start, rfl⟩ := holds
  refine ⟨before, after, rfl, ?_⟩
  rw [valuesOf_append bracketed_of_ownTag name (start.append composed), valuesOf_append bracketed_of_ownTag name start,
    only, List.append_assoc, List.singleton_append]

end Holds

end Page

end Marginalia
