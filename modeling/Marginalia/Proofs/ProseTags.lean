import Marginalia.Proofs.Tags

/-!
# The tags of prose

Markup of prose is composed of plain text and of the tags of a few elements, none of which is a link. The elements that
are open are among these at every line, so only tags of these are put out to close them.
-/

namespace Marginalia

namespace Prose

open Markup

/-- The elements of prose. -/
def elements : List Text := ["ul", "li", "blockquote", "p", "pre", "h1", "h2", "h3", "h4", "h5", "h6"]

/-- The tags of prose. -/
def tags : List Text := elements.map startTag ++ elements.map endTag

theorem bracketed_of_mem_tags : ∀ tag ∈ tags, Bracketed tag := by decide +kernel

theorem composed_startTag {name : Text} (element : name ∈ elements) : Composed (· ∈ tags) (startTag name) :=
  composed_of_tag (List.mem_append_left _ (List.mem_map_of_mem element))

theorem composed_endTag {name : Text} (element : name ∈ elements) : Composed (· ∈ tags) (endTag name) :=
  composed_of_tag (List.mem_append_right _ (List.mem_map_of_mem element))

/-! ## Open elements -/

/-- All open elements are elements of prose. -/
def Known (s : Containers) : Prop := ∀ name ∈ s, name ∈ elements

theorem composed_closeAll {s : Containers} (known : Known s) : Composed (· ∈ tags) s.closeAll :=
  composed_flatMap fun name member => composed_endTag (known name member)

theorem known_openTag {s : Containers} (known : Known s) {name : Text} (element : name ∈ elements) :
    Composed (· ∈ tags) (s.openTag name).1 ∧ Known (s.openTag name).2 := by
  unfold Containers.openTag
  split
  · exact ⟨composed_nil, known⟩
  · refine ⟨(composed_closeAll known).append (composed_startTag element), fun other member => ?_⟩
    exact List.mem_singleton.mp member ▸ element

theorem known_close {s : Containers} (known : Known s) (name : Text) :
    Composed (· ∈ tags) (s.close name).1 ∧ Known (s.close name).2 := by
  induction s with
  | nil => exact ⟨composed_nil, nofun⟩
  | cons current rest ih =>
    have closing := composed_endTag (known current List.mem_cons_self)
    have inner : Known rest := fun other member => known other (List.mem_cons_of_mem _ member)
    unfold Containers.close
    split
    · exact ⟨closing, inner⟩
    · exact ⟨closing.append (ih inner).1, (ih inner).2⟩

/-! ## Lines -/

/-- What a line puts out is composed of the tags of prose, and so is what closes the elements open after it. -/
def Tagged (r : Text × State) : Prop := Composed (· ∈ tags) r.1 ∧ Known r.2.containers

variable {s : State} (known : Known s.containers)
include known

theorem tagged_flush : Tagged (flush s) := by
  unfold flush
  split
  · next t _ =>
    have opening : Composed (· ∈ tags) "<p>".toList := composed_startTag (show "p".toList ∈ elements by decide)
    have closing : Composed (· ∈ tags) "</p>\n".toList := by
      have same : "</p>\n".toList = endTag "p" ++ "\n" := by simp [endTag]
      rw [same]
      exact (composed_endTag (by decide)).append composed_lineFeed
    exact ⟨(((composed_closeAll known).append opening).append (composed_escape t)).append closing, nofun⟩
  · exact ⟨composed_nil, known⟩

theorem tagged_item {container tag : Text} (outer : container ∈ elements) (inner : tag ∈ elements) (content : Text) :
    Tagged (item s container tag content) := by
  obtain ⟨opened, still⟩ := known_openTag known outer
  exact ⟨((opened.append (composed_startTag inner)).append (composed_escape _)).append (composed_endTag inner), still⟩

omit known in
theorem mem_elements_of_heading {line title : Text} {level : Nat} (heading : heading? line = some (level, title)) :
    'h' :: decimal level ∈ elements := by
  have small : ∀ n < 7, 1 ≤ n → 'h' :: decimal n ∈ elements := by decide +kernel
  unfold heading? at heading
  dsimp only at heading
  split at heading
  · split at heading
    · next bounds =>
      obtain ⟨rfl, -⟩ := Prod.mk.inj (Option.some.inj heading)
      simp only [Bool.and_eq_true, decide_eq_true_eq] at bounds
      exact small _ (by omega) bounds.1
    · cases heading
  · cases heading

theorem tagged_startLine (line : Text) : Tagged (startLine s line) := by
  unfold startLine
  split
  · exact known_openTag known (by decide)
  · split
    · exact ⟨composed_nil, known⟩
    · next c rest _ =>
      split
      · exact tagged_item known (by decide) (by decide) rest
      · split
        · exact tagged_item known (by decide) (by decide) rest
        · split
          · next level title found =>
            have element := mem_elements_of_heading found
            exact ⟨((((composed_closeAll known).append (composed_startTag element)).append (composed_escape _)).append
              (composed_endTag element)).append composed_lineFeed, fun _ member => nomatch member⟩
          · exact ⟨composed_nil, known⟩

theorem tagged_fencedLine (raw : Text) : Tagged (fencedLine s raw) := by
  unfold fencedLine
  split
  · exact ⟨(known_close known _).1.append composed_lineFeed, (known_close known _).2⟩
  · exact ⟨(composed_escape raw).append composed_lineFeed, known⟩

theorem tagged_step (raw : Text) : Tagged (step s raw) := by
  unfold step
  split
  · exact tagged_fencedLine known raw
  · dsimp only
    split
    · exact tagged_startLine known _
    · split
      · have flushed := tagged_flush known
        have started := tagged_startLine flushed.2 raw.trim
        exact ⟨flushed.1.append started.1, started.2⟩
      · split
        · exact tagged_flush known
        · exact ⟨composed_nil, known⟩

theorem composed_run (lines : List Text) : Composed (· ∈ tags) (run s lines) := by
  induction lines generalizing s with
  | nil =>
    have flushed := tagged_flush known
    exact flushed.1.append (composed_closeAll flushed.2)
  | cons line rest ih =>
    have stepped := tagged_step known line
    exact stepped.1.append (ih stepped.2)

omit known

theorem composed_render (t : Text) : Composed (· ∈ tags) (render t) :=
  composed_run (s := {}) (fun _ member => nomatch member) _

/-- There are no links in prose that could be given a target. -/
theorem retarget_render (target t : Text) : retarget target (render t) = render t :=
  retarget_of_composed bracketed_of_mem_tags (by decide +kernel) (composed_render t) target

end Prose

/-- Prose in a page has the tags of prose only. -/
theorem Markup.composed_convert (inline : Bool) (target text : Text) :
    Composed (· ∈ Prose.tags) (convert Prose.render inline target text) := by
  unfold convert
  dsimp only
  split
  · exact composed_nil
  · have rendered := Prose.composed_render text.trim
    rw [Prose.retarget_render]
    split
    · exact rendered.unwrap Prose.bracketed_of_mem_tags
    · exact rendered

end Marginalia
