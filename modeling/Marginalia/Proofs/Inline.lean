import Marginalia.Proofs.Elements

/-!
# Prose in a cell

Where prose is put into a cell or an item, a paragraph around the whole is taken off. Its start tag is taken off where
no other paragraph starts later, but its end tag only where nothing follows it. So the markup stays well nested unless a
paragraph comes first, something follows it, and no paragraph is in what follows.
-/

namespace Marginalia

namespace Prose

open Markup

/-- A paragraph comes first and other elements follow, which neither are paragraphs nor hold any. -/
def LoneParagraph (forms : List Form) : Prop :=
  ∃ content rest, forms = .paragraph content :: rest ∧ rest ≠ [] ∧ ∀ form ∈ rest, "p".toList ∉ form.names

theorem loneParagraph_cons {content : Passive} {rest : List Form} :
    LoneParagraph (.paragraph content :: rest) ↔ rest ≠ [] ∧ ∀ form ∈ rest, "p".toList ∉ form.names := by
  constructor
  · rintro ⟨content', rest', same, lone⟩
    obtain ⟨-, rfl⟩ := List.cons.inj same
    exact lone
  · intro lone
    exact ⟨content, rest, rfl, lone⟩

/-! ## The ends of elements -/

/-- The name of the element itself, whatever it holds. -/
def Form.name : Form → Text
  | container kind _ _ => kind.outer
  | fenced _ => "pre"
  | heading level _ => headingName level
  | paragraph _ => "p"

theorem exists_markup_eq (form : Form) : ∃ content, form.markup = element form.name content := by
  cases form with
  | container kind first more => exact ⟨Form.items kind (first :: more), rfl⟩
  | fenced content => exact ⟨content.text, rfl⟩
  | heading level title => exact ⟨title.text, rfl⟩
  | paragraph content => exact ⟨content.text, rfl⟩

theorem name_mem_names (form : Form) : form.name ∈ form.names := by
  cases form <;> simp [Form.name, Form.names]

theorem name_mem_elements (form : Form) : form.name ∈ elements := mem_elements_of_mem_names (name_mem_names form)

theorem eq_paragraph_of_name {form : Form} (name : form.name = "p".toList) : ∃ content, form = .paragraph content := by
  cases form with
  | container kind first more => cases kind <;> cases name
  | fenced content => cases name
  | heading level title => cases name
  | paragraph content => exact ⟨content, rfl⟩

/-- The tags of all other elements neither start nor end like those of a paragraph. -/
theorem tags_of_other : ∀ name ∈ elements, name ≠ "p".toList →
    ("<p>".toList.length ≤ (startTag name).length ∧ ¬ "<p>".toList <+: startTag name)
    ∧ ("</p>".toList.length ≤ (endTag name).length ∧ ¬ "</p>".toList <:+ endTag name)
    ∧ endTag name ≠ "<p>".toList := by
  decide +kernel

/-- Only a paragraph starts with the start tag of a paragraph. -/
theorem afterStart?_markup {form : Form} (other : form.name ≠ "p".toList) (t : Text) :
    Text.afterStart? "<p>" (form.markup ++ t) = none := by
  obtain ⟨⟨long, differs⟩, -⟩ := tags_of_other form.name (name_mem_elements form) other
  cases found : Text.afterStart? "<p>" (form.markup ++ t) with
  | none => rfl
  | some rest =>
    obtain ⟨content, whole⟩ := exists_markup_eq form
    have starts : "<p>".toList <+: startTag form.name ++ (content ++ endTag form.name ++ t) := by
      refine ⟨rest, ?_⟩
      rw [← Text.afterStart?_eq_some.mp found, whole, element]
      simp
    exact absurd (List.prefix_of_prefix_length_le starts (List.prefix_append _ _) long) differs

/-- Only a paragraph ends with the end tag of a paragraph. -/
theorem endsWith_markup {form : Form} (other : form.name ≠ "p".toList) (t : Text) :
    Text.endsWith (t ++ form.markup) "</p>" = false := by
  obtain ⟨-, ⟨long, differs⟩, -⟩ := tags_of_other form.name (name_mem_elements form) other
  by_contra ends
  rw [Bool.not_eq_false, Text.endsWith, List.isSuffixOf_iff_suffix] at ends
  obtain ⟨content, whole⟩ := exists_markup_eq form
  have last : endTag form.name <:+ t ++ form.markup := by
    rw [whole, element]
    exact (List.suffix_append _ _).trans (List.suffix_append _ _)
  exact absurd (List.suffix_of_suffix_length_le ends last long) differs

theorem ends_markup (form : Form) : form.markup.head? = some '<' ∧ form.markup.getLast? = some '>' := by
  obtain ⟨content, whole⟩ := exists_markup_eq form
  rw [whole, element]
  constructor
  · rfl
  · rw [endTag, ← List.append_assoc, List.getLast?_append]
    rfl

/-- Elements start and end with brackets, so only the last line feed is trimmed. -/
theorem trim_elements (es : List Element) :
    ∃ es' : List Element, Text.trim (es.flatMap Element.markup) = es'.flatMap Element.markup
      ∧ es'.map Element.form = es.map Element.form ∧ ∀ e ∈ es'.getLast?, e.feed = false := by
  rcases List.eq_nil_or_concat' es with rfl | ⟨front, e, rfl⟩
  · exact ⟨[], rfl, rfl, by simp⟩
  · refine ⟨front ++ [⟨e.form, false⟩], ?_, by simp, by simp⟩
    have tight : Text.Tight (front.flatMap Element.markup ++ e.form.markup) := by
      constructor
      · have first : (front.flatMap Element.markup ++ e.form.markup).head? = some '<' := by
          cases front with
          | nil => exact (ends_markup e.form).1
          | cons first front => simp [Element.markup, (ends_markup first.form).1]
        rw [first]
        decide
      · rw [List.getLast?_append, (ends_markup e.form).2, Option.some_or]
        decide
    have content : front.flatMap Element.markup ++ e.form.markup ≠ [] := by
      intro empty
      have last := (ends_markup e.form).2
      rw [(List.append_eq_nil_iff.mp empty).2] at last
      cases last
    have feed : ∀ c ∈ if e.feed then ['\n'] else [], isBlank c = true := by cases e.feed <;> decide
    have trimmed := Text.trim_append_blanks tight content feed
    simpa [Element.markup] using trimmed

/-! ## Paragraphs inside -/

theorem infix_of_mem_names {form : Form} {name : Text} (listed : name ∈ form.names) : startTag name <:+: form.markup := by
  have whole : ∀ content, startTag name <:+: element name content := by
    intro content
    exact ((List.prefix_append _ _).trans (List.prefix_append _ _)).isInfix
  cases form with
  | container kind first more =>
    simp only [Form.names, List.mem_cons, List.not_mem_nil, or_false] at listed
    rcases listed with rfl | rfl
    · exact whole _
    · refine ⟨startTag kind.outer, first.text ++ endTag kind.inner ++ Form.items kind more ++ endTag kind.outer, ?_⟩
      simp [Form.markup, Form.items, element]
  | fenced content => exact List.mem_singleton.mp listed ▸ whole _
  | heading level title => exact List.mem_singleton.mp listed ▸ whole _
  | paragraph content => exact List.mem_singleton.mp listed ▸ whole _

/-- A tag of prose other than the start tag of a paragraph. -/
def IsOther (tag : Text) : Prop := tag ∈ tags ∧ tag ≠ "<p>".toList

/-- The start tag of a paragraph stands in elements, whatever other tags come before, exactly if one of the elements is a
    paragraph or holds one. -/
theorem includes_elements {front : Text} (others : Composed IsOther front) (es : List Element) :
    Text.includes (front ++ es.flatMap Element.markup) "<p>" = true ↔ ∃ e ∈ es, "p".toList ∈ e.form.names := by
  rw [Text.includes_iff_infix]
  constructor
  · intro inside
    by_contra none
    -- without paragraphs the markup is composed of other tags
    have composed : Composed IsOther (es.flatMap Element.markup) := by
      refine composed_flatMap fun e member => composed_markup fun name listed => ?_
      have known := mem_elements_of_mem_names listed
      obtain ⟨start, stop⟩ := tags_of_mem_elements known
      obtain ⟨⟨-, starts⟩, -, stops⟩ := tags_of_other name known fun same => none ⟨e, member, same ▸ listed⟩
      exact ⟨⟨start, fun same => starts (same ▸ List.prefix_rfl)⟩, stop, stops⟩
    have bracketed : ∀ tag, IsOther tag → Bracketed tag := fun tag kind => bracketed_of_mem_tags tag kind.1
    have found := Composed.tag_of_infix bracketed (others.append composed) (by decide) inside
    exact found.2 rfl
  · rintro ⟨e, member, listed⟩
    have here : startTag "p" <:+: e.markup := (infix_of_mem_names listed).trans (List.prefix_append _ _).isInfix
    have inside : e.markup <:+: es.flatMap Element.markup := List.infix_of_mem_flatten (List.mem_map_of_mem member)
    exact (here.trans inside).trans (List.suffix_append _ _).isInfix

/-! ## Taking off a paragraph -/

theorem wellNested_passive (content : Passive) : WellNested content.text := by
  rw [WellNested, tagsFrom_of_plain content.plain]
  rfl

theorem not_wellNested_unopened (content : Passive) (t : Text) : ¬ WellNested (content.text ++ (endTag "p" ++ t)) := by
  have stop : endTag "p" ∈ tags := (tags_of_mem_elements (by decide)).2
  rw [WellNested, tagsFrom_plain content.plain, tagsFrom_endTag bracketed_of_mem_tags stop]
  simp [enter]

/-- What is left of a paragraph without its start tag, with what follows it. -/
theorem unwrap_rest (content : Passive) {feed : Bool} {rest : List Element}
    (settled : ∀ e ∈ ((⟨.paragraph content, feed⟩ : Element) :: rest).getLast?, e.feed = false)
    (none : ∀ e ∈ rest, "p".toList ∉ e.form.names) :
    let left := content.text ++ (endTag "p" ++ ((if feed then ['\n'] else []) ++ rest.flatMap Element.markup))
    (if Text.endsWith left "</p>" then left.take (left.length - 4) else left)
      = if rest = [] then content.text else left := by
  intro left
  rcases List.eq_nil_or_concat' rest with rfl | ⟨front, ⟨form, lastFeed⟩, rfl⟩
  · obtain rfl : feed = false := settled ⟨.paragraph content, feed⟩ rfl
    have whole : left = content.text ++ endTag "p" := by simp [left]
    have ends : Text.endsWith left "</p>" = true := by
      rw [whole, Text.endsWith, List.isSuffixOf_iff_suffix]
      exact List.suffix_append _ _
    rw [if_pos ends, if_pos rfl, whole]
    simp [endTag]
  · obtain rfl : lastFeed = false := by
      apply settled ⟨form, lastFeed⟩
      rw [← List.cons_append, List.getLast?_concat]
      rfl
    have other : form.name ≠ "p".toList := by
      intro same
      exact none ⟨form, false⟩ (by simp) (same ▸ name_mem_names form)
    have whole : left = content.text ++ (endTag "p" ++ ((if feed then ['\n'] else []) ++ front.flatMap Element.markup))
        ++ form.markup := by
      simp [left, Element.markup]
    have continues : Text.endsWith left "</p>" = false := by
      rw [whole]
      exact endsWith_markup other _
    rw [continues, if_neg Bool.false_ne_true, if_neg (by simp)]

section Unwrap

variable {html : Text} {content : Passive} {feed : Bool} {rest : List Element}

/-- What is taken off a paragraph and whatever follows it. -/
theorem unwrap_paragraph (trimmed : html.trim = ((⟨.paragraph content, feed⟩ : Element) :: rest).flatMap Element.markup) :
    let left := content.text ++ (endTag "p" ++ ((if feed then ['\n'] else []) ++ rest.flatMap Element.markup))
    unwrap html = if Text.includes left "<p>" then html.trim
      else if Text.endsWith left "</p>" then left.take (left.length - 4) else left := by
  intro left
  have split : html.trim = "<p>" ++ left := by
    rw [trimmed]
    simp [left, Element.markup, Form.markup, element, startTag]
  unfold unwrap
  dsimp only
  rw [Text.afterStart?_eq_some.mpr split]

theorem includes_rest : Text.includes
      (content.text ++ (endTag "p" ++ ((if feed then ['\n'] else []) ++ rest.flatMap Element.markup))) "<p>" = true
    ↔ ∃ e ∈ rest, "p".toList ∈ e.form.names := by
  have others : Composed IsOther (content.text ++ (endTag "p" ++ if feed then ['\n'] else [])) := by
    refine (composed_of_plain content.plain).append ((composed_of_tag ?_).append (composed_of_plain ?_))
    · exact ⟨(tags_of_mem_elements (by decide)).2, by decide⟩
    · cases feed <;> decide
  have includes := includes_elements others rest
  rwa [List.append_assoc, List.append_assoc] at includes

theorem unwrap_of_other {form : Form} (other : form.name ≠ "p".toList)
    (trimmed : html.trim = ((⟨form, feed⟩ : Element) :: rest).flatMap Element.markup) : unwrap html = html.trim := by
  have unopened : Text.afterStart? "<p>" html.trim = none := by
    rw [trimmed, List.flatMap_cons, Element.markup, List.append_assoc]
    exact afterStart?_markup other _
  unfold unwrap
  dsimp only
  rw [unopened]

/-- A paragraph is taken off as it should be, or nothing is, unless it is followed by something without a paragraph. -/
theorem wellNested_unwrap_paragraph
    (trimmed : html.trim = ((⟨.paragraph content, feed⟩ : Element) :: rest).flatMap Element.markup)
    (settled : ∀ e ∈ ((⟨.paragraph content, feed⟩ : Element) :: rest).getLast?, e.feed = false) :
    WellNested (unwrap html) ↔ ¬ (rest ≠ [] ∧ ∀ e ∈ rest, "p".toList ∉ e.form.names) := by
  rw [unwrap_paragraph trimmed]
  by_cases more : ∃ e ∈ rest, "p".toList ∈ e.form.names
  · rw [if_pos (includes_rest.mpr more), trimmed]
    refine iff_of_true (wellNested_elements _) ?_
    rintro ⟨-, none⟩
    obtain ⟨e, member, listed⟩ := more
    exact none e member listed
  · have none : ∀ e ∈ rest, "p".toList ∉ e.form.names := fun e member listed => more ⟨e, member, listed⟩
    rw [if_neg (includes_rest.not.mpr more), unwrap_rest content settled none]
    by_cases alone : rest = []
    · rw [if_pos alone]
      exact iff_of_true (wellNested_passive content) fun lone => lone.1 alone
    · rw [if_neg alone]
      exact iff_of_false (not_wellNested_unopened content _) fun spared => spared ⟨alone, none⟩

end Unwrap

/-- Markup without the paragraph around it is well nested unless the paragraph was not around it. -/
theorem unwrap_elements {html : Text} {es : List Element} (trimmed : html.trim = es.flatMap Element.markup)
    (settled : ∀ e ∈ es.getLast?, e.feed = false) :
    WellNested (unwrap html) ↔ ¬ LoneParagraph (es.map Element.form) := by
  cases es with
  | nil =>
    have nothing : unwrap html = [] := by rw [unwrap, trimmed]; rfl
    rw [nothing]
    refine iff_of_true rfl ?_
    rintro ⟨content, rest, same, -⟩
    cases same
  | cons e rest =>
    obtain ⟨form, feed⟩ := e
    by_cases first : form.name = "p".toList
    · obtain ⟨content, rfl⟩ := eq_paragraph_of_name first
      rw [List.map_cons, loneParagraph_cons, ne_eq, List.map_eq_nil_iff, List.forall_mem_map]
      exact wellNested_unwrap_paragraph trimmed settled
    · rw [unwrap_of_other first trimmed, trimmed]
      refine iff_of_true (wellNested_elements _) ?_
      rintro ⟨content, forms, same, -⟩
      obtain ⟨rfl, -⟩ := List.cons.inj same
      exact first rfl

theorem convert_eq_unwrap (target text : Text) : convert render true target text = unwrap (render text.trim) := by
  unfold convert
  dsimp only
  by_cases empty : text.trim.isEmpty = true
  · rw [if_pos empty, List.isEmpty_iff.mp empty]
    rfl
  · rw [if_neg empty, if_pos rfl, retarget_render]

/-- Prose in a cell is well nested exactly if it does not start with a paragraph that is followed by something but by no
    other paragraph. -/
theorem convert_wellNested (target text : Text) :
    (∃ es : List Element, render text.trim = es.flatMap Element.markup)
    ∧ ∀ es : List Element, render text.trim = es.flatMap Element.markup →
      (WellNested (convert render true target text) ↔ ¬ LoneParagraph (es.map Element.form)) := by
  refine ⟨exists_elements text.trim, fun es whole => ?_⟩
  obtain ⟨trimmed, same, forms, settled⟩ := trim_elements es
  rw [convert_eq_unwrap, ← forms]
  apply unwrap_elements _ settled
  rw [whole, same]

/-- A paragraph with a list after it loses its start tag and keeps its end tag. -/
theorem convert_wellNested_list :
    let text : Text := "one\n- two"
    convert render true [] text = "one</p>\n<ul><li>two</li></ul>".toList
    ∧ ¬ WellNested (convert render true [] text) := by
  intro text
  let es : List Element := [⟨.paragraph (.ofText "one"), true⟩, ⟨.container .list (.ofText "two") [], false⟩]
  refine ⟨by decide +kernel, ?_⟩
  rw [(convert_wellNested [] text).2 es (by decide +kernel), not_not]
  exact ⟨_, _, rfl, by simp, by decide⟩

end Prose

end Marginalia
