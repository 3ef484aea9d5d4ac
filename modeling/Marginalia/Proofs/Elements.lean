import Marginalia.Proofs.Nesting
import Marginalia.Proofs.ProseTags

/-!
# The elements of prose

Markup of prose is a sequence of whole elements: lists, quotations, fenced text, headings and paragraphs. At every line
one element is open at most. What is put out for the line ends that element or goes on with it, so that the text from
any line on ends the open element first, and whole elements follow.
-/

namespace Marginalia

namespace Markup

/-- Text without the characters that markup is made of. -/
structure Passive where
  text : Text
  passive : ∀ c ∈ text, isActive c = false

namespace Passive

/-- Text is escaped. -/
def ofText (t : Text) : Passive := ⟨escape t, fun _ => isActive_of_mem_escape⟩

def nil : Passive := ⟨[], by simp⟩

/-- A line that is kept as it is, before more of such text. -/
def addLine (line : Text) (p : Passive) : Passive where
  text := escape line ++ "\n" ++ p.text
  passive c member := by
    rw [List.mem_append, List.mem_append] at member
    rcases member with (first | feed) | later
    · exact isActive_of_mem_escape first
    · obtain rfl := List.mem_singleton.mp feed
      rfl
    · exact p.passive c later

theorem plain (p : Passive) : Plain p.text := by
  intro c member
  have passive := p.passive c member
  simp only [isActive, Bool.or_eq_false_iff, beq_eq_false_iff_ne] at passive
  exact ⟨passive.1.1.1, passive.1.1.2, passive.1.2⟩

end Passive

end Markup

namespace Prose

open Markup

/-! ## Elements -/

/-- The elements that hold items. -/
inductive Container where
  | list
  | quotation
  deriving DecidableEq, Repr

namespace Container

/-- The name of the element. -/
def outer : Container → Text
  | list => "ul"
  | quotation => "blockquote"

/-- The name of its items. -/
def inner : Container → Text
  | list => "li"
  | quotation => "p"

end Container

/-- The forms that an element can have. -/
inductive Form where
  /-- At least one item in a container. -/
  | container (kind : Container) (first : Passive) (more : List Passive)
  | fenced (content : Passive)
  /-- A heading; the levels count from zero here and from one in the markup. -/
  | heading (level : Fin 6) (title : Passive)
  | paragraph (content : Passive)

namespace Form

/-- The name of a heading. -/
def headingName (level : Fin 6) : Text := 'h' :: decimal (level + 1)

/-- The names of the tags of an element. -/
def names : Form → List Text
  | container kind _ _ => [kind.outer, kind.inner]
  | fenced _ => ["pre"]
  | heading level _ => [headingName level]
  | paragraph _ => ["p"]

/-- The insides of the tags of an element that holds text only. -/
def tagPair (name : Text) : List Text := [name, '/' :: name]

/-- The insides of the tags of an element. -/
def tags : Form → List Text
  | container kind first more =>
    kind.outer :: ((first :: more).flatMap (fun _ => tagPair kind.inner) ++ ['/' :: kind.outer])
  | fenced _ => tagPair "pre"
  | heading level _ => tagPair (headingName level)
  | paragraph _ => tagPair "p"

/-- Items one after the other. -/
def items (kind : Container) (contents : List Passive) : Text :=
  contents.flatMap fun content => element kind.inner content.text

/-- The markup of an element. -/
def markup : Form → Text
  | container kind first more => element kind.outer (items kind (first :: more))
  | fenced content => element "pre" content.text
  | heading level title => element (headingName level) title.text
  | paragraph content => element "p" content.text

end Form

/-- An element, and whether a line feed follows it. -/
structure Element where
  form : Form
  feed : Bool

/-- The markup of an element with the line feed that may follow it. -/
def Element.markup (e : Element) : Text := e.form.markup ++ if e.feed then ['\n'] else []

/-! ## What may follow a line -/

/-- What is open at a line. -/
inductive Opened where
  | nothing
  | container (kind : Container)
  | fence

/-- The renderer stands where the given element is open, and nothing else. -/
def StandsIn (s : State) : Opened → Prop
  | .nothing => s.containers = [] ∧ s.inFence = false
  | .container kind => s.containers = [kind.outer] ∧ s.inFence = false
  | .fence => s.containers = ["pre".toList] ∧ s.inFence = true ∧ s.paragraph = none

/-- What a text looks like that goes on where an element is open: it ends the element, and whole elements follow. -/
def Completes : Opened → Text → Prop
  | .nothing, t => ∃ rest : List Element, t = rest.flatMap Element.markup
  | .container kind, t => ∃ (contents : List Passive) (rest : List Element),
    t = Form.items kind contents ++ (endTag kind.outer ++ rest.flatMap Element.markup)
  | .fence, t => ∃ (content : Passive) (feed : Bool) (rest : List Element),
    t = content.text ++ (endTag "pre" ++ ((if feed then ['\n'] else []) ++ rest.flatMap Element.markup))

/-- What is put out where an element is open leads to a state from which the text can be completed. -/
def Leads (o : Opened) (r : Text × State) : Prop :=
  ∃ next, StandsIn r.2 next ∧ ∀ rest, Completes next rest → Completes o (r.1 ++ rest)

theorem StandsIn.ne_fence {s : State} {o : Opened} (stands : StandsIn s o) (free : s.inFence = false) : o ≠ .fence := by
  rintro rfl
  rw [stands.2.1] at free
  cases free

theorem StandsIn.eq_fence {s : State} {o : Opened} (stands : StandsIn s o) (inside : s.inFence = true) : o = .fence := by
  cases o with
  | nothing => exact absurd (stands.2.symm.trans inside) Bool.false_ne_true
  | container kind => exact absurd (stands.2.symm.trans inside) Bool.false_ne_true
  | fence => rfl

theorem Leads.trans {o : Opened} {a b : Text × State} (first : Leads o a)
    (second : ∀ next, StandsIn a.2 next → Leads next b) : Leads o (a.1 ++ b.1, b.2) := by
  obtain ⟨middle, standsThere, completes⟩ := first
  obtain ⟨last, standsLast, completesToo⟩ := second middle standsThere
  refine ⟨last, standsLast, fun rest completed => ?_⟩
  rw [List.append_assoc]
  exact completes _ (completesToo rest completed)

theorem flush_settled (s : State) : (flush s).2.paragraph = none ∧ (flush s).2.inFence = s.inFence := by
  unfold flush
  cases waiting : s.paragraph with
  | none => exact ⟨waiting, rfl⟩
  | some t => exact ⟨rfl, rfl⟩

section Lines

variable {s : State} {o : Opened} (stands : StandsIn s o) (free : s.inFence = false)
include stands free

/-- Where no fence is open, an element can follow once everything is closed. -/
theorem completes_closeAll (rest : List Element) : Completes o (s.containers.closeAll ++ rest.flatMap Element.markup) := by
  cases o with
  | nothing =>
    rw [stands.1]
    exact ⟨rest, rfl⟩
  | container kind =>
    rw [stands.1]
    exact ⟨[], rest, by simp [Form.items, Containers.closeAll]⟩
  | fence => exact absurd rfl (stands.ne_fence free)

/-- A whole element is put out after everything is closed. -/
theorem leads_element {e : Element} {out : Text} {next : State} (whole : out = s.containers.closeAll ++ e.markup)
    (closed : next.containers = []) (outside : next.inFence = false) : Leads o (out, next) := by
  refine ⟨.nothing, ⟨closed, outside⟩, ?_⟩
  rintro _ ⟨rest, rfl⟩
  have longer := completes_closeAll stands free (e :: rest)
  rwa [List.flatMap_cons, ← List.append_assoc, ← whole] at longer

theorem leads_flush : Leads o (flush s) := by
  unfold flush
  cases waiting : s.paragraph with
  | none => exact ⟨o, stands, fun _ completed => completed⟩
  | some t =>
    dsimp only
    refine leads_element stands free (e := ⟨.paragraph (.ofText t), true⟩) ?_ rfl free
    simp [Element.markup, Form.markup, Passive.ofText, element, startTag, endTag]

/-- An item goes into the container that is open if that is of its kind, and into a new one otherwise. -/
theorem leads_item (kind : Container) (content : Text) : Leads o (item s kind.outer kind.inner content) := by
  unfold item Containers.openTag
  by_cases already : s.containers.head? = some kind.outer
  · rw [if_pos already]
    cases o with
    | nothing =>
      rw [stands.1] at already
      cases already
    | fence => exact absurd rfl (stands.ne_fence free)
    | container other =>
      obtain rfl : other = kind := by
        rw [stands.1] at already
        revert already
        cases other <;> cases kind <;> decide
      refine ⟨.container other, stands, ?_⟩
      rintro _ ⟨contents, rest, rfl⟩
      exact ⟨.ofText content.trim :: contents, rest, by simp [Form.items, element, Passive.ofText]⟩
  · rw [if_neg already]
    refine ⟨.container kind, ⟨rfl, free⟩, ?_⟩
    rintro _ ⟨contents, rest, rfl⟩
    have longer := completes_closeAll stands free (⟨.container kind (.ofText content.trim) contents, false⟩ :: rest)
    simpa [Element.markup, Form.markup, Form.items, element, Passive.ofText] using longer

theorem leads_fence (settled : s.paragraph = none) :
    Leads o ((s.containers.openTag "pre").1, { s with containers := (s.containers.openTag "pre").2, inFence := true }) := by
  have unopened : s.containers.head? ≠ some "pre".toList := by
    cases o with
    | nothing =>
      rw [stands.1]
      decide
    | container kind =>
      rw [stands.1]
      cases kind <;> decide
    | fence => exact absurd rfl (stands.ne_fence free)
  rw [Containers.openTag, if_neg unopened]
  refine ⟨.fence, ⟨rfl, rfl, settled⟩, ?_⟩
  rintro _ ⟨content, feed, rest, rfl⟩
  have longer := completes_closeAll stands free (⟨.fenced content, feed⟩ :: rest)
  simpa [Element.markup, Form.markup, element] using longer

/-- Nothing is put out for a paragraph before it is finished. -/
theorem leads_paragraph (t : Text) : Leads o ([], { s with paragraph := some t }) := by
  refine ⟨o, ?_, fun _ completed => completed⟩
  cases o with
  | nothing => exact stands
  | container kind => exact stands
  | fence => exact absurd rfl (stands.ne_fence free)

omit stands free in
theorem exists_level {line title : Text} {level : Nat} (heading : heading? line = some (level, title)) :
    ∃ n : Fin 6, level = n + 1 := by
  unfold heading? at heading
  dsimp only at heading
  split at heading
  · split at heading
    · next bounds =>
      obtain ⟨rfl, -⟩ := Prod.mk.inj (Option.some.inj heading)
      simp only [Bool.and_eq_true, decide_eq_true_eq] at bounds
      refine ⟨⟨(line.takeWhile (· == '#')).length - 1, by omega⟩, ?_⟩
      exact (Nat.sub_add_cancel bounds.1).symm
    · cases heading
  · cases heading

theorem leads_startLine (settled : s.paragraph = none) (line : Text) : Leads o (startLine s line) := by
  have stays : Leads o ([], s) := ⟨o, stands, fun _ completed => completed⟩
  unfold startLine
  by_cases isFence : line = fence
  · rw [if_pos isFence]
    exact leads_fence stands free settled
  · rw [if_neg isFence]
    cases line with
    | nil => exact stays
    | cons c rest =>
      dsimp only
      by_cases listed : (decide (c = '-') || decide (c = '*')) = true
      · rw [if_pos listed]
        exact leads_item stands free .list rest
      · rw [if_neg listed]
        by_cases quoted : c = '>'
        · rw [if_pos quoted]
          exact leads_item stands free .quotation rest
        · rw [if_neg quoted]
          cases found : heading? (c :: rest) with
          | none => exact leads_paragraph stands free (c :: rest)
          | some heading =>
            obtain ⟨level, title⟩ := heading
            obtain ⟨n, rfl⟩ := exists_level found
            dsimp only
            refine leads_element stands free (e := ⟨.heading n (.ofText (Text.trim title)), true⟩) ?_ rfl free
            simp [Element.markup, Form.markup, Form.headingName, Passive.ofText, element]

omit free in
theorem leads_fencedLine (inside : s.inFence = true) (raw : Text) : Leads o (fencedLine s raw) := by
  obtain rfl := stands.eq_fence inside
  unfold fencedLine
  by_cases isFence : raw.trim = fence
  · rw [if_pos isFence, stands.1]
    refine ⟨.nothing, ⟨rfl, rfl⟩, ?_⟩
    rintro _ ⟨rest, rfl⟩
    exact ⟨.nil, true, rest, by simp [Containers.close, Passive.nil]⟩
  · rw [if_neg isFence]
    refine ⟨.fence, stands, ?_⟩
    rintro _ ⟨content, feed, rest, rfl⟩
    exact ⟨.addLine raw content, feed, rest, by simp [Passive.addLine]⟩

omit free in
theorem leads_step (raw : Text) : Leads o (step s raw) := by
  unfold step
  by_cases inside : s.inFence = true
  · rw [if_pos inside]
    exact leads_fencedLine stands inside raw
  · rw [if_neg inside]
    have free : s.inFence = false := by simpa using inside
    dsimp only
    cases waiting : s.paragraph with
    | none => exact leads_startLine stands free waiting raw.trim
    | some t =>
      dsimp only
      by_cases ends : (endsSentence t || isSpecial raw.trim) = true
      · rw [if_pos ends]
        obtain ⟨settled, still⟩ := flush_settled s
        refine (leads_flush stands free).trans fun next standsThere => ?_
        exact leads_startLine standsThere (still.trans free) settled raw.trim
      · rw [if_neg ends]
        by_cases blank : raw.trim.isEmpty = true
        · rw [if_pos blank]
          exact leads_flush stands free
        · rw [if_neg blank]
          exact leads_paragraph stands free _

omit free in
/-- From any line on, the open element is ended and whole elements follow. -/
theorem completes_run (lines : List Text) : Completes o (run s lines) := by
  induction lines generalizing s o with
  | nil =>
    by_cases inside : s.inFence = true
    · obtain rfl := stands.eq_fence inside
      obtain ⟨containers, -, settled⟩ := stands
      refine ⟨.nil, false, [], ?_⟩
      simp [run, flush, settled, containers, Containers.closeAll, Passive.nil]
    · have free : s.inFence = false := by simpa using inside
      obtain ⟨next, standsThere, completes⟩ := leads_flush stands free
      have closed := completes_closeAll standsThere ((flush_settled s).2.trans free) []
      rw [List.flatMap_nil, List.append_nil] at closed
      exact completes _ closed
  | cons line rest ih =>
    obtain ⟨next, standsThere, completes⟩ := leads_step stands line
    exact completes _ (ih standsThere)

end Lines

theorem exists_elements (t : Text) : ∃ elements : List Element, render t = elements.flatMap Element.markup :=
  completes_run (o := .nothing) ⟨rfl, rfl⟩ t.lines

/-! ## The tags of elements -/

theorem mem_elements_of_mem_names {form : Form} {name : Text} (member : name ∈ form.names) : name ∈ elements := by
  cases form with
  | container kind first more =>
    revert member
    cases kind <;> (simp only [Form.names]; revert name; decide)
  | fenced content => exact List.mem_singleton.mp member ▸ by decide
  | heading level title =>
    have each : ∀ level : Fin 6, Form.headingName level ∈ elements := by decide +kernel
    exact List.mem_singleton.mp member ▸ each level
  | paragraph content => exact List.mem_singleton.mp member ▸ by decide

theorem composed_items {kinds : Text → Prop} {kind : Container}
    (inner : kinds (startTag kind.inner) ∧ kinds (endTag kind.inner)) (contents : List Passive) :
    Composed kinds (Form.items kind contents) :=
  composed_flatMap fun content _ => composed_around inner.1 inner.2 (composed_of_plain content.plain)

/-- An element is composed of plain text and of tags with its names. -/
theorem composed_form {kinds : Text → Prop} {form : Form}
    (each : ∀ name ∈ form.names, kinds (startTag name) ∧ kinds (endTag name)) : Composed kinds form.markup := by
  cases form with
  | container kind first more =>
    obtain ⟨start, stop⟩ := each kind.outer (by simp [Form.names])
    exact composed_around start stop (composed_items (each kind.inner (by simp [Form.names])) (first :: more))
  | fenced content =>
    obtain ⟨start, stop⟩ := each "pre" (by simp [Form.names])
    exact composed_around start stop (composed_of_plain content.plain)
  | heading level title =>
    obtain ⟨start, stop⟩ := each (Form.headingName level) (by simp [Form.names])
    exact composed_around start stop (composed_of_plain title.plain)
  | paragraph content =>
    obtain ⟨start, stop⟩ := each "p" (by simp [Form.names])
    exact composed_around start stop (composed_of_plain content.plain)

theorem composed_markup {kinds : Text → Prop} {e : Element}
    (each : ∀ name ∈ e.form.names, kinds (startTag name) ∧ kinds (endTag name)) : Composed kinds e.markup := by
  refine (composed_form each).append (composed_of_plain ?_)
  cases e.feed <;> decide

theorem tags_of_mem_elements {name : Text} (known : name ∈ elements) : startTag name ∈ tags ∧ endTag name ∈ tags :=
  ⟨List.mem_append_left _ (List.mem_map_of_mem known), List.mem_append_right _ (List.mem_map_of_mem known)⟩

theorem composed_element {e : Element} : Composed (· ∈ tags) e.markup :=
  composed_markup fun _ member => tags_of_mem_elements (mem_elements_of_mem_names member)

theorem tagsFrom_single {name : Text} (known : name ∈ elements) (content : Passive) :
    tagsFrom none (element name content.text) = Form.tagPair name := by
  obtain ⟨start, stop⟩ := tags_of_mem_elements known
  rw [tagsFrom_element bracketed_of_mem_tags start stop (composed_of_plain content.plain),
    tagsFrom_of_plain content.plain]
  rfl

theorem tagsFrom_form (form : Form) : tagsFrom none form.markup = form.tags := by
  have known : ∀ name ∈ form.names, name ∈ elements := fun _ member => mem_elements_of_mem_names member
  cases form with
  | container kind first more =>
    obtain ⟨start, stop⟩ := tags_of_mem_elements (known kind.outer (by simp [Form.names]))
    have inner := known kind.inner (by simp [Form.names])
    have each : ∀ content ∈ first :: more, Composed (· ∈ tags) (element kind.inner content.text) :=
      fun content _ => composed_around (tags_of_mem_elements inner).1 (tags_of_mem_elements inner).2
        (composed_of_plain content.plain)
    rw [Form.markup, Form.items, tagsFrom_element bracketed_of_mem_tags start stop (composed_flatMap each),
      tagsFrom_flatMap bracketed_of_mem_tags each]
    simp only [tagsFrom_single inner, Form.tags]
  | fenced content => exact tagsFrom_single (known _ (by simp [Form.names])) content
  | heading level title => exact tagsFrom_single (known _ (by simp [Form.names])) title
  | paragraph content => exact tagsFrom_single (known _ (by simp [Form.names])) content

theorem tagsFrom_markup (e : Element) : tagsFrom none e.markup = e.form.tags := by
  have plain : Plain (if e.feed then ['\n'] else []) := by cases e.feed <;> decide
  have composed : Composed (· ∈ tags) e.form.markup :=
    composed_form fun _ member => tags_of_mem_elements (mem_elements_of_mem_names member)
  rw [Element.markup, tagsFrom_append bracketed_of_mem_tags composed, tagsFrom_of_plain plain, tagsFrom_form,
    List.append_nil]

theorem tagsFrom_elements (es : List Element) :
    tagsFrom none (es.flatMap Element.markup) = es.flatMap fun e => e.form.tags := by
  rw [tagsFrom_flatMap bracketed_of_mem_tags fun e _ => composed_element]
  simp only [tagsFrom_markup]

/-! ## Nesting -/

theorem isName_of_mem_elements : ∀ name ∈ elements, IsName name := by decide +kernel

theorem closed_tagPair {name : Text} (known : name ∈ elements) : Closed (Form.tagPair name) :=
  closed_nil.around (isName_of_mem_elements name known)

/-- An element closes all that it opens. -/
theorem closed_tags (form : Form) : Closed form.tags := by
  have known : ∀ name ∈ form.names, name ∈ elements := fun _ member => mem_elements_of_mem_names member
  cases form with
  | container kind first more =>
    apply Closed.around (isName_of_mem_elements _ (known kind.outer (by simp [Form.names])))
    exact closed_flatMap fun _ _ => closed_tagPair (known kind.inner (by simp [Form.names]))
  | fenced content => exact closed_tagPair (known _ (by simp [Form.names]))
  | heading level title => exact closed_tagPair (known _ (by simp [Form.names]))
  | paragraph content => exact closed_tagPair (known _ (by simp [Form.names]))

theorem closed_elements (es : List Element) : Closed (tagsFrom none (es.flatMap Element.markup)) := by
  rw [tagsFrom_elements]
  exact closed_flatMap fun e _ => closed_tags e.form

theorem wellNested_elements (es : List Element) : WellNested (es.flatMap Element.markup) := closed_elements es []

/-- The elements that hold items or text kept as it is. -/
def containers : List Text := ["ul", "blockquote", "pre"]

/-- The tag of a container. -/
def isContainerTag (tag : Text) : Bool := containers.any fun name => tag == name || tag == '/' :: name

/-- There is no container in an item, so the tags of containers in an element are a pair, or there are none. -/
theorem exists_containers (form : Form) :
    ∃ names : List Text, form.tags.filter isContainerTag = names.flatMap Form.tagPair := by
  cases form with
  | container kind first more =>
    have outer : isContainerTag kind.outer = true ∧ isContainerTag ('/' :: kind.outer) = true := by cases kind <;> decide
    have inner : (Form.tagPair kind.inner).filter isContainerTag = [] := by cases kind <;> decide
    have items : ((first :: more).flatMap fun _ => Form.tagPair kind.inner).filter isContainerTag = [] := by
      rw [List.filter_flatMap, inner]
      simp
    refine ⟨[kind.outer], ?_⟩
    rw [Form.tags, List.filter_cons_of_pos outer.1, List.filter_append, items, List.nil_append,
      List.filter_cons_of_pos outer.2]
    rfl
  | fenced content => exact ⟨["pre"], by rw [Form.tags]; decide⟩
  | heading level title =>
    have each : ∀ level : Fin 6, (Form.tagPair (Form.headingName level)).filter isContainerTag = [] := by decide +kernel
    exact ⟨[], each level⟩
  | paragraph content => exact ⟨[], by rw [Form.tags]; decide⟩

theorem exists_containers_elements (es : List Element) :
    ∃ names : List Text, (es.flatMap fun e => e.form.tags).filter isContainerTag = names.flatMap Form.tagPair := by
  induction es with
  | nil => exact ⟨[], rfl⟩
  | cons e es ih =>
    obtain ⟨first, here⟩ := exists_containers e.form
    obtain ⟨others, later⟩ := ih
    refine ⟨first ++ others, ?_⟩
    rw [List.flatMap_cons, List.filter_append, here, later, List.flatMap_append]

/-- Prose is rendered as whole elements: containers with at least one item, fenced text, headings and paragraphs, each
    with or without a line feed after it and with passive text inside. So every element that is opened is closed, and
    containers come one after the other. -/
theorem render_elements (t : Text) :
    ∃ es : List Element, render t = es.flatMap Element.markup ∧ WellNested (render t)
      ∧ ∃ names : List Text, (tagsFrom none (render t)).filter isContainerTag = names.flatMap Form.tagPair := by
  obtain ⟨es, whole⟩ := exists_elements t
  refine ⟨es, whole, ?_, ?_⟩
  · rw [whole]
    exact wellNested_elements es
  · rw [whole, tagsFrom_elements]
    exact exists_containers_elements es

end Prose

end Marginalia
