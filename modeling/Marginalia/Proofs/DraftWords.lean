import Marginalia.Proofs.Drafts
import Marginalia.Proofs.Words
import Mathlib.Data.List.ReduceOption
import Mathlib.Logic.Function.Basic

/-!
# Where the words of a comment go

Sorting the lines of a comment loses no word, stores none twice and changes no order. A line that is not blank puts
its text at one of three places, as a text of its own or at the end of the last text there, and a blank line puts
nothing. So the words of all lines are dealt out to the summary, the description and the tags.
-/

namespace Marginalia

/-! ## Interleavings -/

section Interleaving

variable {ι α : Type} [DecidableEq ι] {whole : List α} {parts : ι → List α}

/-- Each element of a list stands in one of the parts, and the parts hold nothing else and keep the order. -/
def Interleaves (whole : List α) (parts : ι → List α) : Prop :=
  ∃ dealt : List (ι × α), dealt.map Prod.snd = whole ∧ ∀ i, (dealt.filter (·.1 = i)).map Prod.snd = parts i

theorem interleaves_nil : Interleaves ([] : List α) fun _ : ι => [] := ⟨[], rfl, fun _ => rfl⟩

theorem Interleaves.append (dealt : Interleaves whole parts) (i : ι) (more : List α) :
    Interleaves (whole ++ more) (Function.update parts i (parts i ++ more)) := by
  obtain ⟨pairs, all, each⟩ := dealt
  refine ⟨pairs ++ more.map (i, ·), by simp [all, Function.comp_def], fun j => ?_⟩
  rw [List.filter_append, List.map_append, each j]
  by_cases here : j = i
  · subst here
    simp [List.filter_map, Function.comp_def]
  · simp [here, Ne.symm here, List.filter_map, Function.comp_def]

end Interleaving

namespace Block.Draft

/-! ## Places -/

/-- Where a line of a comment can go. -/
inductive Place where
  | summary
  | description
  | tags
  deriving DecidableEq

/-- The texts at a place in order. -/
def textsAt (d : Draft) : Place → List Text
  | .summary => d.summaryLines
  | .description => d.descriptionLines
  | .tags => d.tagTexts

/-- The words at a place in order. -/
def wordsAt (d : Draft) (place : Place) : List Text := (d.textsAt place).flatMap Text.words

/-- The texts gathered so far, last text first. The open tag is one of them. -/
def gathered (d : Draft) : Place → List Text
  | .summary => d.summary
  | .description => d.description
  | .tags => d.openTag.toList ++ d.tags

/-- The words of texts that are kept last text first. -/
def wordsOf (texts : List Text) : List Text := texts.reverse.flatMap Text.words

theorem wordsOf_cons (text : Text) (texts : List Text) : wordsOf (text :: texts) = wordsOf texts ++ text.words := by
  simp [wordsOf]

/-- Blank lines at the end of a description have no words. -/
theorem wordsOf_dropWhile (texts : List Text) : wordsOf (texts.dropWhile List.isEmpty) = wordsOf texts := by
  induction texts with
  | nil => rfl
  | cons text texts ih =>
    cases text with
    | nil => rw [List.dropWhile_cons_of_pos rfl, ih, wordsOf_cons, Text.words_nil, List.append_nil]
    | cons c text => rw [List.dropWhile_cons_of_neg (by simp)]

theorem wordsAt_closeTag (d : Draft) (place : Place) : d.closeTag.wordsAt place = wordsOf (d.gathered place) := by
  rw [closeTag_eq]
  cases place with
  | summary => rfl
  | description => exact wordsOf_dropWhile d.description
  | tags => rfl

@[simp] theorem gathered_closeTag (d : Draft) : d.closeTag.gathered = d.gathered := by
  rw [closeTag_eq]
  funext place
  cases place <;> rfl

@[simp] theorem gathered_closeSummary (d : Draft) : d.closeSummary.gathered = d.gathered := by
  unfold closeSummary
  split
  · rfl
  · funext place
    cases place <;> rfl

/-- No tag is open once it is closed, whatever becomes of the summary. -/
theorem openTag_closeSummary (d : Draft) : d.closeTag.closeSummary.openTag = none := by
  rw [closeTag_eq]
  unfold closeSummary
  split <;> rfl

/-! ## One line -/

/-- A text is put at a place: as a text of its own, which has the marker if it is a tag, or after a blank at the end of
    the last text there. -/
inductive Puts (marker text : Text) (place : Place) (before : Place → List Text) : (Place → List Text) → Prop where
  | own (marked : place = .tags → text.startsWith marker = true) :
    Puts marker text place before (Function.update before place (text :: before place))
  | goOn {last : Text} {rest : List Text} (there : before place = last :: rest) {c : Char} (blank : isBlank c = true) :
    Puts marker text place before (Function.update before place ((last ++ c :: text) :: rest))

section Puts

variable {marker text : Text} {place : Place} {before after : Place → List Text}

theorem wordsOf_update (new : List Text) :
    (fun other => wordsOf (Function.update before place new other))
      = Function.update (fun other => wordsOf (before other)) place (wordsOf new) :=
  Function.comp_update wordsOf before place new

theorem Puts.wordsOf_eq (puts : Puts marker text place before after) :
    (fun other => wordsOf (after other))
      = Function.update (fun other => wordsOf (before other)) place (wordsOf (before place) ++ text.words) := by
  cases puts with
  | own marked => rw [wordsOf_update, wordsOf_cons]
  | goOn there blank =>
    rw [wordsOf_update, there, wordsOf_cons, wordsOf_cons, Text.words_append_cons blank, List.append_assoc]

theorem Puts.marked (puts : Puts marker text place before after)
    (marked : ∀ t ∈ before .tags, t.startsWith marker = true) : ∀ t ∈ after .tags, t.startsWith marker = true := by
  by_cases here : Place.tags = place
  · subst here
    cases puts with
    | own new =>
      rw [Function.update_self, List.forall_mem_cons]
      exact ⟨new rfl, marked⟩
    | goOn there blank =>
      rw [there, List.forall_mem_cons, Text.startsWith, List.isPrefixOf_iff_prefix] at marked
      rw [Function.update_self, List.forall_mem_cons, Text.startsWith, List.isPrefixOf_iff_prefix]
      exact ⟨marked.1.trans (List.prefix_append _ _), marked.2⟩
  · cases puts <;> rwa [Function.update_of_ne here]

end Puts

variable (marker : Text) (d : Draft)

theorem gathered_description (summaryOpen inFence : Bool) (texts : List Text) :
    { d with summaryOpen, inFence, description := texts }.gathered = Function.update d.gathered .description texts := by
  funext place
  cases place <;> rfl

theorem gathered_summary (summaryOpen : Bool) (texts : List Text) :
    { d with summaryOpen, summary := texts }.gathered = Function.update d.gathered .summary texts := by
  funext place
  cases place <;> rfl

theorem gathered_openTag (text : Text) :
    { d with openTag := some text }.gathered = Function.update d.gathered .tags (text :: d.tags) := by
  funext place
  cases place <;> rfl

theorem puts_description (summaryOpen inFence : Bool) (text : Text) : Puts marker text .description d.gathered
    { d with summaryOpen, inFence, description := text :: d.description }.gathered := by
  rw [gathered_description d summaryOpen inFence (text :: d.description)]
  exact .own fun tags => by cases tags

theorem puts_addDescription (line text : Text) :
    Puts marker text .description d.gathered (d.addDescription line text).gathered := by
  have own := puts_description marker d d.summaryOpen d.inFence text
  unfold addDescription
  split
  · next last rest lines =>
    split
    · rw [gathered_description d d.summaryOpen d.inFence ((last ++ " " ++ text) :: rest), List.append_assoc]
      exact .goOn (c := ' ') lines (by decide)
    · rw [← lines]
      exact own
  · next lines =>
    rw [lines] at own
    exact own

theorem exists_puts_addText (line text : Text) :
    ∃ place, Puts marker text place d.gathered (d.addText line text).gathered := by
  unfold addText
  split
  · refine ⟨.summary, ?_⟩
    rw [gathered_summary d _ (text :: d.summary)]
    exact .own fun tags => by cases tags
  · exact ⟨.description, puts_addDescription marker { d with summaryOpen := false } line text⟩

/-- A line that is not blank is put at one place, with or without the blanks around it. -/
theorem exists_puts_addLine (line : Text) : ∃ place text, text.words = line.words
    ∧ Puts marker text place d.gathered (d.addLine marker line).gathered := by
  have trimmed := Text.words_trim line
  have closed := gathered_closeTag d
  unfold addLine
  dsimp only
  split
  · next isFence =>
    -- a tag that is closed first stays among the tags
    rw [← closed]
    exact ⟨.description, fence, by rw [← isFence, trimmed], puts_description marker d.closeTag _ _ fence⟩
  · split
    · -- only inside of a fence are the blanks of a line kept
      exact ⟨.description, line, rfl, puts_description marker d _ _ line⟩
    · split
      · next isMarked =>
        have same : d.closeTag.closeSummary.gathered = d.gathered := by rw [gathered_closeSummary, closed]
        have none := openTag_closeSummary d
        have all : d.closeTag.closeSummary.tags = d.closeTag.closeSummary.gathered .tags := by simp [gathered, none]
        rw [gathered_openTag, all, same]
        exact ⟨.tags, line.trim, trimmed, .own fun _ => isMarked⟩
      · split
        · next tag isOpen =>
          split
          · refine ⟨.tags, line.trim, trimmed, ?_⟩
            rw [gathered_openTag d (tag ++ "\n" ++ line.trim), List.append_assoc]
            exact .goOn (c := '\n') (by simp [gathered, isOpen]) (by decide)
          · rw [← closed]
            obtain ⟨place, puts⟩ := exists_puts_addText marker d.closeTag line line.trim
            exact ⟨place, line.trim, trimmed, puts⟩
        · obtain ⟨place, puts⟩ := exists_puts_addText marker d line line.trim
          exact ⟨place, line.trim, trimmed, puts⟩

/-- A blank line puts at most an empty line in the description. -/
theorem gathered_addBlank : d.addBlank.gathered = d.gathered
    ∨ d.addBlank.gathered = Function.update d.gathered .description ([] :: d.gathered .description) := by
  have same : d.closeTag.closeSummary.gathered = d.gathered := by rw [gathered_closeSummary, gathered_closeTag]
  rw [← same, addBlank]
  generalize d.closeTag.closeSummary = e
  have put : { e with description := [] :: e.description }.gathered
      = Function.update e.gathered .description ([] :: e.gathered .description) := gathered_description e _ _ _
  split
  · next lines =>
    split
    · right
      rw [← put, lines]
    · exact .inl rfl
  · next last rest lines =>
    split
    · right
      rw [← put, lines]
    · exact .inl rfl

theorem wordsOf_addBlank (place : Place) : wordsOf (d.addBlank.gathered place) = wordsOf (d.gathered place) := by
  obtain same | blank := gathered_addBlank d
  · rw [same]
  · rw [blank]
    by_cases here : place = .description
    · rw [here, Function.update_self, wordsOf_cons, Text.words_nil, List.append_nil]
    · rw [Function.update_of_ne here]

theorem gathered_addBlank_tags : d.addBlank.gathered .tags = d.gathered .tags := by
  obtain same | blank := gathered_addBlank d
  · rw [same]
  · rw [blank, Function.update_of_ne (by decide)]

/-! ## All lines -/

/-- What the lines read so far have come to. -/
structure Faithful (lines : List (Option Text)) (d : Draft) : Prop where
  words : Interleaves (lines.reduceOption.flatMap Text.words) fun place => wordsOf (d.gathered place)
  marked : ∀ text ∈ d.gathered .tags, text.startsWith marker = true

variable {marker d}

theorem Faithful.snoc {lines : List (Option Text)} (faithful : Faithful marker lines d) (line : Option Text) :
    Faithful marker (lines ++ [line]) (d.add marker line) := by
  cases line with
  | none =>
    refine ⟨?_, ?_⟩
    · simpa [List.reduceOption_append, Draft.add, wordsOf_addBlank] using faithful.words
    · rw [add, gathered_addBlank_tags]
      exact faithful.marked
  | some line =>
    obtain ⟨place, text, same, puts⟩ := exists_puts_addLine marker d line
    refine ⟨?_, puts.marked faithful.marked⟩
    have more : (lines ++ [some line]).reduceOption.flatMap Text.words
        = lines.reduceOption.flatMap Text.words ++ text.words := by
      simp [List.reduceOption_append, same]
    rw [more, add, puts.wordsOf_eq]
    exact faithful.words.append place text.words

theorem faithful_foldl (marker : Text) (lines : List (Option Text)) :
    Faithful marker lines (lines.foldl (add marker) {}) := by
  induction lines using List.reverseRecOn with
  | nil =>
    refine ⟨?_, by simp [gathered]⟩
    have none : (fun place => wordsOf (({} : Draft).gathered place)) = fun _ => [] := by
      funext place
      cases place <;> rfl
    rw [List.foldl_nil, none]
    exact interleaves_nil
  | append_singleton lines line ih =>
    rw [List.foldl_append]
    exact ih.snoc line

/-- The words of the lines that are not blank are dealt out to the summary, the description and the tags: each stands
    at one place, and each place keeps their order. Every tag has the marker. -/
theorem interleaves_ofLines (marker : Text) (lines : List (Option Text)) :
    Interleaves (lines.reduceOption.flatMap Text.words) (ofLines marker lines).wordsAt
      ∧ ∀ text ∈ (ofLines marker lines).tagTexts, text.startsWith marker = true := by
  have faithful := faithful_foldl marker lines
  have words : (ofLines marker lines).wordsAt
      = fun place => wordsOf ((lines.foldl (add marker) {}).gathered place) := by
    funext place
    exact wordsAt_closeTag _ place
  refine ⟨words ▸ faithful.words, ?_⟩
  intro text member
  apply faithful.marked text
  rwa [ofLines, closeTag_eq, tagTexts, List.mem_reverse] at member

end Block.Draft

end Marginalia
