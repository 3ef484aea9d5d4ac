import Marginalia.Page.Basic
import Marginalia.Proofs.ProseTags
import Marginalia.Proofs.Rewriting

/-!
# Fenced text on a page

Both the reader of comments and the renderer of prose go through lines and know whether a fence is open. Whatever
stands between two fences of a comment, the reader keeps each line as it is, the renderer takes the same lines for
fenced, and so the lines come out between the tags of one element, escaped and otherwise unchanged.
-/

namespace Marginalia

namespace Block

/-- A line of fenced text as it can stand in a comment: one line without blanks at its end that is no fence. -/
structure Fenced (line : Text) : Prop where
  one : '\n' ∉ line
  stop : ∀ c ∈ line.getLast?, isBlank c = false
  noFence : line.trim ≠ fence

theorem Fenced.written {line : Text} (fenced : Fenced line) : line = [] ∨ Cleaned line := by
  by_cases content : line = []
  · exact .inl content
  · exact .inr ⟨fenced.one, content, fenced.stop⟩

/-! ## Reading -/

/-- What is read of a comment does not depend on the blanks around it. -/
theorem cleanLines_of_trim_eq {marker raw other : Text} (same : raw.trim = other.trim) :
    cleanLines marker raw = cleanLines marker other := by
  unfold cleanLines
  rw [same]

namespace Draft

/-- A line inside a fence is kept as it is. -/
theorem put_fenced {d : Draft} {line : Text} (inside : d.inFence = true) (untagged : d.openTag = none)
    (closed : d.summaryOpen = false) (noFence : line.trim ≠ Marginalia.fence) :
    d.put line = { d with description := line :: d.description } := by
  by_cases content : line = []
  · subst content
    have still : d.closeTag.closeSummary = d := by
      have shut : d.closeTag = d := by rw [closeTag, untagged]
      rw [shut]
      exact closeSummary_eq fun _ => closed
    rw [put_nil, addBlank, still]
    split
    · next none => rw [if_pos inside, none]
    · next last rest some => rw [if_pos (by simp [inside]), some]
  · rw [put_of_ne_nil content, addLine]
    dsimp only
    rw [if_neg noFence, if_pos inside]

theorem foldl_put_fenced {lines : List Text} (noFence : ∀ line ∈ lines, Text.trim line ≠ Marginalia.fence) {d : Draft}
    (inside : d.inFence = true) (untagged : d.openTag = none) (closed : d.summaryOpen = false) :
    lines.foldl put d = { d with description := lines.reverse ++ d.description } := by
  induction lines generalizing d with
  | nil => rfl
  | cons line rest ih =>
    rw [List.forall_mem_cons] at noFence
    rw [List.foldl_cons, put_fenced inside untagged closed noFence.1]
    rw [ih noFence.2 (d := { d with description := line :: d.description }) inside untagged closed]
    simp

/-- The summary and the first fence, which closes the summary even if no sentence has ended. -/
theorem put_summary_fence {summary : Text} (prose : Prose summary) :
    (({} : Draft).put summary).put Marginalia.fence
      = { summary := [summary], summaryOpen := false, description := [Marginalia.fence], inFence := true } := by
  rw [put_prose prose rfl rfl]
  rfl

theorem ofLines_fenced {summary : Text} (prose : Prose summary) {lines : List Text}
    (noFence : ∀ line ∈ lines, Text.trim line ≠ Marginalia.fence) :
    ofLines "@" ((summary :: Marginalia.fence :: (lines ++ [Marginalia.fence])).map lineOf)
      = { summary := [summary], summaryOpen := false,
          description := Marginalia.fence :: (lines.reverse ++ [Marginalia.fence]) } := by
  have each : ∀ d line, d.add "@" (lineOf line) = put d line := fun _ _ => rfl
  rw [ofLines, List.foldl_map]
  simp only [each, List.foldl_cons, List.foldl_append, List.foldl_nil]
  rw [put_summary_fence prose, foldl_put_fenced noFence rfl rfl rfl]
  rfl

end Draft

/-- The description that holds fenced lines and nothing else. -/
def fencedText (lines : List Text) : Text := Text.join "\n" (fence :: (lines ++ [fence]))

theorem lines_fencedText {lines : List Text} (one : ∀ line ∈ lines, '\n' ∉ line) :
    Text.lines (fencedText lines) = fence :: (lines ++ [fence]) := by
  apply Text.lines_join (by simp)
  simp only [List.forall_mem_cons, List.forall_mem_append]
  exact ⟨by decide, one, by decide, by simp⟩

/-- The text starts and ends as a fence does. -/
theorem fencedText_ends (lines : List Text) :
    (fencedText lines).head? = fence.head? ∧ (fencedText lines).getLast? = fence.getLast? := by
  obtain ⟨before, joined⟩ := Text.exists_join_concat "\n" fence (fence :: lines)
  obtain ⟨more, split⟩ := Text.exists_join_cons "\n" fence (lines ++ [fence])
  constructor
  · rw [fencedText, split]
    rfl
  · rw [fencedText, ← List.cons_append, joined, List.getLast?_append]
    rfl

theorem fencedText_ne_nil (lines : List Text) : (fencedText lines).isEmpty = false := by
  have start := (fencedText_ends lines).1
  cases text : fencedText lines with
  | nil =>
    rw [text] at start
    cases start
  | cons c rest => rfl

theorem ofDraft_fenced (summary : Text) (lines : List Text) :
    ofDraft "@" { summary := [summary], summaryOpen := false, description := fence :: (lines.reverse ++ [fence]) }
      = { summary, description := fencedText lines } := by
  obtain ⟨start, stop⟩ := fencedText_ends lines
  have kept : Text.trimMatches (· == '\n') (fencedText lines) = fencedText lines := by
    apply Text.trimMatches_of_ends
    · rw [start]
      decide
    · rw [stop]
      decide
  have description : ((fence :: (lines.reverse ++ [fence])).dropWhile List.isEmpty).reverse
      = fence :: (lines ++ [fence]) := by
    rw [List.dropWhile_cons_of_neg (by decide)]
    simp
  rw [ofDraft, Draft.tagTexts, Draft.summaryLines, Draft.descriptionLines, description]
  rw [List.reverse_singleton, Text.join_singleton, ← fencedText, kept]
  rfl

end Block

/-! ## Rendering -/

namespace Prose

open Markup

/-- A line that is kept as it is. -/
def keptLine (line : Text) : Text := escape line ++ "\n"

/-- Lines that are kept as they are, in one element. -/
def preformatted (lines : List Text) : Text := "<pre>" ++ lines.flatMap keptLine ++ "</pre>\n"

theorem run_fenced {s : State} (inside : s.inFence = true) {lines : List Text}
    (noFence : ∀ line ∈ lines, Text.trim line ≠ fence) (rest : List Text) :
    run s (lines ++ rest) = lines.flatMap keptLine ++ run s rest := by
  induction lines with
  | nil => rfl
  | cons line lines ih =>
    rw [List.forall_mem_cons] at noFence
    have kept : step s line = (keptLine line, s) := by
      rw [step, if_pos inside, fencedLine, if_neg noFence.1, keptLine]
    rw [List.cons_append, run, kept]
    dsimp only
    rw [ih noFence.2, List.flatMap_cons, List.append_assoc]

theorem render_fencedText {lines : List Text} (one : ∀ line ∈ lines, '\n' ∉ line)
    (noFence : ∀ line ∈ lines, Text.trim line ≠ fence) :
    render (Block.fencedText lines) = preformatted lines := by
  have opened : step {} fence = ("<pre>".toList, { containers := ["pre".toList], inFence := true }) := by decide +kernel
  have closed : run { containers := ["pre".toList], inFence := true } [fence] = "</pre>\n".toList := by decide +kernel
  rw [render, Block.lines_fencedText one, run, opened]
  dsimp only
  rw [run_fenced rfl noFence, closed]
  exact (List.append_assoc _ _ _).symm

end Prose

/-! ## Pages -/

namespace Page

open Markup

theorem prose_fencedText {style : Style} (usual : style.converter = Prose.render) (lines : List Text) :
    prose style (Block.fencedText lines) = Prose.render (Block.fencedText lines) := by
  obtain ⟨start, stop⟩ := Block.fencedText_ends lines
  have tight : Text.Tight (Block.fencedText lines) := by
    constructor
    · rw [start]
      decide
    · rw [stop]
      decide
  rw [prose, convert, usual, Text.trim_of_tight tight]
  dsimp only
  rw [Block.fencedText_ne_nil, if_neg (by decide), if_neg (by decide)]
  exact Prose.retarget_render _ _

end Page

/-- A comment of a summary and fenced lines gives a block of this summary, with these lines as its description and
    nothing else, and the description is shown as one element with the lines as they were written. -/
theorem Block.read_fenced {p : Profile} (marker : p.docLineMarker = "*".toList) (tagMarker : p.tagMarker = "@".toList)
    {summary : Text} (prose : Prose summary) {lines : List Text} (fenced : ∀ line ∈ lines, Fenced line)
    (before after : Text) (blank : ∀ c ∈ before ++ after, isBlank c = true) :
    let raw := before ++ Text.join "\n" ((summary :: fence :: (lines ++ [fence])).map markLine) ++ after
    ∃ description, read p raw = { summary, description } ∧ Prose.render description = Prose.preformatted lines
      ∧ ∀ style : Style, style.converter = Prose.render →
        Page.descriptionPart style (read p raw)
          = ["<div class=\"docdesc\">" ++ Prose.preformatted lines ++ "</div>"] := by
  intro raw
  have one : ∀ line ∈ lines, '\n' ∉ line := fun line member => (fenced line member).one
  have noFence : ∀ line ∈ lines, Text.trim line ≠ fence := fun line member => (fenced line member).noFence
  have written : ∀ line ∈ summary :: fence :: (lines ++ [fence]), line = [] ∨ Cleaned line := by
    have cleaned : Cleaned fence := ⟨by decide, by decide, by decide⟩
    simp only [List.forall_mem_cons, List.forall_mem_append]
    exact ⟨.inr prose.cleaned, .inr cleaned, fun line member => (fenced line member).written, .inr cleaned, by simp⟩
  have trimmed : raw.trim = Text.trim ("\n" ++ (Text.join "\n" ((summary :: fence :: (lines ++ [fence])).map markLine)
      ++ "\n")) := by
    rw [List.forall_mem_append] at blank
    rw [Text.trim_append_blank after blank.2, Text.trim_append_of_blank before blank.1]
    rw [Text.trim_append_of_blank "\n" (by decide), Text.trim_append_blank "\n" (by decide)]
  have block : read p raw = { summary, description := fencedText lines } := by
    rw [read, marker, tagMarker, cleanLines_of_trim_eq trimmed, cleanLines_marked (by simp) written]
    rw [Draft.ofLines_fenced prose noFence, ofDraft_fenced]
  have rendered := Prose.render_fencedText one noFence
  refine ⟨_, block, rendered, fun style usual => ?_⟩
  rw [Page.descriptionPart, block]
  dsimp only
  rw [fencedText_ne_nil, if_neg (by decide), Page.prose_fencedText usual, rendered]

/-- Tags, list items, empty lines, indentation and what looks like markup. -/
def Block.mixedLines : List Text := ["@param int $a", "    - <b>", [], [], " * ``` x", "\t\"&\""]

/-- A comment with such lines between two fences. -/
theorem Block.read_fenced_mixed :
    let raw : Text := "\n * Adds.\n * ```\n * @param int $a\n *     - <b>\n *\n *\n *  * ``` x\n * \t\"&\"\n * ```\n "
    ∃ description, read .php raw = { summary := "Adds.", description }
      ∧ Prose.render description = Prose.preformatted mixedLines := by
  intro raw
  have fenced : ∀ line ∈ mixedLines, Fenced line := by
    intro line member
    refine ⟨?_, ?_, ?_⟩ <;> (revert line; decide +kernel)
  have prose : Prose "Adds.".toList := ⟨by decide, by decide, by decide, by decide, by decide⟩
  have written : raw = "\n" ++ Text.join "\n" (("Adds.".toList :: fence :: (mixedLines ++ [fence])).map markLine)
      ++ "\n " := by decide +kernel
  obtain ⟨description, block, rendered, -⟩ := Block.read_fenced (p := .php) rfl rfl prose fenced "\n" "\n " (by decide)
  exact ⟨description, written ▸ block, rendered⟩

end Marginalia
