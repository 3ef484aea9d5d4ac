import Marginalia.Proofs.Php
import Marginalia.Proofs.TagTexts

/-!
# Blocks written and read again

A block can be written as a comment of one form: the summary, the tags and the description, with a blank line between
them and the marker before each line. Whatever comment a block was read from, reading the written comment gives the
block again, with its maps in the same order, unless the block has a result that is described but has no type.
-/

namespace Marginalia

namespace Text

/-- Two parts with the separator between them count as one part. -/
theorem join_append_cons (separator first second : Text) (rest : List Text) :
    join separator ((first ++ separator ++ second) :: rest) = join separator (first :: second :: rest) := by
  rw [join_cons_cons]
  cases rest with
  | nil => rw [join_singleton, join_singleton, List.append_assoc]
  | cons third rest => rw [join_cons_cons, join_cons_cons, List.append_assoc, List.append_assoc]

theorem trimMatches_of_ends {p : Char → Bool} {t : Text} (start : ∀ c ∈ t.head?, p c = false)
    (stop : ∀ c ∈ t.getLast?, p c = false) : trimMatches p t = t := by
  have keep : ∀ s : Text, (∀ c ∈ s.head?, p c = false) → s.dropWhile p = s := by
    intro s first
    cases s with
    | nil => rfl
    | cons c s => exact List.dropWhile_cons_of_neg (by simp [first c rfl])
  rw [trimMatches, keep t start, dropRightWhile, keep _ (by simpa using stop), List.reverse_reverse]

end Text

namespace Block

/-! ## The written comment -/

/-- A line with the marker before it. -/
def markLine (line : Text) : Text := if line.isEmpty then " *" else " * " ++ line

/-- A line that goes on with the text of a tag. -/
def indent (line : Text) : Text := "    " ++ line

/-- The lines of the text of a tag, all but the first one indented. -/
def tagLines (t : Text) : List Text :=
  match t.lines with
  | [] => []
  | first :: rest => first :: rest.map indent

/-- The lines of the comment a block is written as. -/
def writtenLines (b : Block) : List Text :=
  (if b.summary.isEmpty then [] else [b.summary]) ++ [] :: (b.tagTexts.flatMap tagLines ++ [] :: b.description.lines)

/-- The comment a block is written as, without its delimiters. -/
def write (b : Block) : Text := "\n" ++ (Text.join "\n" (b.writtenLines.map markLine) ++ "\n")

/-! ## Lines with and without the marker -/

/-- A line of a comment, as it is sorted. -/
def lineOf (line : Text) : Option Text := if line.isEmpty then none else some line

theorem cleanLine_of_trim_eq {marker line other : Text} (same : line.trim = other.trim) :
    cleanLine marker line = cleanLine marker other := by
  unfold cleanLine
  rw [same]

theorem cleanLine_markLine {line : Text} (written : line = [] ∨ Cleaned line) :
    cleanLine "*" (markLine line) = some (lineOf line) := by
  rcases written with rfl | cleaned
  · rfl
  · obtain ⟨c, rest, rfl⟩ := List.exists_cons_of_ne_nil cleaned.content
    have stop : Text.trimRight (' ' :: c :: rest) = ' ' :: c :: rest := Text.trimRight_of_last cleaned.stop
    have marked : Text.trim (markLine (c :: rest)) = '*' :: ' ' :: c :: rest := by
      show Text.trim ([' '] ++ '*' :: ' ' :: c :: rest) = _
      rw [Text.trim_append_cons rfl, stop]
      rfl
    unfold cleanLine
    rw [marked]
    show some (some (Text.trimRight (c :: rest))) = _
    rw [Text.trimRight_of_last cleaned.stop]
    rfl

theorem not_mem_markLine {line : Text} (one : '\n' ∉ line) : '\n' ∉ markLine line := by
  unfold markLine
  split
  · decide
  · simp [one]

theorem exists_markLine (line : Text) : ∃ more, markLine line = ' ' :: '*' :: more := by
  unfold markLine
  split
  · exact ⟨[], rfl⟩
  · exact ⟨' ' :: line, rfl⟩

/-- The written lines are read as they are. -/
theorem cleanLines_marked {lines : List Text} (content : lines ≠ [])
    (written : ∀ line ∈ lines, line = [] ∨ Cleaned line) :
    cleanLines "*" ("\n" ++ (Text.join "\n" (lines.map markLine) ++ "\n")) = lines.map lineOf := by
  have one : ∀ line ∈ lines.map markLine, '\n' ∉ line := by
    rw [List.forall_mem_map]
    intro line member
    apply not_mem_markLine
    rcases written line member with rfl | cleaned
    · simp
    · exact cleaned.one
  have split : Text.lines ("\n" ++ (Text.join "\n" (lines.map markLine) ++ "\n"))
      = [] :: (lines.map markLine ++ [[]]) := by
    show Text.lines ([] ++ '\n' :: (Text.join "\n" (lines.map markLine) ++ '\n' :: [])) = _
    rw [Text.lines_append_cons, Text.lines_append_cons, Text.lines_join (by simpa using content) one]
    rfl
  have cleaned : (lines.map markLine).filterMap (cleanLine "*") = lines.map lineOf := by
    rw [List.filterMap_map, ← List.filterMap_eq_map]
    exact List.filterMap_congr fun line member => cleanLine_markLine (written line member)
  have starts : ∃ more, Text.trim ("\n" ++ (Text.join "\n" (lines.map markLine) ++ "\n")) = '*' :: more := by
    obtain ⟨first, rest, rfl⟩ := List.exists_cons_of_ne_nil content
    obtain ⟨after, marked⟩ := exists_markLine first
    obtain ⟨more, joined⟩ := Text.exists_join_cons "\n" (markLine first) (rest.map markLine)
    rw [List.map_cons, joined, marked]
    exact ⟨_, Text.trim_append_cons (q := '*') rfl ['\n', ' '] (after ++ more ++ "\n")⟩
  unfold cleanLines
  dsimp only
  obtain ⟨more, starts⟩ := starts
  rw [if_neg (by rw [starts]; simp), if_neg (by rw [starts]; simp [Text.startsWith])]
  rw [Text.filterMap_lines_trim (fun _ _ => cleanLine_of_trim_eq) rfl, split]
  have blank : cleanLine "*" [] = none := rfl
  rw [List.filterMap_cons_none blank, List.filterMap_append, cleaned, List.filterMap_cons_none blank]
  simp

namespace Draft

/-! ## Sorting the written lines -/

variable {d : Draft}

/-- One written line more. -/
def put (d : Draft) (line : Text) : Draft := d.add "@" (lineOf line)

theorem put_nil (d : Draft) : d.put [] = d.addBlank := rfl

theorem put_of_ne_nil {line : Text} (content : line ≠ []) (d : Draft) : d.put line = d.addLine "@" line := by
  unfold put lineOf
  rw [if_neg (by simpa using content)]
  rfl

theorem put_prose {line : Text} (prose : Prose line) (unfenced : d.inFence = false) (untagged : d.openTag = none) :
    d.put line = d.addText line line := by
  rw [put_of_ne_nil prose.content, Draft.addLine, Text.trim_of_tight prose.tight]
  dsimp only
  rw [if_neg prose.noFence, if_neg (by simp [unfenced]), if_neg (startsWith_at.not.mpr prose.noTag), untagged]

theorem trim_indent {line : Text} (tight : line.Tight) : Text.trim (indent line) = line := by
  show Text.trim (' ' :: ' ' :: ' ' :: ' ' :: line) = line
  rw [Text.trim_cons_of_blank rfl, Text.trim_cons_of_blank rfl, Text.trim_cons_of_blank rfl,
    Text.trim_cons_of_blank rfl, Text.trim_of_tight tight]

theorem put_indent {line tag : Text} (prose : Prose line) (unfenced : d.inFence = false) :
    { d with openTag := some tag }.put (indent line) = { d with openTag := some (tag ++ "\n" ++ line) } := by
  rw [put_of_ne_nil (by simp [indent]), Draft.addLine, trim_indent prose.tight]
  dsimp only
  rw [if_neg prose.noFence, if_neg (by simp [unfenced]), if_neg (startsWith_at.not.mpr prose.noTag)]
  rfl

/-- The draft that holds a summary and complete tags. -/
def headed (summary : Text) (tags : List Text) : Draft where
  summary := if summary.isEmpty then [] else [summary]
  summaryOpen := summary.isEmpty
  tags := tags

theorem foldl_put_summary {summary : Text} (prose : summary = [] ∨ Prose summary) :
    ((if summary.isEmpty then [] else [summary]) ++ [[]]).foldl put {} = headed summary [] := by
  rcases prose with rfl | prose
  · rfl
  · have given : summary.isEmpty = false := by simpa using prose.content
    simp only [headed, given, Bool.false_eq_true, if_false, List.singleton_append, List.foldl_cons, List.foldl_nil]
    rw [put_prose prose rfl rfl]
    rfl

/-- Indented lines go on with the open tag. -/
theorem foldl_put_indent {rest : List Text} (prose : ∀ line ∈ rest, Prose line) (unfenced : d.inFence = false)
    (tag : Text) : (rest.map indent).foldl put { d with openTag := some tag }
      = { d with openTag := some (Text.join "\n" (tag :: rest)) } := by
  induction rest generalizing tag with
  | nil => rw [Text.join_singleton]; rfl
  | cons line rest ih =>
    rw [List.forall_mem_cons] at prose
    rw [List.map_cons, List.foldl_cons, put_indent prose.1 unfenced, ih prose.2, Text.join_append_cons]

/-- No fence is open, and the summary is complete if it has begun. -/
structure Ready (d : Draft) : Prop where
  unfenced : d.inFence = false
  closed : d.summary ≠ [] → d.summaryOpen = false

theorem ready_headed (summary : Text) (tags : List Text) : (headed summary tags).Ready :=
  ⟨rfl, fun given => by simpa [headed] using given⟩

theorem closeSummary_eq (closed : d.summary ≠ [] → d.summaryOpen = false) : d.closeSummary = d := by
  unfold Draft.closeSummary
  split
  · rfl
  · next given => rw [← closed (by simpa using given)]

/-- The lines of a tag open that tag. -/
theorem foldl_put_tagLines {t : Text} (tag : TagText t) (ready : d.Ready) :
    (tagLines t).foldl put d = { d with tags := d.openTag.toList ++ d.tags, openTag := some t } := by
  obtain ⟨first, rest, whole, tight, start, later⟩ := tag.note.cases
  have joined : Text.join "\n" (first :: rest) = t := by rw [← whole, Text.join_lines]
  have content : first ≠ [] := by
    apply start
    rintro rfl
    cases tag.marked
  have marked : first.head? = some '@' := by
    obtain ⟨more, split⟩ := Text.exists_join_cons "\n" first rest
    obtain ⟨c, after, rfl⟩ := List.exists_cons_of_ne_nil content
    have same := tag.marked
    rw [← joined, split] at same
    exact same
  have noFence : first ≠ Marginalia.fence := by
    rintro rfl
    cases marked
  have closed : d.closeTag.closeSummary = { d with tags := d.openTag.toList ++ d.tags, openTag := none } := by
    rw [closeTag_eq]
    exact closeSummary_eq ready.closed
  have opened : d.put first = { d with tags := d.openTag.toList ++ d.tags, openTag := some first } := by
    rw [put_of_ne_nil content, Draft.addLine, Text.trim_of_tight tight]
    dsimp only
    rw [if_neg noFence, if_neg (by simp [ready.unfenced]), if_pos (startsWith_at.mpr marked), closed]
  rw [tagLines, whole, List.foldl_cons, opened]
  rw [foldl_put_indent (d := { d with tags := d.openTag.toList ++ d.tags }) later ready.unfenced, joined]

theorem foldl_put_tags {texts : List Text} (tags : ∀ t ∈ texts, TagText t) (ready : d.Ready) :
    ((texts.flatMap tagLines).foldl put d).closeTag
      = { d with tags := texts.reverse ++ (d.openTag.toList ++ d.tags), openTag := none } := by
  induction texts generalizing d with
  | nil => exact closeTag_eq d
  | cons t rest ih =>
    rw [List.forall_mem_cons] at tags
    have next : Ready { d with tags := d.openTag.toList ++ d.tags, openTag := some t } := ⟨ready.unfenced, ready.closed⟩
    rw [List.flatMap_cons, List.foldl_append, foldl_put_tagLines tags.1 ready]
    refine (ih tags.2 next).trans ?_
    simp

/-- A blank line before the description closes the open tag. -/
theorem addBlank_of_ready {e : Draft} (closed : d.closeTag = e) (ready : e.Ready) (none : e.description = []) :
    d.addBlank = e := by
  unfold Draft.addBlank
  rw [closed, closeSummary_eq ready.closed]
  dsimp only
  rw [none]
  exact if_neg (by simp [ready.unfenced])

/-- The lines of a description are sorted into the form they have. -/
theorem foldl_put_description {lines : List Text} {inFence : Bool} (flow : Flow lines inFence) (ready : d.Ready)
    (untagged : d.openTag = none) (none : d.description = [])
    (started : d.summaryOpen = true → ∀ first ∈ lines.getLast?, first = Marginalia.fence) :
    lines.reverse.foldl put d
      = { d with description := lines, inFence, summaryOpen := d.summaryOpen && lines.isEmpty } := by
  obtain ⟨summary, summaryOpen, description, tags, openTag, fenced⟩ := d
  obtain ⟨unfenced, closed⟩ := ready
  dsimp only at unfenced closed untagged none started ⊢
  subst unfenced untagged none
  -- what is asked of the first line of all is asked of the first of the lines before the last
  have earlier : ∀ {line : Text} {rest : List Text}, (summaryOpen = true → ∀ first ∈ (line :: rest).getLast?,
      first = Marginalia.fence) → summaryOpen = true → ∀ first ∈ rest.getLast?, first = Marginalia.fence := by
    intro line rest started opened first member
    apply started opened
    rw [Option.mem_def] at member ⊢
    rw [List.getLast?_cons, member]
    rfl
  induction flow with
  | nil => simp
  | fence before ih =>
    rw [List.reverse_cons, List.foldl_append, ih (earlier started)]
    simp only [List.foldl_cons, List.foldl_nil, List.isEmpty_cons, Bool.and_false]
    rfl
  | blank before apart ih =>
    rw [List.reverse_cons, List.foldl_append, ih (earlier started)]
    simp only [List.foldl_cons, List.foldl_nil, List.isEmpty_cons, Bool.and_false, put_nil]
    unfold Draft.addBlank
    rw [closeTag_eq, closeSummary_eq (by simp)]
    dsimp only
    rw [if_pos (by simpa using apart)]
    rfl
  | fenced before cleaned noFence ih =>
    obtain ⟨last, rest, rfl⟩ := List.exists_cons_of_ne_nil before.ne_nil
    rw [List.reverse_cons, List.foldl_append, ih (earlier started)]
    simp only [List.foldl_cons, List.foldl_nil, List.isEmpty_cons, Bool.and_false]
    rw [put_of_ne_nil cleaned.content, Draft.addLine]
    dsimp only
    rw [if_neg noFence, if_pos rfl]
  | @prose rest line before prose apart ih =>
    rw [List.reverse_cons, List.foldl_append, ih (earlier started)]
    simp only [List.foldl_cons, List.foldl_nil, List.isEmpty_cons, Bool.and_false]
    rw [put_prose prose rfl rfl, Draft.addText]
    cases rest with
    | nil =>
      have past : summaryOpen = false := by
        by_contra opened
        exact prose.noFence (started (by simpa using opened) line rfl)
      rw [past]
      rfl
    | cons last rest =>
      simp only [List.isEmpty_cons, Bool.and_false, Bool.false_eq_true, if_false]
      unfold Draft.addDescription
      dsimp only
      rw [if_neg (by simp [apart])]

/-! ## Lines of a description -/

theorem Flow.tail {line : Text} {rest : List Text} {inFence : Bool} (flow : Flow (line :: rest) inFence) :
    ∃ before, Flow rest before := by
  cases flow with
  | fence before => exact ⟨_, before⟩
  | blank before _ => exact ⟨_, before⟩
  | fenced before _ _ => exact ⟨_, before⟩
  | prose before _ _ => exact ⟨_, before⟩

theorem Flow.dropWhile {lines : List Text} {inFence : Bool} (flow : Flow lines inFence) (p : Text → Bool) :
    ∃ before, Flow (lines.dropWhile p) before := by
  induction lines generalizing inFence with
  | nil => exact ⟨_, flow⟩
  | cons line rest ih =>
    rw [List.dropWhile_cons]
    split
    · exact ih flow.tail.choose_spec
    · exact ⟨_, flow⟩

theorem Flow.line {lines : List Text} {inFence : Bool} (flow : Flow lines inFence) :
    ∀ line ∈ lines, line = [] ∨ Cleaned line := by
  induction flow with
  | nil => simp
  | fence before ih => exact List.forall_mem_cons.mpr ⟨.inr ⟨by decide, by decide, by decide⟩, ih⟩
  | blank before apart ih => exact List.forall_mem_cons.mpr ⟨.inl rfl, ih⟩
  | fenced before cleaned noFence ih => exact List.forall_mem_cons.mpr ⟨.inr cleaned, ih⟩
  | prose before prose apart ih => exact List.forall_mem_cons.mpr ⟨.inr prose.cleaned, ih⟩

/-- No description starts with a blank line. -/
theorem Flow.first {lines : List Text} {inFence : Bool} (flow : Flow lines inFence) : lines.getLast? ≠ some [] := by
  have earlier : ∀ {line : Text} {rest : List Text}, line ≠ [] → rest.getLast? ≠ some [] →
      (line :: rest).getLast? ≠ some [] := by
    intro line rest content later
    rw [List.getLast?_cons]
    cases last : rest.getLast? with
    | none => simpa using content
    | some t => simpa [last] using later
  induction flow with
  | nil => simp
  | fence before ih => exact earlier (by decide) ih
  | blank before apart ih => rwa [List.getLast?_cons_cons]
  | fenced before cleaned noFence ih => exact earlier cleaned.content ih
  | prose before prose apart ih => exact earlier prose.content ih

/-- The lines of a description that neither starts nor ends with a blank line. -/
theorem trimMatches_join {lines : List Text} {inFence : Bool} (flow : Flow lines inFence)
    (stop : lines.head? ≠ some []) :
    Text.trimMatches (· == '\n') (Text.join "\n" lines.reverse) = Text.join "\n" lines.reverse := by
  cases lines with
  | nil => rfl
  | cons last rest =>
    have apart : ∀ line ∈ last :: rest, ∀ c ∈ line, (c == '\n') = false := by
      intro line member c inside
      rw [beq_eq_false_iff_ne]
      rintro rfl
      rcases flow.line line member with rfl | cleaned
      · cases inside
      · exact cleaned.one inside
    obtain ⟨front, first, whole⟩ := (List.eq_nil_or_concat (last :: rest)).resolve_left (by simp)
    have content : first ≠ [] := by
      rintro rfl
      apply flow.first
      rw [whole]
      simp
    have contentToo : last ≠ [] := by
      rintro rfl
      exact stop rfl
    apply Text.trimMatches_of_ends
    · obtain ⟨more, joined⟩ := Text.exists_join_cons "\n" first front.reverse
      obtain ⟨c, after, rfl⟩ := List.exists_cons_of_ne_nil content
      rw [whole, List.concat_eq_append, List.reverse_append, List.reverse_singleton, List.singleton_append, joined]
      rintro d ⟨⟩
      exact apart (c :: after) (by simp [whole]) c (by simp)
    · obtain ⟨before, joined⟩ := Text.exists_join_concat "\n" last rest.reverse
      rw [List.reverse_cons, joined]
      intro d member
      rw [List.getLast?_append_of_ne_nil _ contentToo] at member
      exact apart last (by simp) d (List.mem_of_mem_getLast? member)

theorem lines_join {lines : List Text} {inFence : Bool} (flow : Flow lines inFence) (content : lines ≠ []) :
    Text.lines (Text.join "\n" lines.reverse) = lines.reverse := by
  apply Text.lines_join (by simpa using content)
  intro line member
  rcases flow.line line (List.mem_reverse.mp member) with rfl | cleaned
  · simp
  · exact cleaned.one

/-- The draft of a summary, tags and the lines of a description. -/
def sorted (summary : Text) (tags lines : List Text) (inFence : Bool) : Draft :=
  { headed summary tags with description := lines, inFence, summaryOpen := summary.isEmpty && lines.isEmpty }

/-- The parts of a comment are sorted as they are written. -/
theorem ofLines_written {summary : Text} {texts lines : List Text} {inFence : Bool}
    (prose : summary = [] ∨ Prose summary) (tags : ∀ t ∈ texts, TagText t) (flow : Flow lines inFence)
    (started : summary = [] → ∀ first ∈ lines.getLast?, first = Marginalia.fence) :
    ofLines "@" (((if summary.isEmpty then [] else [summary])
        ++ [] :: (texts.flatMap tagLines ++ [] :: Text.lines (Text.join "\n" lines.reverse))).map lineOf)
      = sorted summary texts.reverse lines inFence := by
  have tagged : ((texts.flatMap tagLines).foldl put (headed summary [])).closeTag = headed summary texts.reverse := by
    rw [foldl_put_tags tags (ready_headed _ _)]
    simp [headed]
  have blank : ((texts.flatMap tagLines).foldl put (headed summary [])).put [] = headed summary texts.reverse := by
    rw [put_nil, addBlank_of_ready tagged (ready_headed _ _) rfl]
  have described : (Text.lines (Text.join "\n" lines.reverse)).foldl put (headed summary texts.reverse)
      = sorted summary texts.reverse lines inFence := by
    by_cases content : lines = []
    · -- the empty description is written as one more blank line
      subst content
      cases flow
      have closed : (headed summary texts.reverse).closeTag = headed summary texts.reverse := rfl
      refine (addBlank_of_ready closed (ready_headed _ _) rfl).trans ?_
      simp [sorted, headed]
    · rw [lines_join flow content]
      refine foldl_put_description flow (ready_headed _ _) rfl rfl fun opened => started ?_
      simpa [headed] using opened
  have split : ∀ d line, d.add "@" (lineOf line) = put d line := fun _ _ => rfl
  rw [ofLines, List.foldl_map, List.append_cons, List.foldl_append, List.foldl_append, List.foldl_cons]
  simp only [split]
  rw [foldl_put_summary prose, blank, described]
  rfl

end Draft

/-! ## Blocks that are read -/

theorem prose_join {lines : List Text} (prose : ∀ line ∈ lines, Prose line) (content : lines ≠ []) :
    Prose (Text.join " " lines) := by
  induction lines with
  | nil => exact absurd rfl content
  | cons first rest ih =>
    rw [List.forall_mem_cons] at prose
    cases rest with
    | nil => rw [Text.join_singleton]; exact prose.1
    | cons second rest =>
      have later := ih prose.2 (by simp)
      rw [Text.join_cons_cons]
      exact prose.1.append later.one later.tight later.content

theorem applyTag_fields (marker : Text) (b : Block) (t : Text) :
    (applyTag marker b t).summary = b.summary ∧ (applyTag marker b t).description = b.description := by
  unfold applyTag
  dsimp only
  repeat' split
  all_goals exact ⟨rfl, rfl⟩

theorem foldl_applyTag_fields (marker : Text) (b : Block) (texts : List Text) :
    (texts.foldl (applyTag marker) b).summary = b.summary
      ∧ (texts.foldl (applyTag marker) b).description = b.description := by
  induction texts generalizing b with
  | nil => exact ⟨rfl, rfl⟩
  | cons t rest ih =>
    obtain ⟨summary, description⟩ := applyTag_fields marker b t
    rw [List.foldl_cons, (ih _).1, (ih _).2, summary, description]
    exact ⟨rfl, rfl⟩

theorem ofDraft_summary (marker : Text) (d : Draft) : (ofDraft marker d).summary = Text.join " " d.summaryLines :=
  (foldl_applyTag_fields marker _ d.tagTexts).1

theorem ofDraft_description (marker : Text) (d : Draft) : (ofDraft marker d).description
    = Text.trimMatches (· == '\n') (Text.join "\n" d.descriptionLines) :=
  (foldl_applyTag_fields marker _ d.tagTexts).2

/-- What every block holds that is read from a comment. -/
structure Canonical (b : Block) : Prop where
  summary : b.summary = [] ∨ Prose b.summary
  description : ∃ (lines : List Text) (inFence : Bool), Draft.Flow lines inFence ∧ lines.head? ≠ some []
    ∧ (b.summary = [] → ∀ first ∈ lines.getLast?, first = fence) ∧ b.description = Text.join "\n" lines.reverse
  stored : b.Stored

theorem canonical_ofDraft {d : Draft} (settled : d.Settled) : (ofDraft "@" d).Canonical := by
  have summary : (d.summary = [] ∧ (ofDraft "@" d).summary = []) ∨ Prose (ofDraft "@" d).summary := by
    rw [ofDraft_summary, Draft.summaryLines]
    by_cases none : d.summary = []
    · rw [none]
      exact .inl ⟨rfl, rfl⟩
    · refine .inr (prose_join ?_ (by simpa using none))
      simpa using settled.summary
  obtain ⟨inFence, flow⟩ := settled.flow.dropWhile List.isEmpty
  have stop : (d.description.dropWhile List.isEmpty).head? ≠ some [] := by
    intro blank
    have solid := List.head?_dropWhile_not List.isEmpty d.description
    rw [blank] at solid
    cases solid
  refine ⟨summary.imp And.right id, ⟨_, inFence, flow, stop, fun empty first member => ?_, ?_⟩, ?_⟩
  · rcases summary with ⟨none, -⟩ | prose
    · have same : d.description.getLast? = some first := by
        obtain ⟨before, whole⟩ := List.dropWhile_suffix List.isEmpty (l := d.description)
        rw [← whole, List.getLast?_append, Option.mem_def.mp member]
        rfl
      have content : d.description ≠ [] := by
        intro nothing
        rw [nothing] at same
        cases same
      exact Option.some.inj (same.symm.trans (settled.fence_first none content))
    · exact absurd empty prose.content
  · rw [ofDraft_description]
    exact Draft.trimMatches_join flow stop
  · refine stored_foldl ?_ ?_
    · simpa [Draft.tagTexts] using settled.tags
    · constructor <;> simp [Dict.empty]

/-! ## Reading what is written -/

theorem cleaned_of_mem_tagLines {t line : Text} (tag : TagText t) (member : line ∈ tagLines t) : Cleaned line := by
  obtain ⟨first, rest, whole, tight, start, later⟩ := tag.note.cases
  rw [tagLines, whole] at member
  rcases List.mem_cons.mp member with rfl | member
  · refine ⟨Text.not_mem_of_mem_lines (t := t) (by simp [whole]), start ?_, tight.stop⟩
    rintro rfl
    cases tag.marked
  · obtain ⟨text, inside, rfl⟩ := List.mem_map.mp member
    have prose := later text inside
    refine ⟨by simp [indent, prose.one], by simp [indent], ?_⟩
    rw [indent, List.getLast?_append_of_ne_nil _ prose.content]
    exact prose.tight.stop

variable {b : Block}

theorem Canonical.writtenLine (canonical : b.Canonical) {line : Text} (member : line ∈ b.writtenLines) :
    line = [] ∨ Cleaned line := by
  obtain ⟨summary, ⟨lines, inFence, flow, -, -, description⟩, stored⟩ := canonical
  simp only [writtenLines, List.mem_append, List.mem_cons, List.mem_flatMap] at member
  rcases member with member | rfl | ⟨t, inside, member⟩ | rfl | member
  · split at member
    · cases member
    · next given =>
      obtain rfl := List.mem_singleton.mp member
      exact .inr (summary.resolve_left (by simpa using given)).cleaned
  · exact .inl rfl
  · exact .inr (cleaned_of_mem_tagLines (tagText_of_mem_tagTexts stored inside) member)
  · exact .inl rfl
  · rw [description] at member
    by_cases content : lines = []
    · subst content
      exact .inl (List.mem_singleton.mp member)
    · rw [Draft.lines_join flow content] at member
      exact flow.line line (List.mem_reverse.mp member)

/-- The written lines are sorted into the parts of the block. -/
theorem Canonical.ofLines (canonical : b.Canonical) :
    ofDraft "@" (Draft.ofLines "@" (b.writtenLines.map lineOf))
      = b.tagTexts.foldl (applyTag "@") { summary := b.summary, description := b.description } := by
  obtain ⟨prose, ⟨lines, inFence, flow, stop, started, description⟩, stored⟩ := canonical
  have keep : lines.dropWhile List.isEmpty = lines := by
    cases lines with
    | nil => rfl
    | cons last rest =>
      apply List.dropWhile_cons_of_neg
      simpa using stop
  have summary : Text.join " " (Draft.sorted b.summary b.tagTexts.reverse lines inFence).summaryLines = b.summary := by
    unfold Draft.sorted Draft.headed Draft.summaryLines
    dsimp only
    split
    · next none => exact (List.isEmpty_iff.mp none).symm
    · rw [List.reverse_singleton, Text.join_singleton]
  rw [writtenLines, description, Draft.ofLines_written prose (fun t => tagText_of_mem_tagTexts stored) flow started]
  rw [ofDraft, summary, Draft.descriptionLines, Draft.tagTexts]
  show b.tagTexts.reverse.reverse.foldl (applyTag "@") { summary := b.summary, description :=
    (Text.trimMatches (· == '\n') (Text.join "\n" (lines.dropWhile List.isEmpty).reverse)) } = _
  rw [keep, Draft.trimMatches_join flow stop, List.reverse_reverse]

/-- Reading a block that was written changes nothing but its result, which is read from its own text. -/
theorem read_write {p : Profile} (marker : p.docLineMarker = "*".toList) (tagMarker : p.tagMarker = "@".toList)
    (canonical : b.Canonical) : read p (write b) = { b with returns := b.returns.map reread } := by
  have lines : cleanLines "*" (write b) = b.writtenLines.map lineOf :=
    cleanLines_marked (by simp [writtenLines]) fun line member => canonical.writtenLine member
  rw [read, marker, tagMarker, lines, canonical.ofLines]
  exact foldl_tagTexts canonical.stored b.summary b.description

theorem canonical_read {p : Profile} (marker : p.docLineMarker = "*".toList) (tagMarker : p.tagMarker = "@".toList)
    (raw : Text) : (read p raw).Canonical := by
  rw [read, marker, tagMarker]
  exact canonical_ofDraft (Draft.settled_ofLines raw)

theorem Stored.map_reread (stored : b.Stored) :
    b.returns.map reread = b.returns ↔ ∀ r ∈ b.returns, r.type = [] → r.description = [] := by
  cases found : b.returns with
  | none => simp
  | some r => simpa using reread_eq_iff (stored.returns r found)

/-- A block that was read is the same when it is written and read again exactly if its result has a type or no
    description, and in any case all other parts of it are the same. -/
theorem read_write_read {p : Profile} (marker : p.docLineMarker = "*".toList) (tagMarker : p.tagMarker = "@".toList)
    (raw : Text) :
    (read p (write (read p raw)) = read p raw ↔ ∀ r ∈ (read p raw).returns, r.type = [] → r.description = [])
    ∧ { read p (write (read p raw)) with returns := (read p raw).returns } = read p raw := by
  have canonical := canonical_read marker tagMarker raw
  rw [read_write marker tagMarker canonical, ← canonical.stored.map_reread]
  exact ⟨⟨fun same => congrArg Block.returns same, fun same => by rw [same]⟩, rfl⟩

/-- A comment with continued and repeated tags, a list and a fence, all of it kept. -/
theorem read_write_read_mixed :
    let raw : Text := "\n * Adds numbers:\n *  @param int $a the\n *     first\n * - one\n *     two\n"
      ++ " *\n * ```\n *   x\n *\n * ```\n * @PARAM float $a too\n * @return int\n * @see b\n * @see\n * @author\n"
    ((read .php raw).returns = some ⟨"int", []⟩ ∧ (read .php raw).others.get? "see" = some (.many ["b", []]))
      ∧ read .php (write (read .php raw)) = read .php raw := by
  intro raw
  have parts : (read .php raw).returns = some ⟨"int", []⟩
      ∧ (read .php raw).others.get? "see" = some (.many ["b", []]) := by decide +kernel
  refine ⟨parts, (read_write_read rfl rfl raw).1.mpr ?_⟩
  rw [parts.1]
  rintro r ⟨⟩ -
  rfl

/-- Of a repeated result the first type counts, and an empty one is not written: its description is read as a type. -/
theorem read_write_untyped :
    let raw : Text := "\n * @return\n * @return int desc\n"
    (read .php raw).returns = some ⟨[], "desc"⟩ ∧ (read .php (write (read .php raw))).returns = some ⟨"desc", []⟩
      ∧ read .php (write (read .php raw)) ≠ read .php raw := by
  decide +kernel

end Block

end Marginalia
