import Marginalia.Proofs.Cursor
import Marginalia.Proofs.Drafts

/-!
# The lines of a comment on one sheet

A draft keeps the tag that a line may continue apart from the others. Here all tags are in one list, and a flag says
whether the last one may be continued. A line may be added to the last tag or to the last line of the description, and
adding to the last one of no lines fails. It never comes to that: every comment is sorted to the end, and its block is
the one that is read from the draft.
-/

namespace Marginalia

namespace Block

/-- The lines of a comment sorted so far, the last one first. -/
structure Sheet where
  summary : List Text := []
  summaryOpen : Bool := true
  description : List Text := []
  tags : List Text := []
  /-- An indented line continues the last tag. -/
  tagOpen : Bool := false
  inFence : Bool := false

namespace Sheet

/-- The last line with more added to it. There is none to add to if there are no lines. -/
def extend? (more : Text) : List Text → Option (List Text)
  | [] => none
  | last :: rest => some ((last ++ more) :: rest)

/-- A line goes on with the last line of the description, which is looked at if there is a description. -/
def continues? (description : List Text) (line text : Text) : Option Bool :=
  if description.isEmpty || startsStructure text then some false
  else
    description.head?.map fun last =>
      if last.isEmpty || last = fence || endsSentence last then false
      else if last.startsWith ">" then false
      else if startsStructure last then isIndented line
      else true

/-- A gap in the description, unless there is one. The last line is looked at if there is a description. -/
def addGap? (s : Sheet) : Option Sheet :=
  if s.inFence then some { s with description := [] :: s.description }
  else if s.description.isEmpty then some s
  else s.description.head?.map fun last => if last.isEmpty then s else { s with description := [] :: s.description }

/-- The last tag is complete, and the summary if it has begun. -/
def settle (s : Sheet) : Sheet := { s with tagOpen := false, summaryOpen := s.summaryOpen && s.summary.isEmpty }

/-- A blank line. -/
def addBlank? (s : Sheet) : Option Sheet := s.settle.addGap?

/-- A line of text that is no tag and continues none. -/
def addText? (s : Sheet) (line text : Text) : Option Sheet :=
  if s.summaryOpen && s.description.isEmpty then
    some { s with summary := text :: s.summary, summaryOpen := !(endsSentence text && !text.startsWith ">") }
  else
    (continues? s.description line text).bind fun goesOn =>
      if goesOn then
        (extend? (" " ++ text) s.description).map fun description => { s with summaryOpen := false, description }
      else some { s with summaryOpen := false, description := text :: s.description }

/-- A line that is not blank. -/
def addLine? (marker : Text) (s : Sheet) (line : Text) : Option Sheet :=
  let text := line.trim
  if text = fence then
    some { s with
      inFence := !s.inFence, tagOpen := false, summaryOpen := false, description := fence :: s.description }
  else if s.inFence then some { s with description := line :: s.description }
  else if text.startsWith marker then
    some { s.settle with tags := text :: s.tags, tagOpen := true }
  else if s.tagOpen && isIndented line then
    (extend? ("\n" ++ text) s.tags).map fun tags => { s with tags }
  else { s with tagOpen := false }.addText? line text

/-- One line of a comment. -/
def add? (marker : Text) (s : Sheet) : Option Text → Option Sheet
  | some line => s.addLine? marker line
  | none => s.addBlank?

/-- The block of the sorted lines. -/
def block (marker : Text) (s : Sheet) : Block :=
  s.tags.reverse.foldl (applyTag marker)
    { summary := Text.join " " s.summary.reverse
      description := Text.trimMatches (· == '\n') (Text.join "\n" (s.description.dropWhile List.isEmpty).reverse) }

end Sheet

/-! ## Sheets and drafts -/

/-- The sheet of a draft: the open tag is the last one. -/
def Draft.sheet (d : Draft) : Sheet where
  summary := d.summary
  summaryOpen := d.summaryOpen
  description := d.description
  tags := d.openTag.toList ++ d.tags
  tagOpen := d.openTag.isSome
  inFence := d.inFence

namespace Sheet

theorem continues?_eq (description : List Text) (line text : Text) :
    continues? description line text = some (Draft.continues description line text) := by
  cases description with
  | nil => rfl
  | cons last rest =>
    cases starts : startsStructure text with
    | true => simp [continues?, Draft.continues, starts]
    | false => simp [continues?, Draft.continues, starts]

theorem settle_sheet (d : Draft) : d.sheet.settle = d.closeTag.closeSummary.sheet := by
  rw [Draft.closeTag_eq, Draft.closeSummary]
  cases empty : d.summary.isEmpty with
  | true => simp [settle, Draft.sheet, empty]
  | false => simp [settle, Draft.sheet, empty]

theorem addBlank?_sheet (d : Draft) : d.sheet.addBlank? = some d.addBlank.sheet := by
  unfold addBlank? Draft.addBlank
  rw [settle_sheet]
  generalize d.closeTag.closeSummary = e
  obtain ⟨summary, summaryOpen, description, tags, openTag, inFence⟩ := e
  cases inFence with
  | true =>
    cases description with
    | nil => rfl
    | cons last rest => rfl
  | false =>
    cases description with
    | nil => rfl
    | cons last rest =>
      cases last with
      | nil => rfl
      | cons c more => rfl

theorem addDescription_sheet (d : Draft) (line text : Text) :
    (if Draft.continues d.description line text then
        (extend? (" " ++ text) d.description).map fun description => { d.sheet with description }
      else some { d.sheet with description := text :: d.description })
      = some (d.addDescription line text).sheet := by
  unfold Draft.addDescription
  cases lines : d.description with
  | nil => rfl
  | cons last rest =>
    dsimp only
    split
    · rw [extend?, ← List.append_assoc]
      rfl
    · rfl

theorem addText?_sheet (d : Draft) (line text : Text) :
    d.sheet.addText? line text = some (d.addText line text).sheet := by
  unfold addText? Draft.addText
  cases opened : d.summaryOpen && d.description.isEmpty with
  | true =>
    have opened' : (d.sheet.summaryOpen && d.sheet.description.isEmpty) = true := opened
    rw [if_pos opened']
    rfl
  | false =>
    have complete : (d.sheet.summaryOpen && d.sheet.description.isEmpty) = false := opened
    rw [complete, continues?_eq]
    exact addDescription_sheet { d with summaryOpen := false } line text

theorem sheet_closeTag (d : Draft) : d.closeTag.sheet = { d.sheet with tagOpen := false } := by
  rw [Draft.closeTag_eq]
  rfl

/-- A line that no marker starts: it continues the open tag, or goes to the summary or the description. -/
theorem addProse_sheet (d : Draft) (line text : Text) :
    (if d.sheet.tagOpen && isIndented line then
        (extend? ("\n" ++ text) d.sheet.tags).map fun tags => { d.sheet with tags }
      else { d.sheet with tagOpen := false }.addText? line text)
      = some (match d.openTag with
        | some tag =>
          if isIndented line then { d with openTag := some (tag ++ "\n" ++ text) } else d.closeTag.addText line text
        | none => d.addText line text).sheet := by
  have closed := addText?_sheet d.closeTag line text
  rw [sheet_closeTag] at closed
  obtain ⟨summary, summaryOpen, description, tags, openTag, inFence⟩ := d
  cases openTag with
  | none => exact closed
  | some tag =>
    cases indented : isIndented line with
    | false => exact closed
    | true =>
      dsimp only [Draft.sheet, Option.toList_some, List.singleton_append, extend?]
      rw [← List.append_assoc]
      rfl

theorem addLine?_sheet (marker : Text) (d : Draft) (line : Text) :
    d.sheet.addLine? marker line = some (d.addLine marker line).sheet := by
  unfold addLine? Draft.addLine
  dsimp only
  split
  · rw [Draft.closeTag_eq]
    rfl
  · split
    · next fenced =>
      have inside : d.inFence = true := fenced
      rw [if_pos inside]
      rfl
    · next bare =>
      have outside : ¬d.inFence = true := bare
      rw [if_neg outside]
      split
      · have tags : d.closeTag.closeSummary.tags = d.sheet.tags := by
          rw [Draft.closeTag_eq, Draft.closeSummary]
          split <;> rfl
        rw [settle_sheet, ← tags]
        rfl
      · exact addProse_sheet d line line.trim

theorem add?_sheet (marker : Text) (d : Draft) (line : Option Text) :
    d.sheet.add? marker line = some (d.add marker line).sheet := by
  cases line with
  | none => exact addBlank?_sheet d
  | some line => exact addLine?_sheet marker d line

/-- No line of a comment fails. -/
theorem foldlM_add?_sheet (marker : Text) (lines : List (Option Text)) (d : Draft) :
    lines.foldlM (add? marker) d.sheet = some (lines.foldl (Draft.add marker) d).sheet := by
  induction lines generalizing d with
  | nil => rfl
  | cons line rest ih =>
    rw [List.foldlM_cons, add?_sheet]
    exact ih (d.add marker line)

theorem block_sheet (marker : Text) (d : Draft) : d.sheet.block marker = Block.ofDraft marker d.closeTag := by
  rw [Draft.closeTag_eq]
  rfl

/-- Every comment is sorted to its end. -/
theorem exists_foldlM (p : Profile) (raw : Text) :
    ∃ s : Sheet, (cleanLines p.docLineMarker raw).foldlM (add? p.tagMarker) {} = some s
      ∧ s.block p.tagMarker = Block.read p raw :=
  ⟨_, foldlM_add?_sheet p.tagMarker (cleanLines p.docLineMarker raw) {}, block_sheet p.tagMarker _⟩

end Sheet

end Block

/-! ## Reading to the end -/

/-- Reading ends and never fails, whatever the markers are. Every turn of the loop over a source moves on, or ends a
    comment where it stands and is in code then, where the next turn moves on. With two turns for each character the
    loop comes to the end of the source and has put out its segments. And the lines of a comment are sorted without
    adding to the last one of no lines, into the block of the comment. -/
theorem reading_ends (p : Profile) (source raw : Text) :
    (∀ c, Relation.ReflTransGen (Cursor.Turn p source) (Cursor.start p) c → c.place < source.length →
      ∃ c' put, Cursor.turn p source c = some (c', put) ∧ c.Advances c')
    ∧ (∃ last segs, Cursor.turns p source (2 * source.length) (Cursor.start p) = some (last, segs)
      ∧ source.length ≤ last.place ∧ segs ++ last.finish = segments p source)
    ∧ ∃ sheet : Block.Sheet,
      (Block.cleanLines p.docLineMarker raw).foldlM (Block.Sheet.add? p.tagMarker) {} = some sheet
      ∧ sheet.block p.tagMarker = Block.read p raw := by
  refine ⟨?_, ?_, Block.Sheet.exists_foldlM p raw⟩
  · intro c reached inside
    obtain ⟨s, fits⟩ := Cursor.exists_fits reached
    obtain ⟨c', put, s', turned, advances, -⟩ := Cursor.follows fits inside
    exact ⟨c', put, turned, advances⟩
  · have enough : Cursor.turnsLeft source (Cursor.start p) ≤ 2 * source.length := by
      unfold Cursor.turnsLeft Cursor.start
      split <;> exact Nat.le_refl _
    exact Cursor.exists_turns (Cursor.fits_start p source) enough

/-- A profile whose comments have no end markers. -/
def Cursor.unclosed : Profile where
  lineComment := "//"
  lineCommentEnd := ""
  blockCommentStart := "/*"
  blockCommentEnd := ""

/-- A comment that ends where it stands: the loop takes a turn without a character, and comes to the end. -/
theorem reading_ends_unclosed : ∃ c c' put,
    Relation.ReflTransGen (Cursor.Turn Cursor.unclosed "a/*b") (Cursor.start Cursor.unclosed) c
    ∧ Cursor.turn Cursor.unclosed "a/*b" c = some (c', put) ∧ c.Advances c' ∧ c'.place = c.place
    ∧ ∃ last segs, Cursor.turns Cursor.unclosed "a/*b" 8 (Cursor.start Cursor.unclosed) = some (last, segs)
      ∧ segs ++ last.finish = [⟨"a b", none⟩] := by
  let opened : Cursor := { zone := .blockComment, place := 3, parts := ["a".toList] }
  have plain : Cursor.Turn Cursor.unclosed "a/*b" (Cursor.start Cursor.unclosed)
      { zone := .code, place := 1, parts := ["a".toList] } := ⟨by decide, none, rfl⟩
  have opens : Cursor.Turn Cursor.unclosed "a/*b" { zone := .code, place := 1, parts := ["a".toList] } opened :=
    ⟨by decide, none, rfl⟩
  have reached := (Relation.ReflTransGen.single plain).tail opens
  obtain ⟨moves, ⟨last, segs, ended, -, read⟩, -⟩ := reading_ends Cursor.unclosed "a/*b" []
  obtain ⟨c', put, turned, advances⟩ := moves opened reached (by decide)
  have stays : c'.place = opened.place := by
    have again : Cursor.turn Cursor.unclosed "a/*b" opened
      = some ({ zone := .code, place := 3, parts := [" ".toList, "a".toList] }, none) := rfl
    cases turned.symm.trans again
    rfl
  refine ⟨opened, c', put, reached, turned, advances, stays, last, segs, ended, ?_⟩
  rw [read]
  decide +kernel

end Marginalia
