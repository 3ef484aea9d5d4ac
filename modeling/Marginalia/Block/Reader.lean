import Marginalia.Block.Basic
import Marginalia.Profile
import Marginalia.Text.Case

/-!
# Reading documentation comments

A comment is read in three steps. `cleanLines` takes the marker off each line. `Draft.ofLines` sorts the lines
into the summary, the description and the texts of the tags. `applyTag` stores each tag in the block by its
name. Every comment can be read.
-/

namespace Marginalia

/-- The line that starts and ends text to be kept as it is. -/
def fence : Text := "```"

/-- A sentence ends here. -/
def endsSentence (t : Text) : Bool :=
  match t.getLast? with
  | some c => c == '.' || c == ':'
  | none => false

namespace Block

/-- A line that starts an item of its own: a list item, a quotation or a heading. -/
def startsStructure (t : Text) : Bool :=
  match t with
  | c :: _ => c == '-' || c == '*' || c == '+' || c == '>' || c == '#'
  | [] => false

/-- A line that continues the one before it. -/
def isIndented (line : Text) : Bool := line.startsWith "\t" || line.startsWith "    "

/-- One line without its marker; `some none` is a blank line, and a line without marker is dropped. -/
def cleanLine (marker line : Text) : Option (Option Text) :=
  let stripped := line.trim
  if stripped = marker then some none
  else
    match Text.afterStart? marker stripped with
    | some (' ' :: content) => some (some (Text.trimRight content))
    | some content => some (some (Text.trimRight content))
    | none => none

/-- The lines of a comment without their markers; `none` is a blank line. A comment of one line needs no
    marker. -/
def cleanLines (marker raw : Text) : List (Option Text) :=
  let raw := raw.trim
  if raw.isEmpty then []
  else if !raw.contains '\n' && !raw.startsWith marker then [some raw]
  else raw.lines.filterMap (cleanLine marker)

/-- Lines sorted so far. Lists are kept last line first. -/
structure Draft where
  summary : List Text := []
  summaryOpen : Bool := true
  description : List Text := []
  /-- Texts of the tags that are complete. -/
  tags : List Text := []
  /-- The tag that an indented line would continue. -/
  openTag : Option Text := none
  inFence : Bool := false
  deriving DecidableEq, Repr

namespace Draft

/-- No further line continues the open tag. -/
def closeTag (d : Draft) : Draft :=
  match d.openTag with
  | some t => { d with tags := t :: d.tags, openTag := none }
  | none => d

/-- The summary is complete if it has begun. -/
def closeSummary (d : Draft) : Draft :=
  if d.summary.isEmpty then d else { d with summaryOpen := false }

/-- A line goes on with the last line of the description. -/
def continues (description : List Text) (line text : Text) : Bool :=
  match description with
  | [] => false
  | last :: _ =>
    if startsStructure text || last.isEmpty || last = fence || endsSentence last then false
    else if last.startsWith ">" then false
    else if startsStructure last then isIndented line
    else true

/-- A line of description. -/
def addDescription (d : Draft) (line text : Text) : Draft :=
  match d.description with
  | last :: rest =>
    if continues d.description line text then
      { d with description := (last ++ " " ++ text) :: rest }
    else { d with description := text :: last :: rest }
  | [] => { d with description := [text] }

/-- A line that is neither fenced nor part of a tag. -/
def addText (d : Draft) (line text : Text) : Draft :=
  if d.summaryOpen && d.description.isEmpty then
    { d with
      summary := text :: d.summary
      summaryOpen := !(endsSentence text && !text.startsWith ">") }
  else ({ d with summaryOpen := false }).addDescription line text

/-- A line that is not blank. -/
def addLine (marker : Text) (d : Draft) (line : Text) : Draft :=
  let text := line.trim
  if text = fence then
    let d := d.closeTag
    { d with inFence := !d.inFence, summaryOpen := false, description := fence :: d.description }
  else if d.inFence then { d with description := line :: d.description }
  else if text.startsWith marker then
    { d.closeTag.closeSummary with openTag := some text }
  else
    match d.openTag with
    | some tag =>
      if isIndented line then { d with openTag := some (tag ++ "\n" ++ text) }
      else d.closeTag.addText line text
    | none => d.addText line text

/-- A blank line. -/
def addBlank (d : Draft) : Draft :=
  let d := d.closeTag.closeSummary
  match d.description with
  | [] => if d.inFence then { d with description := [[]] } else d
  | last :: rest =>
    if d.inFence || !last.isEmpty then { d with description := [] :: last :: rest } else d

/-- One line of a comment. -/
def add (marker : Text) (d : Draft) : Option Text → Draft
  | some line => d.addLine marker line
  | none => d.addBlank

/-- All lines of a comment. -/
def ofLines (marker : Text) (lines : List (Option Text)) : Draft :=
  (lines.foldl (add marker) {}).closeTag

/-- The lines of the summary in order. -/
def summaryLines (d : Draft) : List Text := d.summary.reverse

/-- The lines of the description in order, without the blank ones at the end. -/
def descriptionLines (d : Draft) : List Text := (d.description.dropWhile List.isEmpty).reverse

/-- The texts of the tags in order. -/
def tagTexts (d : Draft) : List Text := d.tags.reverse

end Draft

/-- A text with one more added after a space. -/
def appendNote (t more : Text) : Text := if more.isEmpty then t else Text.trim (t ++ " " ++ more)

/-- A further value of a tag. An empty first value is replaced; a second value makes a list. -/
def TagValue.add : TagValue → Text → TagValue
  | .one [], value => .one value
  | .one t, value => .many [t, value]
  | .many ts, value => .many (ts ++ [value])

/-- Stores a tag that may be repeated. -/
def accumulate (bucket : Dict TagValue) (name value : Text) : Dict TagValue :=
  bucket.insert name <|
    match bucket.get? name with
    | some current => TagValue.add current value
    | none => .one value

/-- The tags kept apart by name; all other tags go to `others`. -/
def knownTags : List Text := ["author", "since", "version", "todo", "link"]

/-- Stores a parameter. Of a repeated one the first type counts, and the descriptions are joined. -/
def addParam (b : Block) (rest : Text) : Block :=
  let (type, afterType) := rest.firstWord
  let (name, description) := afterType.firstWord
  let param : Typed :=
    match b.params.get? name with
    | some p => { p with description := appendNote p.description description.trim }
    | none => ⟨type, description.trim⟩
  { b with params := b.params.insert name param }

/-- Stores the result. Of a repeated one the first type counts, and the descriptions are joined. -/
def addReturn (b : Block) (rest : Text) : Block :=
  let (type, description) := rest.firstWord
  let result : Typed :=
    match b.returns with
    | some r => { r with description := appendNote r.description description.trim }
    | none => ⟨type, description.trim⟩
  { b with returns := some result }

/-- Stores a used module. Descriptions of a repeated one are joined. -/
def addUses (b : Block) (rest : Text) : Block :=
  let (module, description) := rest.firstWord
  let note : Text :=
    match b.uses.get? module with
    | some t => appendNote t description.trim
    | none => description.trim
  { b with uses := b.uses.insert module note }

/-- Stores one tag by its name. -/
def applyTag (marker : Text) (b : Block) (text : Text) : Block :=
  let (word, rest) := Text.firstWord (text.drop marker.length)
  if word.isEmpty then b
  else
    let name := word.lower
    let rest := rest.trim
    if name = "param".toList then b.addParam rest
    else if name = "return".toList then b.addReturn rest
    else if name = "uses".toList then b.addUses rest
    else if knownTags.contains name then { b with tags := accumulate b.tags name rest }
    else { b with others := accumulate b.others name rest }

/-- The block of sorted lines. -/
def ofDraft (tagMarker : Text) (d : Draft) : Block :=
  d.tagTexts.foldl (applyTag tagMarker)
    { summary := Text.join " " d.summaryLines
      description := Text.trimMatches (· == '\n') (Text.join "\n" d.descriptionLines) }

/-- The block of the text between the delimiters of a documentation comment. -/
def read (p : Profile) (raw : Text) : Block :=
  ofDraft p.tagMarker (Draft.ofLines p.tagMarker (cleanLines p.docLineMarker raw))

end Block

end Marginalia
