import Marginalia.Profile
import Marginalia.Skeleton

/-!
# Segments of a source

A source is read once from left to right and cut at its documentation comments. A segment is the skeleton of
the code since the previous documentation comment together with the text of the comment that ended it; the
last segment has no comment.

The reader is a machine that steps over the characters. At each character it sees the text that follows, so
markers of any length are recognised where they start; the characters of a recognised marker are then
skipped one by one.
-/

namespace Marginalia

/-- Code and the documentation comment that ended it; only the last segment has no comment. -/
structure Segment where
  code : Text
  doc : Option Text
  deriving DecidableEq, Repr

namespace Scan

/-- Where the reader stands. -/
inductive Mode where
  /-- Before the marker that starts code. -/
  | outside
  | code
  /-- In a string that the quote ends. -/
  | string (quote : Char)
  | lineComment
  | blockComment
  /-- In a documentation comment: the code before it, and its text so far, last character first. -/
  | docComment (code text : Text)
  deriving DecidableEq, Repr

/-- The state of the reader. -/
structure State where
  mode : Mode
  /-- Characters of a marker still to be skipped. -/
  skip : Nat
  /-- The previous character is blank, or there is none. -/
  fresh : Bool
  skeleton : Skeleton
  deriving DecidableEq, Repr

/-- The state before the first character. -/
def start (p : Profile) : State :=
  ⟨if p.codeStart.isEmpty then .code else .outside, 0, true, []⟩

/-- One character of plain code. -/
def codeChar (p : Profile) (skeleton : Skeleton) (c : Char) : Skeleton :=
  if c = '\r' then skeleton
  else if p.statementSeparators.contains [c] then skeleton.newline
  else if isBlank c then skeleton.softSpace
  else if p.noSpaceBefore.contains [c] then .one c :: skeleton.trim
  else .one c :: skeleton

/-- The marker of a documentation comment stands alone: a blank or nothing is on either side. -/
def opensDoc (p : Profile) (fresh : Bool) (here : Text) : Bool :=
  !p.docCommentStart.isEmpty && here.startsWith p.docCommentStart && fresh
    && match here.drop p.docCommentStart.length with
      | [] => true
      | c :: _ => isBlank c

/-- A marker that exists stands here. -/
def stands (marker here : Text) : Bool := !marker.isEmpty && here.startsWith marker

/-- The state after a marker: the rest of the marker is skipped. -/
def State.past (s : State) (mode : Mode) (marker : Text) : State :=
  { s with mode, skip := marker.length - 1 }

/-- One step in code at the character `c`, which starts the text `here`. -/
def codeStep (p : Profile) (s : State) (c : Char) (here : Text) : State :=
  if !p.codeStart.isEmpty && stands p.codeEnd here then
    { s with skeleton := s.skeleton.newline }.past .outside p.codeEnd
  else if p.quotes.contains [c] then
    { s with mode := .string c, skeleton := .one c :: s.skeleton }
  else if stands p.lineComment here then s.past .lineComment p.lineComment
  else if opensDoc p s.fresh here then
    { s with skeleton := [] }.past (.docComment s.skeleton.text []) p.docCommentStart
  else if stands p.blockCommentStart here then s.past .blockComment p.blockCommentStart
  else { s with mode := .code, skeleton := codeChar p s.skeleton c }

/-- Back in code after an end marker. An empty marker takes no character, so this one is code already. -/
def leave (p : Profile) (s : State) (marker : Text) (c : Char) (here : Text) : State :=
  if marker.isEmpty then codeStep p { s with mode := .code } c here else s.past .code marker

/-- One step at the character `c`, which starts the text `here`; a finished segment is put out. -/
def visit (p : Profile) (s : State) (c : Char) (here : Text) : State × Option Segment :=
  match s.mode with
  | .outside =>
    if stands p.codeStartFull here && here.startsWith p.codeStart then
      (s.past .code p.codeStartFull, none)
    else if here.startsWith p.codeStart then (s.past .code p.codeStart, none)
    else (s, none)
  | .code => (codeStep p s c here, none)
  | .string quote =>
    if p.escape = [c] then
      match here with
      | _ :: d :: _ => ({ s with skip := 1, skeleton := .two c d :: s.skeleton }, none)
      | _ => ({ s with skeleton := .one c :: s.skeleton }, none)
    else
      ({ s with mode := if c = quote then .code else s.mode, skeleton := .one c :: s.skeleton }, none)
  | .lineComment =>
    if here.startsWith p.lineCommentEnd then
      (leave p { s with skeleton := s.skeleton.softSpace } p.lineCommentEnd c here, none)
    else (s, none)
  | .blockComment =>
    if here.startsWith p.blockCommentEnd then
      (leave p { s with skeleton := s.skeleton.softSpace } p.blockCommentEnd c here, none)
    else (s, none)
  | .docComment code text =>
    if here.startsWith p.blockCommentEnd then
      (leave p s p.blockCommentEnd c here, some ⟨code, some text.reverse⟩)
    else ({ s with mode := .docComment code (c :: text) }, none)

/-- One character: skipped if it belongs to a marker, visited otherwise. -/
def step (p : Profile) (s : State) (c : Char) (after : Text) : State × Option Segment :=
  match s.skip with
  | skip + 1 => ({ s with skip, fresh := isBlank c }, none)
  | 0 =>
    let (s, segment) := visit p s c (c :: after)
    ({ s with fresh := isBlank c }, segment)

/-- The segments put out at the end: an unfinished documentation comment keeps what was read. -/
def finish (s : State) : List Segment :=
  match s.mode with
  | .docComment code text => [⟨code, some text.reverse⟩, ⟨s.skeleton.text, none⟩]
  | _ => [⟨s.skeleton.text, none⟩]

/-- The segments of a text from a state on. -/
def run (p : Profile) (s : State) : Text → List Segment
  | [] => finish s
  | c :: after =>
    match step p s c after with
    | (s, some segment) => segment :: run p s after
    | (s, none) => run p s after

end Scan

/-- The segments of a source. -/
def segments (p : Profile) (source : Text) : List Segment := Scan.run p (Scan.start p) source

namespace Segment

/-- All code of the segments. -/
def skeleton (segs : List Segment) : Text :=
  Text.join "\n" ((segs.map Segment.code).filter (!·.isEmpty))

/-- The documentation comments of the segments. -/
def docs (segs : List Segment) : List Text := segs.filterMap Segment.doc

end Segment

end Marginalia
