import Marginalia.Block.Reader
import Marginalia.Markup.Containers
import Marginalia.Markup.Escape

/-!
# Prose

Text with a little structure as markup. Each line is one of these:

* `- item` or `* item`, an item of a list;
* `> text`, a quotation;
* a fence of three backticks, which starts and ends text kept as it is;
* one to six `#` and a space, a heading;
* anything else, a line of a paragraph. Lines of a paragraph are joined until a sentence ends, a line is blank
  or another construct starts.
-/

namespace Marginalia.Prose

open Markup

/-- Where the renderer stands. -/
structure State where
  containers : Containers := []
  inFence : Bool := false
  /-- A paragraph that further lines may be added to. -/
  paragraph : Option Text := none
  deriving DecidableEq, Repr

/-- A line that no paragraph goes on with. -/
def isSpecial (line : Text) : Bool :=
  line = fence || match line with
    | c :: _ => c == '-' || c == '*' || c == '>' || c == '#'
    | [] => false

/-- The level and the text of a heading. -/
def heading? (line : Text) : Option (Nat × Text) :=
  let level := (line.takeWhile (· == '#')).length
  match line.drop level with
  | ' ' :: rest => if 1 ≤ level && level ≤ 6 then some (level, rest) else none
  | _ => none

/-- The markup of a finished paragraph. -/
def flush (s : State) : Text × State :=
  match s.paragraph with
  | some t =>
    (s.containers.closeAll ++ "<p>" ++ escape t ++ "</p>\n",
      { s with containers := [], paragraph := none })
  | none => ([], s)

/-- An item of a container. -/
def item (s : State) (container tag content : Text) : Text × State :=
  let (out, containers) := s.containers.openTag container
  (out ++ startTag tag ++ escape content.trim ++ endTag tag, { s with containers })

/-- A line, without blanks around it, where no paragraph is open. -/
def startLine (s : State) (line : Text) : Text × State :=
  if line = fence then
    let (out, containers) := s.containers.openTag "pre"
    (out, { s with containers, inFence := true })
  else
    match line with
    | [] => ([], s)
    | c :: rest =>
      if c = '-' || c = '*' then item s "ul" "li" rest
      else if c = '>' then item s "blockquote" "p" rest
      else
        match heading? line with
        | some (level, title) =>
          let tag := 'h' :: decimal level
          (s.containers.closeAll ++ startTag tag ++ escape (Text.trim title) ++ endTag tag ++ "\n",
            { s with containers := [] })
        | none => ([], { s with paragraph := some line })

/-- A line inside a fence. -/
def fencedLine (s : State) (raw : Text) : Text × State :=
  if raw.trim = fence then
    let (out, containers) := s.containers.close "pre"
    (out ++ "\n", { s with containers, inFence := false })
  else (escape raw ++ "\n", s)

/-- One line. -/
def step (s : State) (raw : Text) : Text × State :=
  if s.inFence then fencedLine s raw
  else
    let line := raw.trim
    match s.paragraph with
    | none => startLine s line
    | some t =>
      if endsSentence t || isSpecial line then
        let (out, s) := flush s
        let (more, s) := startLine s line
        (out ++ more, s)
      else if line.isEmpty then flush s
      else ([], { s with paragraph := some (t ++ " " ++ line) })

/-- The lines from a state on. -/
def run : State → List Text → Text
  | s, [] =>
    let (out, s) := flush s
    out ++ s.containers.closeAll
  | s, line :: rest =>
    let (out, s) := step s line
    out ++ run s rest

/-- The markup of a text. -/
def render (t : Text) : Text := run {} t.lines

end Marginalia.Prose
