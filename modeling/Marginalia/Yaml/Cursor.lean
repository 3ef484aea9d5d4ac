import Marginalia.Text.Basic

/-!
# Positions in a settings text

Line breaks, blanks and a cursor that knows its line and column.
-/

namespace Marginalia.Yaml

/-- A character that ends a line. -/
def isBreak (c : Char) : Bool :=
  c == '\n' || c == '\r' || c == '\u0085' || c == '\u2028' || c == '\u2029'

/-- A space or a tab. -/
def isSpacing (c : Char) : Bool := c == ' ' || c == '\t'

/-- A character that ends a word, or the end of the text. -/
def endsWord : Option Char → Bool
  | none => true
  | some c => isSpacing c || isBreak c

/-- A character that a text may have. -/
def isAdmitted (c : Char) : Bool :=
  let n := c.toNat
  n == 0x09 || n == 0x0a || n == 0x0d || n == 0x85
    || inRanges [(0x20, 0x7e), (0xa0, 0xd7ff), (0xe000, 0xfffd), (0x10000, 0x10ffff)] n

/-- A position in a text: what follows, and how far it is from the start. -/
structure Cursor where
  rest : Text
  index : Nat := 0
  line : Nat := 0
  column : Nat := 0
  deriving DecidableEq, Repr

namespace Cursor

/-- The position after one character. A byte order mark has no width. -/
def step (c : Cursor) : Cursor :=
  match c.rest with
  | [] => c
  | ch :: rest =>
    { rest
      index := c.index + 1
      line := if isBreak ch then c.line + 1 else c.line
      column := if isBreak ch then 0 else if ch == '\ufeff' then c.column else c.column + 1 }

/-- The position after some characters. -/
def forward (c : Cursor) : Nat → Cursor
  | 0 => c
  | n + 1 => c.step.forward n

/-- The next character. -/
def peek (c : Cursor) : Option Char := c.rest.head?

/-- A character further on. -/
def peekAt (c : Cursor) (n : Nat) : Option Char := c.rest[n]?

/-- The position after characters of a kind. -/
def skip (p : Char → Bool) (c : Cursor) : Cursor := c.forward (c.rest.takeWhile p).length

/-- A line ends here. -/
def atBreak (c : Cursor) : Bool := c.peek.any isBreak

/-- The line break at a position, if there is one, as it counts in a scalar. -/
def lineBreak (c : Cursor) : Text × Cursor :=
  match c.rest with
  | '\r' :: '\n' :: _ => (['\n'], c.forward 2)
  | ch :: _ =>
    if ch == '\u2028' || ch == '\u2029' then ([ch], c.step)
    else if isBreak ch then (['\n'], c.step)
    else ([], c)
  | [] => ([], c)

/-- A line of three equal marks stands here: it starts or ends a document. -/
def atMarker (c : Cursor) (mark : Char) : Bool :=
  Text.startsWith c.rest [mark, mark, mark] && endsWord (c.peekAt 3)

/-- The position after the lines that hold only spaces, up to a column, with their breaks. -/
def emptyLines (column : Nat) : Nat → Cursor → Text × Cursor
  | 0, c => ([], c)
  | fuel + 1, c =>
    let c := c.forward (min (column - c.column) (c.rest.takeWhile (· == ' ')).length)
    if c.atBreak then
      let (first, c) := c.lineBreak
      let (more, c) := emptyLines column fuel c
      (first ++ more, c)
    else ([], c)

end Cursor

end Marginalia.Yaml
