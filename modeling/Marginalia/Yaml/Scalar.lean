import Marginalia.Json.Reader
import Marginalia.Yaml.Cursor

/-!
# Scalars of a settings text

Texts in quotes, plain texts that may go on over several lines, and blocks of lines. Lines are folded: a single
line break counts as a space, and of several breaks the first one counts for nothing.
-/

namespace Marginalia.Yaml

/-- The character that a letter stands for after a backslash. -/
def shortEscape? : Char → Option Char
  | '0' => some '\x00'
  | 'a' => some '\x07'
  | 'b' => some '\x08'
  | 't' | '\t' => some '\t'
  | 'n' => some '\n'
  | 'v' => some '\x0b'
  | 'f' => some '\x0c'
  | 'r' => some '\r'
  | 'e' => some '\x1b'
  | ' ' => some ' '
  | '"' => some '"'
  | '\\' => some '\\'
  | '/' => some '/'
  | 'N' => some '\u0085'
  | '_' => some '\u00a0'
  | 'L' => some '\u2028'
  | 'P' => some '\u2029'
  | _ => none

/-- How many hexadecimal digits follow a letter after a backslash. -/
def escapeWidth? : Char → Option Nat
  | 'x' => some 2
  | 'u' => some 4
  | 'U' => some 8
  | _ => none

/-- A folded line break followed by further breaks. -/
def folded (first more : Text) : Text :=
  (if first != ['\n'] then first else if more.isEmpty then [' '] else []) ++ more

/-- The empty lines inside quotes. No line may mark a document. -/
def quotedBreaks? : Nat → Cursor → Option (Text × Cursor)
  | 0, _ => none
  | fuel + 1, c =>
    if c.atMarker '-' || c.atMarker '.' then none
    else
      let c := c.skip isSpacing
      if c.atBreak then do
        let (first, c) := c.lineBreak
        let (more, c) ← quotedBreaks? fuel c
        return (first ++ more, c)
      else some ([], c)

/-- The blanks inside quotes. -/
def quotedBlanks? (c : Cursor) : Option (Text × Cursor) :=
  let spacing := c.rest.takeWhile isSpacing
  let c := c.forward spacing.length
  if c.atBreak then do
    let (first, c) := c.lineBreak
    let (more, c) ← quotedBreaks? (c.rest.length + 1) c
    return (folded first more, c)
  else some (spacing, c)

/-- What a backslash stands for; the cursor is on the character after it. -/
def escape? (c : Cursor) : Option (Text × Cursor) := do
  let ch ← c.peek
  match shortEscape? ch, escapeWidth? ch with
  | some value, _ => return ([value], c.step)
  | none, some width =>
    let (code, _) ← readHex? width c.step.rest
    return ([Json.charOfUnit code], c.step.forward width)
  | none, none =>
    if isBreak ch then
      let (_, c) := c.lineBreak
      quotedBreaks? (c.rest.length + 1) c
    else none

/-- A text in quotes from after the opening quote on. Between double quotes a backslash escapes; between single
    quotes a doubled quote is one. -/
def quotedFrom? (double : Bool) : Nat → Cursor → Option (Text × Cursor)
  | 0, _ => none
  | fuel + 1, c => do
    let ch ← c.peek
    let continued (part : Text) (c : Cursor) : Option (Text × Cursor) := do
      let (more, c) ← quotedFrom? double fuel c
      return (part ++ more, c)
    if double && ch == '"' then return ([], c.step)
    else if !double && ch == '\'' then
      if c.peekAt 1 == some '\'' then continued ['\''] (c.forward 2) else return ([], c.step)
    else if double && ch == '\\' then
      let (part, c) ← escape? c.step
      continued part c
    else if isSpacing ch || isBreak ch then
      let (part, c) ← quotedBlanks? c
      continued part c
    else continued [ch] c.step

/-- A text in quotes; the cursor is on the opening quote. -/
def quoted? (c : Cursor) : Option (Text × Cursor) :=
  quotedFrom? (c.peek == some '"') (c.rest.length + 1) c.step

/-- How many characters of a plain text stand without a blank. In a flow collection its marks end a text. -/
def plainLength (flow : Bool) : Text → Nat
  | [] => 0
  | ch :: rest =>
    let endsHere :=
      endsWord (some ch)
        || (ch == ':' && (endsWord rest.head? || (flow && rest.head?.any (",[]\x7b\x7d".toList.contains ·))))
        || (flow && ",?[]\x7b\x7d".toList.contains ch)
    if endsHere then 0 else plainLength flow rest + 1

/-- The breaks after the first one inside a plain text; none if a document ends or starts. -/
def plainBreaks? : Nat → Cursor → Option (Text × Cursor)
  | 0, c => some ([], c)
  | fuel + 1, c =>
    if c.peek == some ' ' then plainBreaks? fuel c.step
    else if c.atBreak then do
      let (first, c) := c.lineBreak
      if c.atMarker '-' || c.atMarker '.' then none
      else
        let (more, c) ← plainBreaks? fuel c
        return (first ++ more, c)
    else some ([], c)

/-- The blanks after a part of a plain text, empty if the text ends, and whether a line has ended. -/
def plainBlanks (c : Cursor) : Text × Cursor × Bool :=
  let spacing := c.rest.takeWhile (· == ' ')
  let c := c.forward spacing.length
  if c.atBreak then
    let (first, c) := c.lineBreak
    if c.atMarker '-' || c.atMarker '.' then ([], c, true)
    else
      match plainBreaks? (c.rest.length + 1) c with
      | some (more, c) => (folded first more, c, true)
      | none => ([], c, true)
  else (spacing, c, false)

/-- A plain text after `pending` blanks, and whether a line has ended after it. In a block it goes on only on
    lines indented by `indent`. -/
def plainFrom (flow : Bool) (indent : Int) : Nat → Text → Cursor → Text × Cursor × Bool
  | 0, _, c => ([], c, false)
  | fuel + 1, pending, c =>
    let n := plainLength flow c.rest
    if n = 0 then ([], c, false)
    else
      let part := pending ++ c.rest.take n
      let (blanks, c, newLine) := plainBlanks (c.forward n)
      if blanks.isEmpty || c.peek == some '#' || (!flow && (c.column : Int) < indent) then (part, c, newLine)
      else if plainLength flow c.rest = 0 then (part, c, newLine)
      else
        let (more, c, newLine) := plainFrom flow indent fuel blanks c
        (part ++ more, c, newLine)

/-- A plain text. -/
def plain (flow : Bool) (indent : Int) (c : Cursor) : Text × Cursor × Bool :=
  plainFrom flow indent (c.rest.length + 1) [] c

/-- What becomes of the line breaks at the end of a block. -/
inductive Chomping where
  | strip
  | clip
  | keep
  deriving DecidableEq, Repr

/-- The mark for the end of a block. -/
def chomping? : Option Char → Option Chomping
  | some '+' => some .keep
  | some '-' => some .strip
  | _ => none

/-- The mark for the indentation of a block. -/
def increment? : Option Char → Option Nat
  | some c => if c.isDigit then some (c.toNat - '0'.toNat) else none
  | none => none

/-- The marks in front of a block, in either order. The indentation must not be zero. -/
def blockMarks? (c : Cursor) : Option (Chomping × Option Nat × Cursor) :=
  let result := match chomping? c.peek, increment? c.peek with
    | some chomping, _ =>
      match increment? c.step.peek with
      | some n => (chomping, some n, c.forward 2)
      | none => (chomping, none, c.step)
    | none, some n =>
      match chomping? c.step.peek with
      | some chomping => (chomping, some n, c.forward 2)
      | none => (.clip, some n, c.step)
    | none, none => (.clip, none, c)
  if result.2.1 == some 0 then none else some result

/-- The rest of the line in front of a block: blanks and a comment. -/
def blockHeaderEnd? (c : Cursor) : Option Cursor :=
  let c := c.skip (· == ' ')
  let c := if c.peek == some '#' then c.skip (!isBreak ·) else c
  if c.peek.isNone || c.atBreak then some c.lineBreak.2 else none

/-- The empty lines in front of a block with the widest indentation among them and the first line. -/
def leadingLines : Nat → Nat → Cursor → Text × Nat × Cursor
  | 0, widest, c => ([], widest, c)
  | fuel + 1, widest, c =>
    if c.peek == some ' ' then
      let c := c.step
      leadingLines fuel (max widest c.column) c
    else if c.atBreak then
      let (first, c) := c.lineBreak
      let (more, widest, c) := leadingLines fuel widest c
      (first ++ more, widest, c)
    else ([], widest, c)

/-- The lines of a block after `breaks`: its text, the last line break and the breaks after it. -/
def blockLines (fold : Bool) (indent : Nat) : Nat → Text → Cursor → Text × Text × Text × Cursor
  | 0, breaks, c => ([], [], breaks, c)
  | fuel + 1, breaks, c =>
    if c.column == indent && c.peek.isSome then
      let spaced := c.peek.any isSpacing
      let line := c.rest.takeWhile (!isBreak ·)
      let (ending, c) := (c.forward line.length).lineBreak
      let (after, c) := c.emptyLines indent (c.rest.length + 1)
      if c.column == indent && c.peek.isSome then
        let joint : Text :=
          if fold && ending == ['\n'] && !spaced && !c.peek.any isSpacing then
            if after.isEmpty then [' '] else []
          else ending
        let (more, last, final, c) := blockLines fold indent fuel after c
        (breaks ++ line ++ joint ++ more, last, final, c)
      else (breaks ++ line, ending, after, c)
    else ([], [], breaks, c)

/-- A block of lines; the cursor is on its first mark. Its lines are indented further than `parent`. -/
def block? (parent : Int) (c : Cursor) : Option (Text × Cursor) := do
  let fold := c.peek == some '>'
  let (chomping, increment, c) ← blockMarks? c.step
  if !(c.peek.isNone || c.peek == some ' ' || c.atBreak) then none
  let c ← blockHeaderEnd? c
  let least := (max 1 (parent + 1)).toNat
  let (breaks, indent, c) := match increment with
    | none =>
      let (breaks, widest, c) := leadingLines (c.rest.length + 1) 0 c
      (breaks, max least widest, c)
    | some n =>
      let indent := least + n - 1
      let (breaks, c) := c.emptyLines indent (c.rest.length + 1)
      (breaks, indent, c)
  let (text, last, final, c) := blockLines fold indent (c.rest.length + 1) breaks c
  return match chomping with
    | .strip => (text, c)
    | .clip => (text ++ last, c)
    | .keep => (text ++ last ++ final, c)

end Marginalia.Yaml
