import Marginalia.Yaml.Scalar

/-!
# Tokens of a settings text

The structure of a settings text is given by marks and by indentation. Here a text becomes tokens in which the
indentation has been made explicit: a block collection has a start and an end. That a text is a key shows only
at the colon after it, so the tokens for it are put in front of the key afterwards.
-/

namespace Marginalia.Yaml

/-- A part of a settings text. -/
inductive Token where
  | streamEnd
  | directive
  | documentStart
  | documentEnd
  | blockSequenceStart
  | blockMappingStart
  | blockEnd
  | flowSequenceStart
  | flowSequenceEnd
  | flowMappingStart
  | flowMappingEnd
  | blockEntry
  | flowEntry
  | key
  | value
  | alias (name : Text)
  | anchor (name : Text)
  | tag (name : Text)
  | scalar (text : Text) (isPlain : Bool)
  deriving DecidableEq, Repr

/-- A place in the tokens where a key may turn out to begin. -/
structure KeyMark where
  /-- How many tokens stand before it. -/
  position : Nat
  /-- Nothing but a key can stand here. -/
  required : Bool
  index : Nat
  line : Nat
  column : Nat
  deriving DecidableEq, Repr

/-- What has been read of a text. -/
structure Lexer where
  cursor : Cursor
  /-- The tokens, the last one first. -/
  tokens : List Token := []
  /-- The number of flow collections that are open. -/
  flow : Nat := 0
  /-- The column of the block collection that is open; before the first one it is -1. -/
  indent : Int := -1
  /-- The columns of the collections around it. -/
  indents : List Int := []
  /-- A key may begin here. -/
  keyAllowed : Bool := true
  /-- Where a key may have begun, by the number of open flow collections. -/
  keys : List (Nat × KeyMark) := []
  deriving DecidableEq, Repr

namespace Lexer

/-- One more token. -/
def add (l : Lexer) (t : Token) : Lexer := { l with tokens := t :: l.tokens }

/-- One more token, written with some characters. -/
def addMark (l : Lexer) (t : Token) (width : Nat) : Lexer :=
  { l with tokens := t :: l.tokens, cursor := l.cursor.forward width }

/-- A token is put before the ones from a position on. -/
def addAt (l : Lexer) (position : Nat) (t : Token) : Lexer :=
  { l with tokens := l.tokens.insertIdx (l.tokens.length - position) t }

/-- Columns are left that are further in than `column`: how many, and where that leads. -/
def leave (column : Int) : Int → List Int → Nat × Int × List Int
  | indent, [] => (0, indent, [])
  | indent, outer :: rest =>
    if column < indent then
      let (n, indent, rest) := leave column outer rest
      (n + 1, indent, rest)
    else (0, indent, outer :: rest)

/-- Block collections further in than `column` end here. -/
def unwind (l : Lexer) (column : Int) : Lexer :=
  if l.flow != 0 then l
  else
    let (n, indent, indents) := leave column l.indent l.indents
    { l with tokens := List.replicate n .blockEnd ++ l.tokens, indent, indents }

/-- A block collection begins at a column if it is further in; then `start` tells so at a position. -/
def enter (l : Lexer) (column : Nat) (position : Nat) (start : Token) : Lexer :=
  if l.indent < column then
    { l.addAt position start with indent := column, indents := l.indent :: l.indents }
  else l

/-- Here no key can begin any more. Fails where only a key could stand. -/
def closeKey? (l : Lexer) : Option Lexer :=
  match l.keys.lookup l.flow with
  | some mark => if mark.required then none else some { l with keys := l.keys.filter (·.1 != l.flow) }
  | none => some l

/-- A key may begin with the next token. -/
def openKey? (l : Lexer) : Option Lexer :=
  if !l.keyAllowed then some l
  else do
    let l ← l.closeKey?
    let mark : KeyMark :=
      { position := l.tokens.length
        required := l.flow == 0 && l.indent == l.cursor.column
        index := l.cursor.index
        line := l.cursor.line
        column := l.cursor.column }
    return { l with keys := (l.flow, mark) :: l.keys }

/-- A key ends on the line where it begins, and is not too long. -/
def dropStaleKeys? (l : Lexer) : Option Lexer :=
  let stale (mark : KeyMark) : Bool := mark.line != l.cursor.line || 1024 < l.cursor.index - mark.index
  if l.keys.any (fun (_, mark) => stale mark && mark.required) then none
  else some { l with keys := l.keys.filter (fun (_, mark) => !stale mark) }

/-- Passes blanks, comments and line ends. After a line end a key may begin in a block. -/
def skipBlanks : Nat → Lexer → Lexer
  | 0, l => l
  | fuel + 1, l =>
    let c := l.cursor.skip (· == ' ')
    let c := if c.peek == some '#' then c.skip (!isBreak ·) else c
    if c.atBreak then
      skipBlanks fuel { l with cursor := c.lineBreak.2, keyAllowed := l.keyAllowed || l.flow == 0 }
    else { l with cursor := c }

/-- A line of marks between documents, or a directive. Everything that is open ends. -/
def boundary? (l : Lexer) (t : Token) (width : Nat) : Option Lexer := do
  let l ← (l.unwind (-1)).closeKey?
  return { l with keyAllowed := false }.addMark t width

/-- A flow collection opens. -/
def openFlow? (l : Lexer) (t : Token) : Option Lexer := do
  let l ← l.openKey?
  return { l with flow := l.flow + 1, keyAllowed := true }.addMark t 1

/-- A flow collection closes. -/
def closeFlow? (l : Lexer) (t : Token) : Option Lexer := do
  let l ← l.closeKey?
  if l.flow == 0 then none
  return { l with flow := l.flow - 1, keyAllowed := false }.addMark t 1

/-- The mark between the items of a flow collection. -/
def comma? (l : Lexer) : Option Lexer := do
  let l ← l.closeKey?
  return { l with keyAllowed := true }.addMark .flowEntry 1

/-- The mark of an item or of an explicit key in a block, which opens a collection of its kind. -/
def blockMark? (l : Lexer) (start t : Token) (keyAfter : Bool) : Option Lexer := do
  let l ←
    if l.flow == 0 then
      if l.keyAllowed then some (l.enter l.cursor.column l.tokens.length start) else none
    else some l
  let l ← l.closeKey?
  return { l with keyAllowed := keyAfter }.addMark t 1

/-- The colon between a key and its value. -/
def value? (l : Lexer) : Option Lexer :=
  match l.keys.lookup l.flow with
  | some mark =>
    let l := { l with keys := l.keys.filter (·.1 != l.flow) }
    let l := l.addAt mark.position .key
    let l := if l.flow == 0 then l.enter mark.column mark.position .blockMappingStart else l
    some ({ l with keyAllowed := false }.addMark .value 1)
  | none => l.blockMark? .blockMappingStart .value (l.flow == 0)

/-- A character of a name. -/
def isNameChar (c : Char) : Bool := c.isAlphanum || c == '-' || c == '_'

/-- What may follow a name. -/
def endsName (next : Option Char) : Bool := endsWord next || next.any ("?:,]\x7d%@\x60".toList.contains ·)

/-- A name after its mark. -/
def name? (l : Lexer) (t : Text → Token) : Option Lexer := do
  let l ← l.openKey?
  let name := (l.cursor.rest.drop 1).takeWhile isNameChar
  let c := l.cursor.forward (name.length + 1)
  if name.isEmpty || !endsName c.peek then none
  return { l with keyAllowed := false, cursor := c }.add (t name)

/-- A tag: everything up to the next blank. -/
def tag? (l : Lexer) : Option Lexer := do
  let l ← l.openKey?
  let name := l.cursor.rest.takeWhile (fun c => !endsWord (some c))
  return { l with keyAllowed := false }.addMark (.tag name) name.length

/-- A scalar in quotes. -/
def quotedScalar? (l : Lexer) : Option Lexer := do
  let l ← l.openKey?
  let (text, cursor) ← quoted? l.cursor
  return { l with keyAllowed := false, cursor }.add (.scalar text false)

/-- A block of lines. -/
def blockScalar? (l : Lexer) : Option Lexer := do
  let l ← l.closeKey?
  let (text, cursor) ← block? l.indent l.cursor
  return { l with keyAllowed := true, cursor }.add (.scalar text false)

/-- A plain scalar. -/
def plainScalar? (l : Lexer) : Option Lexer := do
  let l ← l.openKey?
  let (text, cursor, newLine) := plain (l.flow != 0) (l.indent + 1) l.cursor
  return { l with keyAllowed := newLine, cursor }.add (.scalar text true)

/-- A plain scalar may begin with a character before another one. -/
def beginsPlain (flow : Bool) (c : Char) (next : Option Char) : Bool :=
  !(endsWord (some c) || "-?:,[]\x7b\x7d#&*!|>'\"%@\x60".toList.contains c)
    || (!endsWord next && (c == '-' || (!flow && (c == '?' || c == ':'))))

/-- The token that begins with a character. -/
def token? (l : Lexer) (ch : Char) : Option Lexer :=
  let c := l.cursor
  let next := c.peekAt 1
  let inFlow := l.flow != 0
  if ch == '%' && c.column == 0 then l.boundary? .directive (c.rest.takeWhile (!isBreak ·)).length
  else if ch == '-' && c.column == 0 && c.atMarker '-' then l.boundary? .documentStart 3
  else if ch == '.' && c.column == 0 && c.atMarker '.' then l.boundary? .documentEnd 3
  else if ch == '[' then l.openFlow? .flowSequenceStart
  else if ch == '\x7b' then l.openFlow? .flowMappingStart
  else if ch == ']' then l.closeFlow? .flowSequenceEnd
  else if ch == '\x7d' then l.closeFlow? .flowMappingEnd
  else if ch == ',' then l.comma?
  else if ch == '-' && endsWord next then l.blockMark? .blockSequenceStart .blockEntry true
  else if ch == '?' && (inFlow || endsWord next) then l.blockMark? .blockMappingStart .key (!inFlow)
  else if ch == ':' && (inFlow || endsWord next) then l.value?
  else if ch == '*' then l.name? .alias
  else if ch == '&' then l.name? .anchor
  else if ch == '!' then l.tag?
  else if !inFlow && (ch == '|' || ch == '>') then l.blockScalar?
  else if ch == '\'' || ch == '"' then l.quotedScalar?
  else if beginsPlain inFlow ch next then l.plainScalar?
  else none

/-- The tokens of what is left, the last one first. Every token takes a character. -/
def run? : Nat → Lexer → Option (List Token)
  | 0, _ => none
  | fuel + 1, l => do
    let l := l.skipBlanks (l.cursor.rest.length + 1)
    let l ← l.dropStaleKeys?
    let l := l.unwind l.cursor.column
    match l.cursor.peek with
    | none =>
      let l ← (l.unwind (-1)).closeKey?
      return .streamEnd :: l.tokens
    | some ch => run? fuel (← l.token? ch)

end Lexer

/-- The tokens of a text. -/
def tokens? (t : Text) : Option (List Token) := do
  if !t.all isAdmitted then none
  let c : Cursor := { rest := t }
  let c := if c.peek == some '\ufeff' then c.step else c
  let reversed ← Lexer.run? (t.length + 2) { cursor := c }
  return reversed.reverse

end Marginalia.Yaml
