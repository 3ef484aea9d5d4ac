import Marginalia.Pattern.Basic
import Marginalia.Text.Quoted

/-!
# Reading patterns

A pattern from its writing. What is wrong with a writing is a cause at a position, counted in characters
from zero. Tokens are single characters, and a backslash forms one token with the character after it.
-/

namespace Marginalia

namespace Pattern

/-- What is wrong with the writing of a pattern. -/
inductive Cause where
  | unterminatedSet
  | unterminatedGroup
  | unterminatedComment
  | nothingToRepeat
  | multipleRepeat
  | unbalancedParenthesis
  | badRange (first last : Text)
  | escapeAtEnd
  | badEscape (escape : Text)
  | incompleteEscape (escape : Text)
  | leastAboveMost
  | unexpectedEnd
  | missingName
  | unterminatedName (closing : Text)
  | badName (name : Text)
  | repeatedName (name : Text) (group earlier : Nat)
  | unknownName (name : Text)
  | unknownGroup (group : Nat)
  | openGroup
  | unknownExtension (text : Text)
  | unknownFlag
  | unfinishedFlags
  | lateFlags
  deriving DecidableEq, Repr

/-- What is wrong, and where. -/
structure Error where
  cause : Cause
  position : Nat
  deriving DecidableEq, Repr

/-- A cause in words. -/
def Cause.message : Cause → Text
  | .unterminatedSet => "unterminated character set"
  | .unterminatedGroup => "missing ), unterminated subpattern"
  | .unterminatedComment => "missing ), unterminated comment"
  | .nothingToRepeat => "nothing to repeat"
  | .multipleRepeat => "multiple repeat"
  | .unbalancedParenthesis => "unbalanced parenthesis"
  | .badRange first last => "bad character range " ++ first ++ "-" ++ last
  | .escapeAtEnd => "bad escape (end of pattern)"
  | .badEscape escape => "bad escape " ++ escape
  | .incompleteEscape escape => "incomplete escape " ++ escape
  | .leastAboveMost => "min repeat greater than max repeat"
  | .unexpectedEnd => "unexpected end of pattern"
  | .missingName => "missing group name"
  | .unterminatedName closing => "missing " ++ closing ++ ", unterminated name"
  | .badName name => "bad character in group name " ++ name.quoted
  | .repeatedName name group earlier =>
    "redefinition of group name " ++ name.quoted ++ " as group " ++ decimal group
      ++ "; was group " ++ decimal earlier
  | .unknownName name => "unknown group name " ++ name.quoted
  | .unknownGroup group => "invalid group reference " ++ decimal group
  | .openGroup => "cannot refer to an open group"
  | .unknownExtension text => "unknown extension " ++ text
  | .unknownFlag => "unknown flag"
  | .unfinishedFlags => "missing -, : or )"
  | .lateFlags => "global flags not at the start of the expression"

/-- An error of a pattern in words; line and column are given for a pattern of several lines. -/
def Error.message (source : Text) (e : Error) : Text :=
  let before := source.take e.position
  let place : Text :=
    if source.contains '\n' then
      " (line " ++ decimal (before.count '\n' + 1) ++ ", column "
        ++ decimal ((before.reverse.takeWhile (· != '\n')).length + 1) ++ ")"
    else ""
  e.cause.message ++ " at position " ++ decimal e.position ++ place

/-- How letters, dots and boundaries are to be read. -/
structure Flags where
  ignoreCase : Bool := false
  anyLine : Bool := false
  lineFeedToo : Bool := false
  deriving DecidableEq, Repr

/-- The state of reading: what is left, its position, and what is known of flags and groups. -/
structure Reading where
  rest : Text
  position : Nat := 0
  flags : Flags := {}
  groups : Nat := 0
  closed : List Nat := []
  names : List (Text × Nat) := []
  deriving Repr

/-- Reading with a state that may fail. -/
abbrev Read := StateT Reading (Except Error)

/-- Fails with a cause at a position. -/
def fail {α : Type} (cause : Cause) (position : Nat) : Read α := throw ⟨cause, position⟩

/-- The next token. -/
def peek : Read (Option Text) := do
  match (← get).rest with
  | [] => return none
  | '\\' :: c :: _ => return some ['\\', c]
  | c :: _ => return some [c]

/-- A backslash at the end is noticed as soon as it is next. -/
def checkNext : Read Unit := do
  let s ← get
  if s.rest == ['\\'] then fail .escapeAtEnd s.position

/-- Takes the next token. -/
def take? : Read (Option Text) := do
  match ← peek with
  | none => return none
  | some token =>
    modify fun s =>
      { s with rest := s.rest.drop token.length, position := s.position + token.length }
    checkNext
    return some token

/-- Takes the next token if it is the given one. -/
def accept (token : Text) : Read Bool := do
  if (← peek) == some token then
    let _ ← take?
    return true
  else return false

/-- The position of the next token. -/
def here : Read Nat := return (← get).position

/-- Takes up to `n` tokens that are single characters satisfying `p`. -/
def takeUpTo (p : Char → Bool) : Nat → Read Text
  | 0 => return []
  | n + 1 => do
    match ← peek with
    | some [c] =>
      if p c then
        let _ ← take?
        return c :: (← takeUpTo p n)
      else return []
    | _ => return []

/-- Takes everything before a closing character, which is taken too. The first argument bounds the
    length. -/
def takeName (closing : Text) : Nat → Text → Read Text
  | 0, name => return name
  | fuel + 1, name => do
    match ← take? with
    | none =>
      if name.isEmpty then fail .missingName (← here)
      else fail (.unterminatedName closing) ((← here) - name.length)
    | some token =>
      if token == closing then
        if name.isEmpty then fail .missingName ((← here) - 1) else return name
      else takeName closing fuel (name ++ token)

/-- The set of one character. -/
def single (n : Nat) : CharSet := ⟨[.range n n], false⟩

/-- The characters of the one-letter escapes. -/
def letterEscape? : Char → Option Nat
  | 'a' => some 7
  | 'f' => some 12
  | 'n' => some 10
  | 'r' => some 13
  | 't' => some 9
  | 'v' => some 11
  | '\\' => some 92
  | _ => none

/-- The named class of an escape. -/
def classEscape? : Char → Option SetItem
  | 'd' => some (.named .digit false)
  | 'D' => some (.named .digit true)
  | 's' => some (.named .blank false)
  | 'S' => some (.named .blank true)
  | 'w' => some (.named .word false)
  | 'W' => some (.named .word true)
  | _ => none

/-- The condition of an escape. -/
def boundaryEscape? : Char → Option Boundary
  | 'A' => some (.start false)
  | 'b' => some (.word false)
  | 'B' => some (.word true)
  | 'Z' => some .finish
  | _ => none

/-- Hexadecimal digits. -/
def isHexDigit (c : Char) : Bool := (hexValue? c).isSome

/-- Octal digits. -/
def isOctalDigit (c : Char) : Bool := '0' ≤ c && c ≤ '7'

/-- The code point of an escape with exactly `width` hexadecimal digits. -/
def hexEscape (letter : Char) (width : Nat) : Read Nat := do
  let digits ← takeUpTo isHexDigit width
  if digits.length == width then return valueOfDigits 16 digits
  else
    let escape := '\\' :: letter :: digits
    fail (.incompleteEscape escape) ((← here) - escape.length)

/-- The code point of an escape by number, if the letter announces one. -/
def numberEscape? (letter : Char) : Read (Option Nat) := do
  match letter with
  | 'x' => return some (← hexEscape 'x' 2)
  | 'u' => return some (← hexEscape 'u' 4)
  | 'U' => return some (← hexEscape 'U' 8)
  | _ => return none

/-- An item of a sequence; repetitions and conditions cannot be repeated. -/
inductive Item where
  | plain (r : Regex)
  | boundary (r : Regex)
  | repeated (r : Regex)

/-- What an item matches. -/
def Item.regex : Item → Regex
  | .plain r => r
  | .boundary r => r
  | .repeated r => r

/-- The items of a sequence, the last one first, as one expression. -/
def sequenceOf (items : List Item) : Regex :=
  items.foldl (fun r item => match r with
    | .empty => item.regex
    | r => .seq item.regex r) .empty

/-- A reference to a group by number. -/
def reference (escape : Text) : Read Item := do
  let group := valueOfDigits 10 (escape.drop 1)
  let s ← get
  if group ≤ s.groups then
    if s.closed.contains group then return .plain (.same group)
    else fail .openGroup (s.position - escape.length)
  else fail (.unknownGroup group) (s.position - (escape.length - 1))

/-- An escape outside of sets. -/
def escapeItem (c : Char) : Read Item := do
  let ignoreCase := (← get).flags.ignoreCase
  let literal (n : Nat) : Item := .plain (.one (single n) ignoreCase)
  if let some boundary := boundaryEscape? c then return .boundary (.at boundary)
  if let some item := classEscape? c then return .plain (.one ⟨[item], false⟩ ignoreCase)
  if let some n := letterEscape? c then return literal n
  if let some n ← numberEscape? c then return literal n
  if c == '0' then
    let digits ← takeUpTo isOctalDigit 2
    return literal (valueOfDigits 8 digits)
  if c.isDigit then
    let second ← takeUpTo Char.isDigit 1
    if isOctalDigit c && !second.isEmpty && second.all isOctalDigit then
      let third ← takeUpTo isOctalDigit 1
      if third.isEmpty then reference ('\\' :: c :: second)
      else return literal (valueOfDigits 8 (c :: second ++ third))
    else reference ('\\' :: c :: second)
  else if c.isAlpha then fail (.badEscape ['\\', c]) ((← here) - 2)
  else return literal c.toNat

/-- An escape inside a set. -/
def escapeInSet (c : Char) : Read SetItem := do
  if let some item := classEscape? c then return item
  if c == 'b' then return .range 8 8
  if let some n := letterEscape? c then return .range n n
  if let some n ← numberEscape? c then return .range n n
  if isOctalDigit c then
    let n := valueOfDigits 8 (c :: (← takeUpTo isOctalDigit 2))
    return .range n n
  else if c.isDigit || c.isAlpha then fail (.badEscape ['\\', c]) ((← here) - 2)
  else return .range c.toNat c.toNat

/-- One member of a set from its token. -/
def memberOfSet (token : Text) : Read SetItem :=
  match token with
  | ['\\', c] => escapeInSet c
  | c :: _ => return .range c.toNat c.toNat
  | [] => return .range 0 0

/-- The members of a set up to its closing bracket; `start` is where the set was opened. -/
def setMembers (start : Nat) : Nat → List SetItem → Read (List SetItem)
  | 0, items => return items
  | fuel + 1, items => do
    match ← take? with
    | none => fail .unterminatedSet start
    | some token =>
      if token == [']'] && !items.isEmpty then return items
      else
        let item ← memberOfSet token
        if ← accept ['-'] then
          match ← take? with
          | none => fail .unterminatedSet start
          | some last =>
            if last == [']'] then return .range 45 45 :: item :: items
            else
              let lastItem ← memberOfSet last
              let wrong : Error :=
                ⟨.badRange token last, (← here) - (token.length + 1 + last.length)⟩
              match item, lastItem with
              | .range low _, .range high _ =>
                if high < low then throw wrong
                else setMembers start fuel (.range low high :: items)
              | _, _ => throw wrong
        else setMembers start fuel (item :: items)

/-- A set after its opening bracket. -/
def setItem (fuel : Nat) : Read Item := do
  let start := (← here) - 1
  let negated ← accept ['^']
  let items ← setMembers start fuel []
  return .plain (.one ⟨items.reverse, negated⟩ (← get).flags.ignoreCase)

/-- The bounds of a repetition after its opening brace; none if the brace stands for itself. -/
def bounds? (fuel : Nat) : Read (Option (Nat × Option Nat)) := do
  let start ← get
  if (← peek) == some ['\x7d'] then return none
  let low ← takeUpTo Char.isDigit fuel
  let high ← if ← accept [','] then takeUpTo Char.isDigit fuel else pure low
  if ← accept ['\x7d'] then
    let least := valueOfDigits 10 low
    let most := if high.isEmpty then none else some (valueOfDigits 10 high)
    if most.any (· < least) then fail .leastAboveMost start.position
    else return some (least, most)
  else
    set start
    return none

/-- The last item repeated; `position` is where the sign of repetition stands. -/
def repeatLast (items : List Item) (least : Nat) (most : Option Nat) (position : Nat) :
    Read (List Item) := do
  match items with
  | .plain r :: before =>
    if ← accept ['?'] then return .repeated (.repeat r least most false) :: before
    else if ← accept ['+'] then
      return .repeated (.atomic (.repeat r least most true)) :: before
    else return .repeated (.repeat r least most true) :: before
  | .repeated _ :: _ => fail .multipleRepeat position
  | _ => fail .nothingToRepeat position

/-- One flag letter. -/
def flagOf? : Char → Option (Flags → Flags)
  | 'i' => some fun f => { f with ignoreCase := true }
  | 'm' => some fun f => { f with anyLine := true }
  | 's' => some fun f => { f with lineFeedToo := true }
  | 'u' => some id
  | _ => none

/-- Flag letters from the given one on, up to a closing parenthesis or a colon. The result tells which of
    the two it was. -/
def readFlags (letter : Char) (flags : Flags) : Nat → Read (Flags × Bool)
  | 0 => return (flags, true)
  | fuel + 1 => do
    match flagOf? letter with
    | none => fail .unknownFlag ((← here) - 1)
    | some setFlag =>
      match ← take? with
      | none => fail .unfinishedFlags (← here)
      | some [')'] => return (setFlag flags, true)
      | some [':'] => return (setFlag flags, false)
      | some [c] =>
        if c.isAlpha then readFlags c (setFlag flags) fuel
        else fail .unfinishedFlags ((← here) - 1)
      | some token => fail .unfinishedFlags ((← here) - token.length)

/-- Skips a comment; `start` is where its parenthesis stands. -/
def skipComment (start : Nat) : Nat → Read Unit
  | 0 => return
  | fuel + 1 => do
    match ← take? with
    | none => fail .unterminatedComment start
    | some token => if token == [')'] then return else skipComment start fuel

/-- Names of groups are words that do not start with a digit. -/
def isGroupName (name : Text) : Bool :=
  match name with
  | [] => false
  | c :: _ => !isDecimalDigit c && name.all isWordChar

/-- Opens the next group, with a name if one is given. -/
def openGroup (name : Option Text) : Read Nat := do
  let s ← get
  let index := s.groups + 1
  if let some name := name then
    if let some earlier := s.names.lookup name then
      fail (.repeatedName name index earlier) (s.position - (name.length + 1))
    set { s with groups := index, names := (name, index) :: s.names }
  else set { s with groups := index }
  return index

/-- The kinds of groups. -/
inductive Opening where
  | capturing (name : Option Text)
  | scoped (flags : Flags)
  | nothing
  | item (i : Item)

/-- What follows an opening parenthesis; `start` is where it stands. `first` holds at the very start of
    the pattern, where flags for the whole pattern may stand. -/
def opening (fuel start : Nat) (first : Bool) : Read Opening := do
  if !(← accept ['?']) then return .capturing none
  match ← take? with
  | none => fail .unexpectedEnd (← here)
  | some [':'] => return .scoped (← get).flags
  | some ['#'] =>
    skipComment start fuel
    return .nothing
  | some ['P'] =>
    if ← accept ['<'] then
      let name ← takeName ['>'] fuel []
      if isGroupName name then return .capturing (some name)
      else fail (.badName name) ((← here) - (name.length + 1))
    else if ← accept ['='] then
      let name ← takeName [')'] fuel []
      let s ← get
      if !isGroupName name then fail (.badName name) (s.position - (name.length + 1))
      match s.names.lookup name with
      | none => fail (.unknownName name) (s.position - (name.length + 1))
      | some index =>
        if s.closed.contains index then return .item (.plain (.same index))
        else fail .openGroup (s.position - (name.length + 1))
    else
      match ← take? with
      | none => fail .unexpectedEnd (← here)
      | some token =>
        fail (.unknownExtension ("?P" ++ token)) ((← here) - (token.length + 2))
  | some [c] =>
    if (flagOf? c).isSome then
      let (flags, whole) ← readFlags c (← get).flags fuel
      if whole then
        if first then
          modify fun s => { s with flags }
          return .nothing
        else fail .lateFlags start
      else return .scoped flags
    else fail (.unknownExtension ['?', c]) ((← here) - 2)
  | some token => fail (.unknownExtension ('?' :: token)) ((← here) - (token.length + 1))

mutual

/-- Alternatives up to a closing parenthesis or the end. -/
def alternatives : Nat → Bool → Read Regex
  | 0, _ => return .empty
  | fuel + 1, first => do
    let items ← sequence fuel first []
    if ← accept ['|'] then return .alt (sequenceOf items) (← alternatives fuel false)
    else return sequenceOf items

/-- The items of one alternative, the last one first. -/
def sequence : Nat → Bool → List Item → Read (List Item)
  | 0, _, items => return items
  | fuel + 1, first, items => do
    let flags := (← get).flags
    match ← peek with
    | none => return items
    | some ['|'] => return items
    | some [')'] => return items
    | some token =>
      let _ ← take?
      let position := (← here) - 1
      match token with
      | ['\\', c] => sequence fuel first ((← escapeItem c) :: items)
      | ['['] => sequence fuel first ((← setItem fuel) :: items)
      | ['.'] => sequence fuel first (.plain (.any flags.lineFeedToo) :: items)
      | ['^'] => sequence fuel first (.boundary (.at (.start flags.anyLine)) :: items)
      | ['$'] => sequence fuel first (.boundary (.at (.stop flags.anyLine)) :: items)
      | ['*'] => sequence fuel first (← repeatLast items 0 none position)
      | ['+'] => sequence fuel first (← repeatLast items 1 none position)
      | ['?'] => sequence fuel first (← repeatLast items 0 (some 1) position)
      | ['\x7b'] =>
        match ← bounds? fuel with
        | some (least, most) => sequence fuel first (← repeatLast items least most position)
        | none =>
          let literal : Item := .plain (.one (single '\x7b'.toNat) flags.ignoreCase)
          sequence fuel first (literal :: items)
      | ['('] =>
        match ← opening fuel position (first && items.isEmpty) with
        | .nothing => sequence fuel first items
        | .item i => sequence fuel first (i :: items)
        | .scoped inner =>
          modify fun s => { s with flags := inner }
          let body ← alternatives fuel false
          if !(← accept [')']) then fail .unterminatedGroup position
          modify fun s => { s with flags := flags }
          sequence fuel first (.plain body :: items)
        | .capturing name =>
          let index ← openGroup name
          let body ← alternatives fuel false
          if !(← accept [')']) then fail .unterminatedGroup position
          modify fun s => { s with closed := index :: s.closed }
          sequence fuel first (.plain (.group index body) :: items)
      | c :: _ => sequence fuel first (.plain (.one (single c.toNat) flags.ignoreCase) :: items)
      | [] => return items

end

/-- A whole pattern. -/
def whole (fuel : Nat) : Read Regex := do
  checkNext
  let regex ← alternatives fuel true
  if (← peek).isSome then fail .unbalancedParenthesis (← here)
  return regex

/-- The pattern of a writing. -/
def read (source : Text) : Except Error Pattern := do
  let (regex, final) ← (whole (3 * source.length + 3)).run { rest := source }
  return ⟨source, regex, final.groups⟩

end Pattern

end Marginalia
