import Marginalia.Text.Fold
import Marginalia.Text.Word

/-!
# Search patterns

Patterns that find parts of a text. A pattern is tried at a place from left to right; where it leaves a
choice, the first way that lets the rest of the pattern match is taken. The search reports all matches
from left to right, empty ones included: after an empty match the next match at the same place must not be
empty.
-/

namespace Marginalia

/-- Named classes of characters. -/
inductive CharClass where
  | word
  | digit
  | blank
  deriving DecidableEq, Repr

/-- Membership in a named class. -/
def CharClass.has : CharClass → Char → Bool
  | .word, c => isWordChar c
  | .digit, c => isDecimalDigit c
  | .blank, c => isBlank c

/-- A part of a set of characters. -/
inductive SetItem where
  | range (first last : Nat)
  | named (cls : CharClass) (negated : Bool)
  deriving DecidableEq, Repr

/-- A set of characters. -/
structure CharSet where
  items : List SetItem
  negated : Bool
  deriving DecidableEq, Repr

/-- A part of a set holds a character, given the code points that count as that character. -/
def SetItem.has (codes : List Nat) (c : Char) : SetItem → Bool
  | .range first last => codes.any fun n => first ≤ n && n ≤ last
  | .named cls negated => cls.has c != negated

/-- A set holds a character, with or without regard to case. -/
def CharSet.has (set : CharSet) (ignoreCase : Bool) (c : Char) : Bool :=
  let held :=
    if ignoreCase then set.items.any (·.has (alike c) (Char.ofNat (foldCode c)))
    else set.items.any (·.has [c.toNat] c)
  held != set.negated

/-- Conditions on a place in a text. -/
inductive Boundary where
  /-- The start of the text, or of any line. -/
  | start (anyLine : Bool)
  /-- The end of the text, before a last line feed too, or the end of any line. -/
  | stop (anyLine : Bool)
  /-- The very end of the text. -/
  | finish
  /-- Between a word character and another one, or not so. -/
  | word (negated : Bool)
  deriving DecidableEq, Repr

/-- Regular expressions with numbered groups. An atomic one keeps its first way to match. -/
inductive Regex where
  | empty
  | one (set : CharSet) (ignoreCase : Bool)
  | any (lineFeedToo : Bool)
  | at (boundary : Boundary)
  | seq (first second : Regex)
  | alt (first second : Regex)
  | group (index : Nat) (body : Regex)
  | same (index : Nat)
  | repeat (body : Regex) (least : Nat) (most : Option Nat) (greedy : Bool)
  | atomic (body : Regex)
  deriving DecidableEq, Repr

/-- A place in a text: what lies before it, last character first, what follows, and the groups matched so
    far. -/
structure Spot where
  before : Text
  after : Text
  groups : List (Nat × Text)
  deriving DecidableEq, Repr

namespace Spot

/-- The place before the first character. -/
def start (t : Text) : Spot := ⟨[], t, []⟩

/-- The place after the next `n` characters. -/
def advance (s : Spot) (n : Nat) : Spot :=
  { s with before := (s.after.take n).reverse ++ s.before, after := s.after.drop n }

/-- The text from one place to a later one. -/
def textTo (s later : Spot) : Text := s.after.take (s.after.length - later.after.length)

/-- What a group has matched last. -/
def group? (s : Spot) (index : Nat) : Option Text := s.groups.lookup index

/-- A group has matched a text. -/
def setGroup (s : Spot) (index : Nat) (t : Text) : Spot :=
  { s with groups := (index, t) :: s.groups.filter (·.1 != index) }

/-- A condition holds at a place. -/
def meets (s : Spot) : Boundary → Bool
  | .start anyLine =>
    match s.before with
    | [] => true
    | c :: _ => anyLine && c == '\n'
  | .stop anyLine =>
    match s.after with
    | [] => true
    | c :: rest => c == '\n' && (anyLine || rest.isEmpty)
  | .finish => s.after.isEmpty
  | .word negated =>
    let left := s.before.head?.any isWordChar
    let right := s.after.head?.any isWordChar
    (left != right) != negated

end Spot

namespace Regex

/-- Repeats `body`: first as often as it must, then as long as it may and the last round moved on.
    `next` is tried after the rounds, last for a greedy repetition and first for a lazy one. The first
    argument bounds the number of rounds. -/
def rounds (body : (Spot → Option Spot) → Spot → Option Spot) (greedy : Bool)
    (next : Spot → Option Spot) : Nat → Nat → Option Nat → Option Nat → Spot → Option Spot
  | 0, _, _, _, s => next s
  | fuel + 1, least + 1, most, last, s =>
    body (rounds body greedy next fuel least (most.map (· - 1)) last) s
  | fuel + 1, 0, most, last, s =>
    let again : Option Spot :=
      if most == some 0 || last == some s.after.length then none
      else body (rounds body greedy next fuel 0 (most.map (· - 1)) (some s.after.length)) s
    if greedy then again.or (next s) else (next s).or again

/-- Matches at a place and goes on with `next`; the result is where everything ended. -/
def run : Regex → (Spot → Option Spot) → Spot → Option Spot
  | .empty, next, s => next s
  | .one set ignoreCase, next, s =>
    match s.after with
    | c :: _ => if set.has ignoreCase c then next (s.advance 1) else none
    | [] => none
  | .any lineFeedToo, next, s =>
    match s.after with
    | c :: _ => if lineFeedToo || c != '\n' then next (s.advance 1) else none
    | [] => none
  | .at boundary, next, s => if s.meets boundary then next s else none
  | .seq first second, next, s => first.run (second.run next) s
  | .alt first second, next, s => (first.run next s).or (second.run next s)
  | .group index body, next, s =>
    body.run (fun later => next (later.setGroup index (s.textTo later))) s
  | .same index, next, s =>
    match s.group? index with
    | some t => if t.isPrefixOf s.after then next (s.advance t.length) else none
    | none => none
  | .repeat body least most greedy, next, s =>
    rounds body.run greedy next (least + s.after.length + 2) least most none s
  | .atomic body, next, s => (body.run some s).bind next

end Regex

/-- A pattern: its writing, what it matches, and the number of its groups. -/
structure Pattern where
  source : Text
  regex : Regex
  groups : Nat
  deriving DecidableEq, Repr

/-- One match: its text and the texts of its groups. -/
structure Match where
  whole : Text
  groups : List (Option Text)
  deriving DecidableEq, Repr

namespace Pattern

/-- A match at a place, which must not be empty if `advancing`. -/
def matchAt? (p : Pattern) (advancing : Bool) (s : Spot) : Option Spot :=
  p.regex.run
    (fun later => if advancing && later.after.length == s.after.length then none else some later)
    { s with groups := [] }

/-- The matches from a place on; the first argument bounds the number of steps. -/
def findFrom (p : Pattern) : Nat → Bool → Spot → List Match
  | 0, _, _ => []
  | fuel + 1, advancing, s =>
    match p.matchAt? advancing s with
    | some later =>
      let found : Match :=
        ⟨s.textTo later, (List.range p.groups).map fun i => later.group? (i + 1)⟩
      found :: findFrom p fuel (later.after.length == s.after.length) later
    | none => if s.after.isEmpty then [] else findFrom p fuel false (s.advance 1)

/-- All matches in a text from left to right. -/
def findAll (p : Pattern) (t : Text) : List Match :=
  p.findFrom (2 * t.length + 2) false (Spot.start t)

end Pattern

end Marginalia
