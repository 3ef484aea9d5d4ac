import Marginalia.Value.Basic

/-!
# Reading JSON

A value from JSON text. Members keep their order; of a repeated key the last value counts, at the place of
the first. Besides the standard's numbers the words `NaN`, `Infinity` and `-Infinity` are numbers. The
readers return what follows the part they read.
-/

namespace Marginalia.Json

/-- The characters that may stand between tokens. -/
def isSpace (c : Char) : Bool := c == ' ' || c == '\t' || c == '\n' || c == '\r'

/-- A text without the space in front. -/
def skipSpace (t : Text) : Text := t.dropWhile isSpace

/-- The character a one-letter escape stands for. -/
def simpleEscape? : Char → Option Char
  | '"' => some '"'
  | '\\' => some '\\'
  | '/' => some '/'
  | 'b' => some '\x08'
  | 'f' => some '\x0c'
  | 'n' => some '\n'
  | 'r' => some '\r'
  | 't' => some '\t'
  | _ => none

/-- The character of one code unit, U+FFFD for half of a pair. -/
def charOfUnit (n : Nat) : Char := if n.isValidChar then Char.ofNat n else '�'

/-- A character of two code units, if they are a pair. -/
def charOfPair? (high low : Nat) : Option Char :=
  if 0xd800 ≤ high ∧ high ≤ 0xdbff ∧ 0xdc00 ≤ low ∧ low ≤ 0xdfff then
    some (Char.ofNat (0x10000 + (high - 0xd800) * 0x400 + (low - 0xdc00)))
  else none

/-- Four hexadecimal digits as a code unit. -/
def unit? (a b c d : Char) : Option Nat := (readHex? 4 [a, b, c, d]).map Prod.fst

/-- The code units of a string up to its closing quote, and what follows the quote. -/
def readUnits? : Text → Option (List Nat × Text)
  | [] => none
  | '"' :: rest => some ([], rest)
  | '\\' :: 'u' :: a :: b :: c :: d :: rest => do
    let n ← unit? a b c d
    let (units, after) ← readUnits? rest
    return (n :: units, after)
  | '\\' :: e :: rest => do
    let ch ← simpleEscape? e
    let (units, after) ← readUnits? rest
    return (ch.toNat :: units, after)
  | c :: rest =>
    if c.toNat < 0x20 ∨ c = '\\' then none
    else do
      let (units, after) ← readUnits? rest
      return (c.toNat :: units, after)

/-- The text of code units, where two halves of a pair are one character. -/
def joinUnits : List Nat → Text
  | [] => []
  | [n] => [charOfUnit n]
  | high :: low :: rest =>
    match charOfPair? high low with
    | some c => c :: joinUnits rest
    | none => charOfUnit high :: joinUnits (low :: rest)

/-- What a string holds up to its closing quote, and what follows the quote. -/
def readString? (t : Text) : Option (Text × Text) :=
  (readUnits? t).map fun (units, after) => (joinUnits units, after)

/-- The digits in front of a text and what follows them. -/
def spanDigits (t : Text) : Text × Text := (t.takeWhile Char.isDigit, t.dropWhile Char.isDigit)

/-- The digits of a whole part: a zero alone or digits that start with another one. -/
def wholeDigits? (t : Text) : Option (Text × Text) :=
  match t with
  | '0' :: rest => some (['0'], rest)
  | _ =>
    let (digits, rest) := spanDigits t
    if digits.isEmpty then none else some (digits, rest)

/-- The digits after a decimal point, if there are any. -/
def fractionDigits (t : Text) : Text × Text :=
  match t with
  | '.' :: rest =>
    let (digits, after) := spanDigits rest
    if digits.isEmpty then ([], t) else (digits, after)
  | _ => ([], t)

/-- The exponent of ten, if there is one. -/
def exponentPart? (t : Text) : Option (Int × Text) :=
  match t with
  | e :: rest =>
    if e = 'e' ∨ e = 'E' then
      let (negative, unsigned) := match rest with
        | '-' :: r => (true, r)
        | '+' :: r => (false, r)
        | r => (false, r)
      let (digits, after) := spanDigits unsigned
      if digits.isEmpty then none
      else
        let n : Int := valueOfDigits 10 digits
        some (if negative then -n else n, after)
    else none
  | [] => none

/-- A number without its sign. -/
def readMagnitude? (negative : Bool) (t : Text) : Option (Value × Text) := do
  let (whole, rest) ← wholeDigits? t
  let (fraction, rest) := fractionDigits rest
  let digits := valueOfDigits 10 (whole ++ fraction)
  match exponentPart? rest with
  | some (e, after) =>
    return (.float (.ofDecimal negative digits (e - fraction.length)), after)
  | none =>
    if fraction.isEmpty then return (.int (if negative then -(digits : Int) else digits), rest)
    else return (.float (.ofDecimal negative digits (-(fraction.length : Int))), rest)

/-- The words that stand for values. -/
def constants : List (Text × Value) :=
  [("null", .null), ("true", .bool true), ("false", .bool false), ("NaN", .float .nan),
   ("Infinity", .float (.infinite false)), ("-Infinity", .float (.infinite true))]

/-- A value that is neither string, list nor object. -/
def readScalar? (t : Text) : Option (Value × Text) :=
  match constants.findSome? (fun (word, v) => (Text.afterStart? word t).map (v, ·)) with
  | some found => some found
  | none =>
    match t with
    | '-' :: rest => readMagnitude? true rest
    | _ => readMagnitude? false t

mutual

/-- A value in front of a text that starts without space. -/
def readValue? : Nat → Text → Option (Value × Text)
  | 0, _ => none
  | fuel + 1, t =>
    match t with
    | '"' :: rest => (readString? rest).map fun (s, after) => (.text s, after)
    | '[' :: rest =>
      match skipSpace rest with
      | ']' :: after => some (.list [], after)
      | items => (readItems? fuel items).map fun (vs, after) => (.list vs, after)
    | '{' :: rest =>
      match skipSpace rest with
      | '}' :: after => some (.object [], after)
      | members => (readMembers? fuel members).map fun (ms, after) =>
          (.object (Entries.insertAll [] ms), after)
    | _ => readScalar? t

/-- The items of a list up to its closing bracket. -/
def readItems? : Nat → Text → Option (List Value × Text)
  | 0, _ => none
  | fuel + 1, t => do
    let (v, rest) ← readValue? fuel t
    match skipSpace rest with
    | ']' :: after => return ([v], after)
    | ',' :: more =>
      let (vs, after) ← readItems? fuel (skipSpace more)
      return (v :: vs, after)
    | _ => none

/-- The members of an object up to its closing brace. -/
def readMembers? : Nat → Text → Option (List (Text × Value) × Text)
  | 0, _ => none
  | fuel + 1, t =>
    match t with
    | '"' :: start => do
      let (key, rest) ← readString? start
      match skipSpace rest with
      | ':' :: valueStart =>
        let (v, rest) ← readValue? fuel (skipSpace valueStart)
        match skipSpace rest with
        | '}' :: after => return ([(key, v)], after)
        | ',' :: more =>
          let (ms, after) ← readMembers? fuel (skipSpace more)
          return ((key, v) :: ms, after)
        | _ => none
      | _ => none
    | _ => none

end

/-- The value that a whole text writes. -/
def read? (t : Text) : Option Value := do
  let (v, rest) ← readValue? (t.length + 1) (skipSpace t)
  if (skipSpace rest).isEmpty then return v else none

end Marginalia.Json
