import Marginalia.Value.Basic

/-!
# Values of plain texts

A plain text in a settings file is a truth value, a number or null if it is written like one. Numbers may have
underscores between their digits, a base, or parts of sixty.
-/

namespace Marginalia.Yaml

/-- Words for truth values, each in three spellings. -/
def truthWords : List (Text × Bool) :=
  [("yes", true), ("Yes", true), ("YES", true), ("no", false), ("No", false), ("NO", false),
   ("true", true), ("True", true), ("TRUE", true), ("false", false), ("False", false), ("FALSE", false),
   ("on", true), ("On", true), ("ON", true), ("off", false), ("Off", false), ("OFF", false)]

/-- Words for null. The empty text is one of them. -/
def nullWords : List Text := ["", "~", "null", "Null", "NULL"]

/-- A sign in front of a text: whether it is a minus, and what follows. -/
def sign (t : Text) : Bool × Text :=
  match t with
  | '-' :: rest => (true, rest)
  | '+' :: rest => (false, rest)
  | _ => (false, t)

/-- A decimal digit or an underscore. -/
def isDigitMark (c : Char) : Bool := c.isDigit || c == '_'

/-- A text without its underscores. -/
def bare (t : Text) : Text := t.filter (· != '_')

/-- The text begins with a digit and goes on with digits and underscores. -/
def isGrouped (t : Text) : Bool := t.head?.any Char.isDigit && t.all isDigitMark

/-- A part of sixty: one or two digits, the first of two below six. -/
def isSixtieth (t : Text) : Bool :=
  match t with
  | [a] => a.isDigit
  | [a, b] => ('0' ≤ a && a ≤ '5') && b.isDigit
  | _ => false

/-- The number of parts in base sixty. -/
def ofSixtieths (parts : List Text) : Nat :=
  parts.foldl (fun n part => n * 60 + valueOfDigits 10 part) 0

/-- The magnitude of a whole number. -/
def magnitude? (t : Text) : Option Nat :=
  match t with
  | ['0'] => some 0
  | '0' :: 'b' :: digits =>
    if !digits.isEmpty && digits.all (fun c => c == '0' || c == '1' || c == '_') then
      some (valueOfDigits 2 (bare digits))
    else none
  | '0' :: 'x' :: digits =>
    if !digits.isEmpty && digits.all (fun c => (hexValue? c).isSome || c == '_') then
      some (valueOfDigits 16 (bare digits))
    else none
  | '0' :: digits =>
    if digits.all (fun c => ('0' ≤ c && c ≤ '7') || c == '_') then some (valueOfDigits 8 (bare digits)) else none
  | _ =>
    match Text.splitOn (· == ':') t with
    | [] => none
    | [digits] => if isGrouped digits then some (valueOfDigits 10 (bare digits)) else none
    | first :: parts =>
      if isGrouped first && parts.all isSixtieth then some (ofSixtieths (bare first :: parts)) else none

/-- A whole number. -/
def int? (t : Text) : Option Int :=
  let (negative, rest) := sign t
  (magnitude? rest).map fun n => if negative then -(n : Int) else n

/-- The exponent at the end of a number, which needs its sign; nothing at all is exponent zero. -/
def exponent? (t : Text) : Option Int :=
  match t with
  | [] => some 0
  | e :: s :: digits =>
    if (e == 'e' || e == 'E') && (s == '-' || s == '+') && !digits.isEmpty && digits.all Char.isDigit then
      let n : Int := valueOfDigits 10 digits
      some (if s == '-' then -n else n)
    else none
  | _ => none

/-- The words for infinity and for no number, after their sign. -/
def infinityWords : List Text := [".inf", ".Inf", ".INF"]

/-- The words for no number. -/
def nanWords : List Text := [".nan", ".NaN", ".NAN"]

/-- A number with a point. A number that starts with the point has no sign. -/
def float? (t : Text) : Option Binary64 :=
  let (negative, rest) := sign t
  if infinityWords.contains rest then some (.infinite negative)
  else if nanWords.contains t then some .nan
  else
    let whole := rest.takeWhile (· != '.')
    match rest.dropWhile (· != '.') with
    | [] => none
    | _ :: after =>
      let fraction := after.takeWhile isDigitMark
      let tail := after.dropWhile isDigitMark
      let digits := bare fraction
      match Text.splitOn (· == ':') whole with
      | [] => none
      | [_] =>
        let wellFormed :=
          if whole.isEmpty then rest == t && isGrouped fraction else isGrouped whole
        if !wellFormed then none
        else (exponent? tail).map fun e =>
          .ofDecimal negative (valueOfDigits 10 (bare whole ++ digits)) (e - (digits.length : Int))
      | first :: parts =>
        if isGrouped first && parts.all isSixtieth && tail.isEmpty then
          some (.ofDecimal negative
            (ofSixtieths (bare first :: parts) * Nat.pow 10 digits.length + valueOfDigits 10 digits)
            (-(digits.length : Int)))
        else none

/-- The value of a plain text. A single equals sign has none, nor has the mark for merging. -/
def resolve? (t : Text) : Option Value :=
  if t == ['='] || t == ['<', '<'] then none
  else if nullWords.contains t then some .null
  else
    match truthWords.find? (·.1 == t), float? t, int? t with
    | some (_, b), _, _ => some (.bool b)
    | none, some x, _ => some (.float x)
    | none, none, some n => some (.int n)
    | none, none, none => some (.text t)

end Marginalia.Yaml
