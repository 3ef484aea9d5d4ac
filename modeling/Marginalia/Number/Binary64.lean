import Marginalia.Number.Rounding
import Marginalia.Text.Digits

/-!
# Binary floating-point numbers

Numbers with a mantissa of 53 bits. A finite number is kept as `mantissa * 2 ^ exponent`, so that every
operation is exact arithmetic followed by one rounding to the nearest number, and writing a number is a
question about integers.
-/

namespace Marginalia

/-- A floating-point number: finite with its sign, an infinity, or not a number. -/
inductive Binary64 where
  | finite (negative : Bool) (mantissa : Nat) (exponent : Int)
  | infinite (negative : Bool)
  | nan
  deriving DecidableEq, Repr

namespace Binary64

/-- The least mantissa of a number that is not near zero; all of them are below twice this one. -/
def leastMantissa : Nat := Nat.pow 2 52

/-- The least exponent of a finite number. -/
def minExponent : Int := -1074

/-- The exponent that gives `num / den` a mantissa of 53 bits, or the least exponent. -/
def exponentFor (num den : Nat) : Int :=
  let guess : Int := (num.log2 : Int) - (den.log2 : Int) - 52
  let (n, d) := scaleTwo num den (-guess)
  max minExponent (if n < d * leastMantissa then guess - 1 else guess)

/-- The number nearest to `num / den` with the given sign; a tie goes to the even mantissa. -/
def ofRatio (negative : Bool) (num den : Nat) : Binary64 :=
  if num = 0 then .finite negative 0 minExponent
  else
    let e := exponentFor num den
    let (n, d) := scaleTwo num den (-e)
    let mantissa := roundDiv n d
    let (mantissa, e) := if mantissa = 2 * leastMantissa then (leastMantissa, e + 1) else (mantissa, e)
    if 971 < e then .infinite negative else .finite negative mantissa e

/-- The number nearest to `digits * 10 ^ exponent`. -/
def ofDecimal (negative : Bool) (digits : Nat) (exponent : Int) : Binary64 :=
  let (n, d) := scaleTen digits 1 exponent
  ofRatio negative n d

/-- The number nearest to an integer. -/
def ofInt (n : Int) : Binary64 := ofRatio (n < 0) n.natAbs 1

/-- The exact value as an integer over a power of two. -/
def toDyadic? : Binary64 → Option (Int × Nat)
  | .finite negative mantissa exponent =>
    let (num, den) := scaleTwo mantissa 1 exponent
    some (if negative then -(num : Int) else num, den)
  | _ => none

/-- The product, rounded once. Products with an infinity or no number are no number. -/
def mul : Binary64 → Binary64 → Binary64
  | .finite s m e, .finite s' m' e' =>
    let (n, d) := scaleTwo (m * m') 1 (e + e')
    ofRatio (s != s') n d
  | _, _ => .nan

/-- The sum, rounded once. Sums with an infinity or no number are no number. -/
def add (x y : Binary64) : Binary64 :=
  match x.toDyadic?, y.toDyadic? with
  | some (a, b), some (c, d) =>
    let num := a * (d : Int) + c * (b : Int)
    ofRatio (num < 0) num.natAbs (b * d)
  | _, _ => .nan

/-- The greatest integer not above a finite number. -/
def floor? (x : Binary64) : Option Int :=
  x.toDyadic?.map fun (num, den) => Int.fdiv num den

/-- A finite number is zero. -/
def isZero : Binary64 → Bool
  | .finite _ mantissa _ => mantissa == 0
  | _ => false

/-- The power of ten of the leading digit of `num / den`, for a quotient within the range of finite
    numbers. -/
def leadingPower (num den : Nat) : Int :=
  if den ≤ num then ((Nat.toDigits 10 (num / den)).length : Int) - 1
  else
    match (List.range 400).find? (fun k => den ≤ num * Nat.pow 10 k) with
    | some k => -(k : Int)
    | none => 0

/-- The multiple of `10 ^ power` nearest to `num / den` that lies between `low / den` and `high / den`,
    ends included if `closed`; a tie goes to the smaller one. -/
def gridPoint? (low num high den : Nat) (closed : Bool) (power : Int) : Option Nat :=
  let (unit, d) := scaleTen 1 1 power
  let q := (num * d) / (den * unit)
  let inside (k : Nat) : Bool :=
    let point := k * unit * den
    if closed then low * d ≤ point && point ≤ high * d else low * d < point && point < high * d
  let remainder := num * d - q * (den * unit)
  let nearerBelow := 2 * remainder ≤ den * unit
  match inside q, inside (q + 1) with
  | true, true => some (if nearerBelow then q else q + 1)
  | true, false => some q
  | false, true => some (q + 1)
  | false, false => none

/-- Decimal digits and power of ten of the shortest decimal that rounds to `mantissa * 2 ^ exponent`, and
    of the shortest ones the nearest. -/
def shortest (mantissa : Nat) (exponent : Int) : Nat × Int :=
  let below := if mantissa = leastMantissa ∧ minExponent < exponent then 4 * mantissa - 1 else 4 * mantissa - 2
  let (_, den) := scaleTwo 1 1 (exponent - 2)
  let scale (n : Nat) : Nat := (scaleTwo n 1 (exponent - 2)).1
  let low := scale below
  let num := scale (4 * mantissa)
  let high := scale (4 * mantissa + 2)
  let lead := leadingPower num den
  let attempt (digits : Nat) : Option (Nat × Int) :=
    let power := lead - (digits : Int)
    (gridPoint? low num high den (mantissa % 2 == 0) power).map (·, power)
  ((List.range 18).findSome? attempt).getD (0, 0)

/-- Digits without the zeros at their end. -/
def significant (digits : Nat) : Text := Text.dropRightWhile (· == '0') (decimal digits)

/-- The writing of a magnitude from its digits, which stand for `0.digits * 10 ^ point`: positional from
    `10 ^ -4` up to `10 ^ 16`, otherwise with an exponent of at least two digits. -/
def layout (digits : Text) (point : Int) : Text :=
  if -4 < point ∧ point ≤ 16 then
    if point ≤ 0 then "0." ++ List.replicate (-point).toNat '0' ++ digits
    else if digits.length ≤ point.toNat then
      digits ++ List.replicate (point.toNat - digits.length) '0' ++ ".0"
    else digits.take point.toNat ++ "." ++ digits.drop point.toNat
  else
    let e := point - 1
    let fraction : Text := if digits.length ≤ 1 then "" else "." ++ digits.drop 1
    let sign : Text := if e < 0 then "-" else "+"
    digits.take 1 ++ fraction ++ "e" ++ sign ++ (decimal e.natAbs).leftpad 2 '0'

/-- The shortest writing that reads back as the same number. -/
def toText : Binary64 → Text
  | .nan => "nan"
  | .infinite negative => if negative then "-inf" else "inf"
  | .finite negative mantissa exponent =>
    let sign : Text := if negative then "-" else ""
    if mantissa = 0 then sign ++ "0.0"
    else
      let (digits, power) := shortest mantissa exponent
      sign ++ layout (significant digits) ((decimal digits).length + power)

/-- A magnitude `num / den` with exactly `places` digits after the point. -/
def fixedRatio (places num den : Nat) : Text :=
  let digits := (decimal (roundDiv (num * Nat.pow 10 places) den)).leftpad (places + 1) '0'
  let whole := digits.take (digits.length - places)
  if places = 0 then whole else whole ++ "." ++ digits.drop (digits.length - places)

/-- The exact value with `places` digits after the point, a half going to the even digit. -/
def toFixed (places : Nat) (x : Binary64) : Text :=
  match x with
  | .finite negative mantissa exponent =>
    let (num, den) := scaleTwo mantissa 1 exponent
    (if negative then "-" else "") ++ fixedRatio places num den
  | _ => x.toText

/-- A share as a whole number of percent. The share is multiplied by one hundred in floating point, so a
    share that is no sum of few powers of two may fall on either side of a half. -/
def percent (share : Binary64) : Text := toFixed 0 (mul share (ofInt 100)) ++ "%"

end Binary64

end Marginalia
