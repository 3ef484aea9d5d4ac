import Marginalia.Fault

/-!
# Time stamps

The time at which a file was last changed, in seconds and nanoseconds since the start of 1970, and the date
of such a time in the Gregorian calendar.
-/

namespace Marginalia

/-- A time since the start of 1970. -/
structure Stamp where
  seconds : Int
  nanos : Nat := 0
  deriving DecidableEq, Repr

namespace Stamp

/-- A number of seconds as whole seconds and `units` of a second; `round` makes a whole number of a quotient.
    The fraction is scaled in floating point. -/
def split (units : Nat) (round : Int → Nat → Int) (x : Binary64) : Int × Nat :=
  match x.toDyadic? with
  | none => (0, 0)
  | some (num, den) =>
    let whole := num.tdiv den
    let rest := num.tmod den
    let scaled := (Binary64.ofRatio (rest < 0) rest.natAbs den).mul (Binary64.ofInt units)
    let parts : Int := (scaled.toDyadic?.map fun (a, b) => round a b).getD 0
    if parts < 0 then (whole - 1, (parts + units).toNat)
    else if (units : Int) ≤ parts then (whole + 1, (parts - units).toNat)
    else (whole, parts.toNat)

/-- The stamp of a number of seconds. What is smaller than a nanosecond is cut off. -/
def ofSeconds (x : Binary64) : Stamp :=
  let (seconds, nanos) := split 1000000000 (fun a b => a.fdiv b) x
  ⟨seconds, nanos⟩

/-- The stamp as one number of seconds. -/
def toSeconds (s : Stamp) : Binary64 :=
  (Binary64.ofInt s.seconds).add ((Binary64.ofDecimal false 1 (-9)).mul (Binary64.ofInt s.nanos))

/-- The quotient rounded to the nearest whole number, a half going to the even neighbour. -/
def nearest (num : Int) (den : Nat) : Int :=
  let n := roundDiv num.natAbs den
  if num < 0 then -(n : Int) else n

/-- The day of a stamp, counted from the start of 1970. The time is taken to the nearest microsecond. -/
def day (s : Stamp) : Int := (split 1000000 nearest s.toSeconds).1.fdiv 86400

end Stamp

/-- A day of the calendar. -/
structure Date where
  year : Int
  month : Nat
  day : Nat
  deriving DecidableEq, Repr

namespace Date

/-- The date of a day counted from the start of 1970. Years are counted from March, so that the day that a
    leap year has more is the last one of its year; four hundred years have 146097 days. -/
def ofDay (n : Int) : Date :=
  let shifted := n + 719468
  let era := shifted.fdiv 146097
  let dayOfEra := (shifted - era * 146097).toNat
  let yearOfEra := (dayOfEra - dayOfEra / 1460 + dayOfEra / 36524 - dayOfEra / 146096) / 365
  let dayOfYear := dayOfEra - (365 * yearOfEra + yearOfEra / 4 - yearOfEra / 100)
  let monthFromMarch := (5 * dayOfYear + 2) / 153
  let month := if monthFromMarch < 10 then monthFromMarch + 3 else monthFromMarch - 9
  { year := yearOfEra + era * 400 + (if month ≤ 2 then 1 else 0)
    month
    day := dayOfYear - (153 * monthFromMarch + 2) / 5 + 1 }

/-- A date as year, month and day. -/
def toText (d : Date) : Text :=
  decimalInt d.year ++ "/" ++ (decimal d.month).leftpad 2 '0' ++ "/" ++ (decimal d.day).leftpad 2 '0'

end Date

/-- The date of a stamp. The calendar has the years from 1 to 9999. -/
def Stamp.date (s : Stamp) : Except Fault Date :=
  let d := Date.ofDay s.day
  if 1 ≤ d.year ∧ d.year ≤ 9999 then .ok d else .error (.yearOutOfRange d.year)

end Marginalia
