import Marginalia.Text.Case

/-!
# Comparing without regard to case

Two characters are alike when their lower-case characters are equal or belong to one group of letters that
share a capital.
-/

namespace Marginalia

/-- Groups of lower-case letters that share a capital. -/
def sharedCapitals : List (List Nat) :=
  [[0x69, 0x131], [0x73, 0x17f], [0xb5, 0x3bc], [0x345, 0x3b9, 0x1fbe], [0x390, 0x1fd3],
   [0x3b0, 0x1fe3], [0x3b2, 0x3d0], [0x3b5, 0x3f5], [0x3b8, 0x3d1], [0x3ba, 0x3f0],
   [0x3c0, 0x3d6], [0x3c1, 0x3f1], [0x3c2, 0x3c3], [0x3c6, 0x3d5], [0x432, 0x1c80],
   [0x434, 0x1c81], [0x43e, 0x1c82], [0x441, 0x1c83], [0x442, 0x1c84, 0x1c85], [0x44a, 0x1c86],
   [0x463, 0x1c87], [0x1c88, 0xa64b], [0x1e61, 0x1e9b], [0xfb05, 0xfb06]]

/-- The lower-case code point used for comparing; the capital I with a dot counts as an i. -/
def foldCode (c : Char) : Nat := if c = 'İ' then 'i'.toNat else (lowerChar c).toNat

/-- Lower-case code points that count as equal to `n`, itself included. -/
def alikeCodes (n : Nat) : List Nat :=
  match sharedCapitals.find? (·.contains n) with
  | some group => group
  | none => [n]

/-- Code points whose lower-case code point is `n`. -/
def casesOf (n : Nat) : List Nat :=
  n :: lowerSteps.filterMap fun (first, last, step, offset) =>
    let capital := ((n : Int) - offset).toNat
    if (n : Int) - offset == capital && first ≤ capital && capital ≤ last
        && (capital - first) % step == 0 then some capital
    else none

/-- All code points that count as equal to a character when case is ignored. -/
def alike (c : Char) : List Nat :=
  let codes := (alikeCodes (foldCode c)).flatMap casesOf
  if codes.contains 'i'.toNat then 'İ'.toNat :: codes else codes

end Marginalia
