import Marginalia.Number.Binary64
import Mathlib.Algebra.Order.Field.Power
import Mathlib.Algebra.Order.Ring.Abs
import Mathlib.Tactic.FieldSimp
import Mathlib.Tactic.Linarith
import Mathlib.Tactic.NormNum
import Mathlib.Tactic.Positivity
import Mathlib.Tactic.Ring

/-!
# Rounding to floating-point numbers

Every quotient that is nearer to a floating-point number than to its neighbours is rounded to that number, and
one in the middle of two is rounded to the number with the even mantissa. The quotient is looked at as a
rational number, so that it does not matter which numerator and denominator stand for it.
-/

namespace Marginalia

/-! ## Scaling -/

theorem scaleTwo_pos {den : Nat} (num : Nat) (positive : 0 < den) (e : Int) : 0 < (scaleTwo num den e).2 := by
  unfold scaleTwo
  split
  · exact positive
  · exact Nat.mul_pos positive (Nat.pow_pos (by decide))

theorem scaleTen_pos {den : Nat} (num : Nat) (positive : 0 < den) (e : Int) : 0 < (scaleTen num den e).2 := by
  unfold scaleTen
  split
  · exact positive
  · exact Nat.mul_pos positive (Nat.pow_pos (by decide))

/-- A power with the exponent on the side where it is natural. -/
theorem scaled_ratio (base num den : Nat) (e : Int) :
    (if 0 ≤ e then ((num * base ^ e.toNat : ℕ) : ℚ) / den else (num : ℚ) / ((den * base ^ (-e).toNat : ℕ) : ℚ))
      = (num : ℚ) / den * (base : ℚ) ^ e := by
  split
  · next natural =>
    obtain ⟨n, rfl⟩ := Int.eq_ofNat_of_zero_le natural
    rw [Int.toNat_natCast, zpow_natCast]
    push_cast
    ring
  · next negative =>
    obtain ⟨n, hn⟩ := Int.eq_ofNat_of_zero_le (show 0 ≤ -e by omega)
    have flipped : e = -(n : ℤ) := by omega
    rw [flipped, neg_neg, Int.toNat_natCast, zpow_neg, zpow_natCast]
    push_cast
    rw [div_mul_eq_div_div, div_eq_mul_inv _ ((base : ℚ) ^ n)]

theorem scaleTwo_ratio (num den : Nat) (e : Int) :
    ((scaleTwo num den e).1 : ℚ) / (scaleTwo num den e).2 = (num : ℚ) / den * 2 ^ e := by
  have scaled := scaled_ratio 2 num den e
  rw [scaleTwo]
  split
  · next natural =>
    rw [if_pos natural] at scaled
    exact_mod_cast scaled
  · next negative =>
    rw [if_neg negative] at scaled
    exact_mod_cast scaled

theorem scaleTen_ratio (num den : Nat) (e : Int) :
    ((scaleTen num den e).1 : ℚ) / (scaleTen num den e).2 = (num : ℚ) / den * 10 ^ e := by
  have scaled := scaled_ratio 10 num den e
  rw [scaleTen]
  split
  · next natural =>
    rw [if_pos natural] at scaled
    exact_mod_cast scaled
  · next negative =>
    rw [if_neg negative] at scaled
    exact_mod_cast scaled

/-! ## The nearest whole number -/

/-- The whole number `m` is nearest to `v`, and even if it is one of two. -/
structure Nearest (v : ℚ) (m : Nat) : Prop where
  low : 2 * (m : ℚ) - 1 ≤ 2 * v
  high : 2 * v ≤ 2 * (m : ℚ) + 1
  odd : m % 2 = 1 → 2 * (m : ℚ) - 1 < 2 * v ∧ 2 * v < 2 * (m : ℚ) + 1

/-- What is nearest to a quotient, said about whole numbers. -/
theorem Nearest.quotient {num den m : Nat} (positive : 0 < den) (near : Nearest ((num : ℚ) / den) m) :
    (2 * (m : ℤ) - 1) * den ≤ 2 * num ∧ 2 * (num : ℤ) ≤ (2 * (m : ℤ) + 1) * den
      ∧ (m % 2 = 1 → (2 * (m : ℤ) - 1) * den < 2 * num ∧ 2 * (num : ℤ) < (2 * (m : ℤ) + 1) * den) := by
  have denominator : (0 : ℚ) < den := by exact_mod_cast positive
  obtain ⟨low, high, odd⟩ := near
  rw [← mul_div_assoc] at low high odd
  rw [le_div_iff₀ denominator] at low
  rw [div_le_iff₀ denominator] at high
  refine ⟨by exact_mod_cast low, by exact_mod_cast high, fun isOdd => ?_⟩
  obtain ⟨below, above⟩ := odd isOdd
  rw [lt_div_iff₀ denominator] at below
  rw [div_lt_iff₀ denominator] at above
  exact ⟨by exact_mod_cast below, by exact_mod_cast above⟩

theorem roundDiv_eq_of_nearest {num den m : Nat} (positive : 0 < den) (near : Nearest ((num : ℚ) / den) m) :
    roundDiv num den = m := by
  obtain ⟨low, high, strict⟩ := near.quotient positive
  have whole : (den : ℤ) * ((num / den : ℕ) : ℤ) + ((num % den : ℕ) : ℤ) = num := by
    exact_mod_cast Nat.div_add_mod num den
  have remainder : num % den < den := Nat.mod_lt num positive
  unfold roundDiv
  generalize num / den = q at *
  generalize num % den = r at *
  have atMost : q ≤ m := by
    by_contra further
    have step : (m : ℤ) + 1 ≤ q := by omega
    nlinarith
  have atLeast : m ≤ q + 1 := by
    by_contra further
    have step : (q : ℤ) + 2 ≤ m := by omega
    nlinarith
  rcases (by omega : m = q ∨ m = q + 1) with rfl | rfl
  · have small : 2 * r ≤ den := by
      have : 2 * (r : ℤ) ≤ den := by nlinarith
      omega
    have tie : m % 2 = 1 → 2 * r < den := by
      intro odd
      have : 2 * (r : ℤ) < den := by nlinarith [(strict odd).2]
      omega
    simp only
    split
    · rfl
    · split
      · omega
      · omega
  · push_cast at low strict
    have large : den ≤ 2 * r := by
      have : (den : ℤ) ≤ 2 * r := by nlinarith
      omega
    have tie : (q + 1) % 2 = 1 → den < 2 * r := by
      intro odd
      have : (den : ℤ) < 2 * r := by nlinarith [(strict odd).1]
      omega
    simp only
    split
    · omega
    · split
      · rfl
      · omega

theorem roundDiv_le {num den k : Nat} (positive : 0 < den) (bound : num ≤ k * den) : roundDiv num den ≤ k := by
  have whole := Nat.div_add_mod num den
  have remainder : num % den < den := Nat.mod_lt num positive
  unfold roundDiv
  generalize num / den = q at *
  generalize num % den = r at *
  have atMost : q ≤ k := by
    by_contra further
    have : (k + 1) * den ≤ q * den := Nat.mul_le_mul_right den (by omega)
    nlinarith
  have rest : q = k → r = 0 := by
    rintro rfl
    nlinarith
  simp only
  split
  · exact atMost
  · split <;> omega

theorem le_roundDiv {num den k : Nat} (positive : 0 < den) (bound : k * den ≤ num) : k ≤ roundDiv num den := by
  have quotient : k ≤ num / den := (Nat.le_div_iff_mul_le positive).mpr bound
  unfold roundDiv
  simp only
  split
  · exact quotient
  · split <;> omega

/-! ## The exponent -/

theorem zpow_two_lt {a b : Int} : (2 : ℚ) ^ a < 2 ^ b ↔ a < b :=
  zpow_lt_zpow_iff_right₀ (by norm_num)

/-- A power of two over the quotient of two numbers, from their lengths in bits. -/
theorem log2_ratio {num den : Nat} (numerator : num ≠ 0) (denominator : den ≠ 0) :
    (2 : ℚ) ^ ((num.log2 : ℤ) - den.log2 - 1) < (num : ℚ) / den
      ∧ (num : ℚ) / den < 2 ^ ((num.log2 : ℤ) - den.log2 + 1) := by
  obtain ⟨numLow, numHigh⟩ := (Nat.log2_eq_iff numerator).mp rfl
  obtain ⟨denLow, denHigh⟩ := (Nat.log2_eq_iff denominator).mp rfl
  generalize num.log2 = a at *
  generalize den.log2 = b at *
  have positive : (0 : ℚ) < den := by
    have : 0 < den := Nat.pos_of_ne_zero denominator
    exact_mod_cast this
  have numLow' : (2 : ℚ) ^ (a : ℤ) ≤ num := by exact_mod_cast numLow
  have numHigh' : (num : ℚ) < 2 ^ ((a : ℤ) + 1) := by exact_mod_cast numHigh
  have denLow' : (2 : ℚ) ^ (b : ℤ) ≤ den := by exact_mod_cast denLow
  have denHigh' : (den : ℚ) < 2 ^ ((b : ℤ) + 1) := by exact_mod_cast denHigh
  constructor
  · rw [lt_div_iff₀ positive]
    calc (2 : ℚ) ^ ((a : ℤ) - b - 1) * den < 2 ^ ((a : ℤ) - b - 1) * 2 ^ ((b : ℤ) + 1) := by gcongr
      _ = 2 ^ (a : ℤ) := by
        rw [← zpow_add₀ two_ne_zero]
        congr 1
        ring
      _ ≤ num := numLow'
  · rw [div_lt_iff₀ positive]
    calc (num : ℚ) < 2 ^ ((a : ℤ) + 1) := numHigh'
      _ = 2 ^ ((a : ℤ) - b + 1) * 2 ^ (b : ℤ) := by
        rw [← zpow_add₀ two_ne_zero]
        congr 1
        ring
      _ ≤ 2 ^ ((a : ℤ) - b + 1) * den := by gcongr

namespace Binary64

theorem leastMantissa_cast : (leastMantissa : ℚ) = 2 ^ (52 : ℤ) := by
  unfold leastMantissa
  norm_num

/-- The exponent at which a quotient has a mantissa of 53 bits. -/
theorem exponentFor_eq {num den : Nat} (numerator : num ≠ 0) (positive : 0 < den) :
    ∃ g : Int, exponentFor num den = max minExponent g
      ∧ 2 ^ (52 + g) ≤ (num : ℚ) / den ∧ (num : ℚ) / den < 2 ^ (53 + g) := by
  obtain ⟨low, high⟩ := log2_ratio numerator positive.ne'
  unfold exponentFor
  generalize (num.log2 : ℤ) - den.log2 = k at *
  have scaled := scaleTwo_ratio num den (-(k - 52))
  have scaledPositive : (0 : ℚ) < (scaleTwo num den (-(k - 52))).2 := by
    exact_mod_cast scaleTwo_pos num positive (-(k - 52))
  have below : (scaleTwo num den (-(k - 52))).1 < (scaleTwo num den (-(k - 52))).2 * leastMantissa
      ↔ (num : ℚ) / den < 2 ^ k := by
    calc _ ↔ ((scaleTwo num den (-(k - 52))).1 : ℚ) / (scaleTwo num den (-(k - 52))).2 < leastMantissa := by
          rw [div_lt_iff₀ scaledPositive, mul_comm]
          exact_mod_cast Iff.rfl
      _ ↔ (num : ℚ) / den * 2 ^ (-(k - 52)) < 2 ^ (52 : ℤ) := by rw [scaled, leastMantissa_cast]
      _ ↔ (num : ℚ) / den < 2 ^ k := by
          rw [← lt_div_iff₀ (by positivity), ← zpow_sub₀ two_ne_zero]
          ring_nf
  simp only
  split
  · next less =>
    refine ⟨k - 52 - 1, rfl, ?_, ?_⟩
    · have : 52 + (k - 52 - 1) = k - 1 := by ring
      rw [this]
      exact low.le
    · have : 53 + (k - 52 - 1) = k := by ring
      rw [this]
      exact below.mp less
  · next notLess =>
    refine ⟨k - 52, rfl, ?_, ?_⟩
    · have : 52 + (k - 52) = k := by ring
      rw [this]
      exact not_lt.mp (fun less => notLess (below.mpr less))
    · have : 53 + (k - 52) = k + 1 := by ring
      rw [this]
      exact high

/-! ## The nearest number -/

/-- A mantissa and an exponent of a finite number: the mantissa has 53 bits unless the exponent is the least
    one. -/
structure Genuine (mantissa : Nat) (exponent : Int) : Prop where
  mantissa_lt : mantissa < 2 * leastMantissa
  least : minExponent ≤ exponent
  greatest : exponent ≤ 971
  full : leastMantissa ≤ mantissa ∨ exponent = minExponent

instance (mantissa : Nat) (exponent : Int) : Decidable (Genuine mantissa exponent) :=
  decidable_of_iff (mantissa < 2 * leastMantissa ∧ minExponent ≤ exponent ∧ exponent ≤ 971
      ∧ (leastMantissa ≤ mantissa ∨ exponent = minExponent))
    ⟨fun ⟨a, b, c, d⟩ => ⟨a, b, c, d⟩, fun h => ⟨h.1, h.2, h.3, h.4⟩⟩

/-- The lower end of the quotients that round to a number, in quarters of its last binary digit. Below a power
    of two the numbers lie closer together. -/
def lowerEnd (mantissa : Nat) (exponent : Int) : Nat :=
  if mantissa = leastMantissa ∧ minExponent < exponent then 4 * mantissa - 1 else 4 * mantissa - 2

/-- The quotient lies between the middles to both neighbours of a number; a middle itself belongs to the number
    with the even mantissa. -/
structure RoundsTo (v : ℚ) (mantissa : Nat) (exponent : Int) : Prop where
  low : (lowerEnd mantissa exponent : ℚ) * 2 ^ (exponent - 2) ≤ v
  high : v ≤ ((4 * mantissa + 2 : ℕ) : ℚ) * 2 ^ (exponent - 2)
  odd : mantissa % 2 = 1 →
    (lowerEnd mantissa exponent : ℚ) * 2 ^ (exponent - 2) < v
      ∧ v < ((4 * mantissa + 2 : ℕ) : ℚ) * 2 ^ (exponent - 2)

/-- A rounded mantissa with its exponent; a mantissa that has become too long is carried. -/
def rounded (negative : Bool) (m : Nat) (e : Int) : Binary64 :=
  if m = 2 * leastMantissa then
    if 971 < e + 1 then .infinite negative else .finite negative leastMantissa (e + 1)
  else if 971 < e then .infinite negative else .finite negative m e

theorem ofRatio_eq {num den m : Nat} {e : Int} (negative : Bool) (numerator : num ≠ 0)
    (exponent : exponentFor num den = e)
    (mantissa : roundDiv (scaleTwo num den (-e)).1 (scaleTwo num den (-e)).2 = m) :
    ofRatio negative num den = rounded negative m e := by
  rw [ofRatio, if_neg numerator, exponent]
  simp only [mantissa]
  rw [rounded]
  by_cases carry : m = 2 * leastMantissa
  · rw [if_pos carry, if_pos carry]
  · rw [if_neg carry, if_neg carry]

theorem ofRatio_of_nearest {negative : Bool} {num den m : Nat} {e : Int} (numerator : num ≠ 0) (positive : 0 < den)
    (exponent : exponentFor num den = e) (near : Nearest ((num : ℚ) / den * 2 ^ (-e)) m) :
    ofRatio negative num den = rounded negative m e := by
  apply ofRatio_eq negative numerator exponent
  apply roundDiv_eq_of_nearest (scaleTwo_pos num positive (-e))
  rw [scaleTwo_ratio]
  exact near

theorem lowerEnd_ge (mantissa : Nat) (exponent : Int) : 4 * mantissa - 2 ≤ lowerEnd mantissa exponent := by
  unfold lowerEnd
  split <;> omega

theorem lowerEnd_cast_ge (mantissa : Nat) (exponent : Int) : 4 * (mantissa : ℚ) - 2 ≤ lowerEnd mantissa exponent := by
  have := lowerEnd_ge mantissa exponent
  have cast : (4 * (mantissa : ℤ) - 2 : ℤ) ≤ lowerEnd mantissa exponent := by omega
  exact_mod_cast cast

theorem lowerEnd_pos {mantissa : Nat} (positive : 0 < mantissa) (exponent : Int) :
    0 < lowerEnd mantissa exponent := by
  have := lowerEnd_ge mantissa exponent
  omega

theorem RoundsTo.pos {v : ℚ} {mantissa : Nat} {exponent : Int} (rounds : RoundsTo v mantissa exponent)
    (positive : 0 < mantissa) : 0 < v := by
  have lower : (0 : ℚ) < lowerEnd mantissa exponent := by exact_mod_cast lowerEnd_pos positive exponent
  exact lt_of_lt_of_le (by positivity) rounds.low

/-- One quarter of the last binary digit, brought to the scale of the mantissa. -/
theorem scaled_quarter (n : ℚ) (e : Int) : n * 2 ^ (e - 2) * 2 ^ (-e) = n / 4 := by
  rw [mul_assoc, ← zpow_add₀ two_ne_zero]
  have : e - 2 + -e = -2 := by ring
  rw [this]
  norm_num
  ring

theorem RoundsTo.scaled {v : ℚ} {m : Nat} {e : Int} (rounds : RoundsTo v m e) :
    (lowerEnd m e : ℚ) / 4 ≤ v * 2 ^ (-e) ∧ v * 2 ^ (-e) ≤ m + 1 / 2
      ∧ (m % 2 = 1 → (lowerEnd m e : ℚ) / 4 < v * 2 ^ (-e) ∧ v * 2 ^ (-e) < m + 1 / 2) := by
  have unit : (0 : ℚ) < 2 ^ (-e) := by positivity
  have upper : ((4 * m + 2 : ℕ) : ℚ) / 4 = m + 1 / 2 := by
    push_cast
    ring
  refine ⟨?_, ?_, ?_⟩
  · rw [← scaled_quarter]
    exact mul_le_mul_of_nonneg_right rounds.low unit.le
  · rw [← upper, ← scaled_quarter]
    exact mul_le_mul_of_nonneg_right rounds.high unit.le
  · intro odd
    rw [← upper, ← scaled_quarter, ← scaled_quarter]
    exact ⟨mul_lt_mul_of_pos_right (rounds.odd odd).1 unit, mul_lt_mul_of_pos_right (rounds.odd odd).2 unit⟩

theorem RoundsTo.nearest {v : ℚ} {m : Nat} {e : Int} (rounds : RoundsTo v m e) : Nearest (v * 2 ^ (-e)) m := by
  obtain ⟨low, high, odd⟩ := rounds.scaled
  have lower := lowerEnd_cast_ge m e
  refine ⟨by linarith, by linarith, fun isOdd => ?_⟩
  obtain ⟨strictLow, strictHigh⟩ := odd isOdd
  exact ⟨by linarith, by linarith⟩

/-- Scaling down by a power of two moves it to the other side of a comparison. -/
theorem le_mul_zpow_neg {v : ℚ} {k e : Int} : 2 ^ k ≤ v * 2 ^ (-e) ↔ 2 ^ (k + e) ≤ v := by
  rw [zpow_neg, ← div_eq_mul_inv, le_div_iff₀ (by positivity), zpow_add₀ two_ne_zero]

theorem mul_zpow_neg_lt {v : ℚ} {k e : Int} : v * 2 ^ (-e) < 2 ^ k ↔ v < 2 ^ (k + e) := by
  rw [zpow_neg, ← div_eq_mul_inv, div_lt_iff₀ (by positivity), zpow_add₀ two_ne_zero]

theorem RoundsTo.lt_two_zpow {v : ℚ} {m : Nat} {e : Int} (rounds : RoundsTo v m e) (genuine : Genuine m e) :
    v < 2 ^ (53 + e) := by
  obtain ⟨-, high, -⟩ := rounds.scaled
  have bound : (m : ℚ) + 1 ≤ 2 * leastMantissa := by exact_mod_cast genuine.mantissa_lt
  have doubled : (2 : ℚ) ^ (53 : ℤ) = 2 * 2 ^ (52 : ℤ) := by norm_num
  rw [← mul_zpow_neg_lt, doubled, ← leastMantissa_cast]
  linarith

/-- Only the least mantissa has quotients below itself that are not below the next power of two. -/
theorem RoundsTo.eq_leastMantissa {v : ℚ} {m : Nat} {e : Int} (rounds : RoundsTo v m e) (full : leastMantissa ≤ m)
    (short : v < 2 ^ (52 + e)) : m = leastMantissa := by
  obtain ⟨low, -, -⟩ := rounds.scaled
  rw [← mul_zpow_neg_lt, ← leastMantissa_cast] at short
  by_contra other
  have step : leastMantissa + 1 ≤ m := by omega
  have stepCast : (leastMantissa : ℚ) + 1 ≤ m := by exact_mod_cast step
  have lower := lowerEnd_cast_ge m e
  linarith

/-- Below a power of two a quotient that rounds to it has an exponent one less, and its mantissa is carried. -/
theorem RoundsTo.carried {v : ℚ} {e : Int} (rounds : RoundsTo v leastMantissa e) (above : minExponent < e)
    (short : v < 2 ^ (52 + e)) :
    2 ^ (52 + (e - 1)) ≤ v ∧ Nearest (v * 2 ^ (-(e - 1))) (2 * leastMantissa) := by
  obtain ⟨low, -, -⟩ := rounds.scaled
  have lower : (lowerEnd leastMantissa e : ℚ) = 4 * leastMantissa - 1 := by
    rw [lowerEnd, if_pos ⟨rfl, above⟩, Nat.cast_sub (by decide)]
    push_cast
    ring
  have double : v * 2 ^ (-(e - 1)) = 2 * (v * 2 ^ (-e)) := by
    have : -(e - 1) = 1 + -e := by ring
    rw [this, zpow_add₀ two_ne_zero, zpow_one]
    ring
  have big : (1 : ℚ) ≤ leastMantissa := by
    rw [leastMantissa_cast]
    norm_num
  rw [lower] at low
  rw [← mul_zpow_neg_lt, ← leastMantissa_cast] at short
  rw [← le_mul_zpow_neg, double, ← leastMantissa_cast]
  exact ⟨by linarith, by push_cast; linarith, by push_cast; linarith, by omega⟩

/-- The exponent at which a quotient has a mantissa of 53 bits is that of the number it rounds to. Just below a
    power of two it is one less, and the mantissa is carried. -/
theorem RoundsTo.exponent {v : ℚ} {m : Nat} {e g : Int} (rounds : RoundsTo v m e) (genuine : Genuine m e)
    (low : 2 ^ (52 + g) ≤ v) (high : v < 2 ^ (53 + g)) :
    max minExponent g = e
      ∨ max minExponent g = e - 1 ∧ m = leastMantissa ∧ Nearest (v * 2 ^ (-(e - 1))) (2 * leastMantissa) := by
  have leastExponent := genuine.least
  have atMost : g ≤ e := by
    have := zpow_two_lt.mp (lt_of_le_of_lt low (rounds.lt_two_zpow genuine))
    omega
  by_cases reaches : 2 ^ (52 + e) ≤ v
  · left
    have := zpow_two_lt.mp (lt_of_le_of_lt reaches high)
    omega
  · have short := not_le.mp reaches
    have less : g < e := by
      have := zpow_two_lt.mp (lt_of_le_of_lt low short)
      omega
    by_cases subnormal : e = minExponent
    · left
      omega
    · right
      obtain rfl := rounds.eq_leastMantissa (genuine.full.resolve_right subnormal) short
      obtain ⟨reachesBelow, nearest⟩ := rounds.carried (by omega) short
      have := zpow_two_lt.mp (lt_of_le_of_lt reachesBelow high)
      exact ⟨by omega, rfl, nearest⟩

/-- A quotient between the middles to the neighbours of a number is rounded to the number. -/
theorem ofRatio_of_roundsTo {negative : Bool} {num den m : Nat} {e : Int} (genuine : Genuine m e)
    (nonzero : 0 < m) (positive : 0 < den) (rounds : RoundsTo ((num : ℚ) / den) m e) :
    ofRatio negative num den = .finite negative m e := by
  have numerator : num ≠ 0 := by
    rintro rfl
    have := rounds.pos nonzero
    simp at this
  have mantissa := genuine.mantissa_lt
  have finite := genuine.greatest
  obtain ⟨g, exponent, low, high⟩ := exponentFor_eq numerator positive
  rcases rounds.exponent genuine low high with same | ⟨less, rfl, carried⟩
  · rw [ofRatio_of_nearest numerator positive (exponent.trans same) rounds.nearest, rounded, if_neg (by omega),
      if_neg (by omega)]
  · rw [ofRatio_of_nearest numerator positive (exponent.trans less) carried, rounded, if_pos rfl,
      if_neg (by omega), Int.sub_add_cancel]

theorem ofDecimal_of_roundsTo {negative : Bool} {digits m : Nat} {power e : Int} (genuine : Genuine m e)
    (nonzero : 0 < m) (rounds : RoundsTo ((digits : ℚ) * 10 ^ power) m e) :
    ofDecimal negative digits power = .finite negative m e := by
  have quotient : ((scaleTen digits 1 power).1 : ℚ) / (scaleTen digits 1 power).2 = digits * 10 ^ power := by
    rw [scaleTen_ratio, Nat.cast_one, div_one]
  rw [ofDecimal]
  exact ofRatio_of_roundsTo genuine nonzero (scaleTen_pos digits Nat.one_pos power) (quotient ▸ rounds)

/-! ## Numbers of the format -/

/-- A number that a computation can give: if it is finite, its mantissa and exponent are genuine. -/
def Proper : Binary64 → Prop
  | .finite _ mantissa exponent => Genuine mantissa exponent
  | _ => True

instance : DecidablePred Proper
  | .finite _ m e => inferInstanceAs (Decidable (Genuine m e))
  | .infinite _ => .isTrue trivial
  | .nan => .isTrue trivial

theorem proper_rounded (negative : Bool) {m : Nat} {e : Int} (short : m ≤ 2 * leastMantissa)
    (least : minExponent ≤ e) (full : leastMantissa ≤ m ∨ e = minExponent) : (rounded negative m e).Proper := by
  have positive : 0 < leastMantissa := Nat.pow_pos (by decide)
  unfold rounded
  split
  · split
    · trivial
    · next finite => exact ⟨by omega, by omega, by omega, .inl le_rfl⟩
  · split
    · trivial
    · next finite => exact ⟨by omega, least, by omega, full⟩

/-- Every rounding gives a number of the format. -/
theorem proper_ofRatio (negative : Bool) (num : Nat) {den : Nat} (positive : 0 < den) :
    (ofRatio negative num den).Proper := by
  by_cases zero : num = 0
  · rw [ofRatio, if_pos zero]
    exact ⟨Nat.mul_pos (by decide) (Nat.pow_pos (by decide)), le_rfl, by decide, .inr rfl⟩
  obtain ⟨g, exponent, low, high⟩ := exponentFor_eq zero positive
  rw [ofRatio_eq negative zero rfl rfl]
  generalize exponentFor num den = e at *
  have scaled := scaleTwo_ratio num den (-e)
  have scaledPos := scaleTwo_pos num positive (-e)
  have scaledCast : (0 : ℚ) < (scaleTwo num den (-e)).2 := by exact_mod_cast scaledPos
  have least : (leastMantissa : ℚ) = 2 ^ (52 : ℤ) := leastMantissa_cast
  apply proper_rounded
  · apply roundDiv_le scaledPos
    have below : (num : ℚ) / den * 2 ^ (-e) < 2 ^ (53 : ℤ) := by
      rw [mul_zpow_neg_lt]
      refine lt_of_lt_of_le high (zpow_le_zpow_right₀ (by norm_num) ?_)
      omega
    have doubled : (2 : ℚ) ^ (53 : ℤ) = 2 * 2 ^ (52 : ℤ) := by norm_num
    rw [← scaled, doubled, ← least, div_lt_iff₀ scaledCast] at below
    exact_mod_cast below.le
  · omega
  · rcases le_total minExponent g with normal | subnormal
    · left
      apply le_roundDiv scaledPos
      have chosen : e = g := exponent.trans (max_eq_right normal)
      have above : (2 : ℚ) ^ (52 : ℤ) ≤ (num : ℚ) / den * 2 ^ (-e) := by
        rw [le_mul_zpow_neg, chosen]
        exact low
      rw [← scaled, ← least, le_div_iff₀ scaledCast] at above
      exact_mod_cast above
    · right
      exact exponent.trans (max_eq_left subnormal)

theorem proper_ofDecimal (negative : Bool) (digits : Nat) (e : Int) : (ofDecimal negative digits e).Proper :=
  proper_ofRatio _ _ (scaleTen_pos digits Nat.one_pos e)

theorem toDyadic?_pos {x : Binary64} {num : Int} {den : Nat} (known : x.toDyadic? = some (num, den)) :
    0 < den := by
  cases x with
  | finite negative mantissa exponent =>
    have denominator : (scaleTwo mantissa 1 exponent).2 = den := (Prod.mk.inj (Option.some.inj known)).2
    rw [← denominator]
    exact scaleTwo_pos mantissa Nat.one_pos exponent
  | infinite negative => cases known
  | nan => cases known

theorem proper_add (x y : Binary64) : (add x y).Proper := by
  unfold add
  split
  · next a b c d first second =>
    exact proper_ofRatio _ _ (Nat.mul_pos (toDyadic?_pos first) (toDyadic?_pos second))
  · trivial

end Binary64

end Marginalia
