import Marginalia.Proofs.Rounding

/-!
# Shortest decimals

The decimal that is chosen for a floating-point number lies between the middles to the neighbours of the number,
so it is rounded to the number again. With seventeen digits after the leading one there is always such a decimal.
-/

namespace Marginalia.Binary64

/-- A decimal lies between two quotients, strictly unless the ends are included. -/
def Between (low high v : ℚ) (closed : Bool) : Prop :=
  low ≤ v ∧ v ≤ high ∧ (closed = false → low < v ∧ v < high)

/-- Comparing a decimal with a quotient, both denominators multiplied out. -/
theorem grid_le {low den k unit d : Nat} (denPos : 0 < den) (dPos : 0 < d) :
    low * d ≤ k * unit * den ↔ (low : ℚ) / den ≤ (k : ℚ) * ((unit : ℚ) / d) := by
  have h₁ : (0 : ℚ) < den := by exact_mod_cast denPos
  have h₂ : (0 : ℚ) < d := by exact_mod_cast dPos
  rw [mul_div_assoc', div_le_div_iff₀ h₁ h₂]
  exact_mod_cast Iff.rfl

theorem le_grid {high den k unit d : Nat} (denPos : 0 < den) (dPos : 0 < d) :
    k * unit * den ≤ high * d ↔ (k : ℚ) * ((unit : ℚ) / d) ≤ (high : ℚ) / den := by
  have h₁ : (0 : ℚ) < den := by exact_mod_cast denPos
  have h₂ : (0 : ℚ) < d := by exact_mod_cast dPos
  rw [mul_div_assoc', div_le_div_iff₀ h₂ h₁]
  exact_mod_cast Iff.rfl

theorem scaleTen_unit (power : Int) :
    ((scaleTen 1 1 power).1 : ℚ) / (scaleTen 1 1 power).2 = 10 ^ power := by
  rw [scaleTen_ratio, Nat.cast_one, div_one, one_mul]

/-- The test of a grid point, read as a statement on rational numbers. -/
theorem inside_iff {den unit d : Nat} {power : Int} (denPos : 0 < den) (dPos : 0 < d)
    (step : (unit : ℚ) / d = 10 ^ power) (low high k : Nat) (closed : Bool) :
    (if closed then low * d ≤ k * unit * den && k * unit * den ≤ high * d
      else low * d < k * unit * den && k * unit * den < high * d : Bool) = true
      ↔ Between ((low : ℚ) / den) ((high : ℚ) / den) (k * 10 ^ power) closed := by
  have lower : low * d < k * unit * den ↔ (low : ℚ) / den < (k : ℚ) * 10 ^ power := by
    rw [← step, ← not_le, ← not_le, le_grid denPos dPos]
  have upper : k * unit * den < high * d ↔ (k : ℚ) * 10 ^ power < (high : ℚ) / den := by
    rw [← step, ← not_le, ← not_le, grid_le denPos dPos]
  cases closed with
  | true =>
    rw [if_pos rfl, Bool.and_eq_true, decide_eq_true_iff, decide_eq_true_iff, grid_le denPos dPos,
      le_grid denPos dPos, step]
    simp [Between]
  | false =>
    rw [if_neg (by decide), Bool.and_eq_true, decide_eq_true_iff, decide_eq_true_iff, lower, upper]
    constructor
    · rintro ⟨above, below⟩
      exact ⟨above.le, below.le, fun _ => ⟨above, below⟩⟩
    · rintro ⟨-, -, strict⟩
      exact strict rfl

theorem between_of_gridPoint? {low num high den k : Nat} {closed : Bool} {power : Int} (denPos : 0 < den)
    (found : gridPoint? low num high den closed power = some k) :
    Between ((low : ℚ) / den) ((high : ℚ) / den) (k * 10 ^ power) closed := by
  have step := scaleTen_unit power
  have dPos := scaleTen_pos 1 Nat.one_pos power
  unfold gridPoint? at found
  generalize scaleTen 1 1 power = scaled at *
  obtain ⟨unit, d⟩ := scaled
  have inside := inside_iff denPos dPos step low high
  simp only at found
  split at found
  · next first second =>
    rcases Option.some.inj found with rfl
    split
    · exact (inside _ closed).mp first
    · exact (inside _ closed).mp second
  · next first second =>
    rcases Option.some.inj found with rfl
    exact (inside _ closed).mp first
  · next first second =>
    rcases Option.some.inj found with rfl
    exact (inside _ closed).mp second
  · cases found

/-- The grid point at or below a quotient, for a grid finer than the distance to the lower end. -/
theorem between_floor {low num high den unit d : Nat} (closed : Bool) {power : Int} (denPos : 0 < den)
    (dPos : 0 < d) (step : (unit : ℚ) / d = 10 ^ power)
    (fine : (low : ℚ) / den + 10 ^ power < (num : ℚ) / den) (upper : num < high) :
    Between ((low : ℚ) / den) ((high : ℚ) / den) ((num * d / (den * unit) : ℕ) * 10 ^ power) closed := by
  have h₁ : (0 : ℚ) < den := by exact_mod_cast denPos
  have h₂ : (0 : ℚ) < d := by exact_mod_cast dPos
  have unitPos : 0 < unit := by
    have : (0 : ℚ) < (unit : ℚ) / d := step ▸ (by positivity)
    rcases Nat.eq_zero_or_pos unit with rfl | positive
    · simp at this
    · exact positive
  have block : 0 < den * unit := Nat.mul_pos denPos unitPos
  have whole : den * unit * (num * d / (den * unit)) ≤ num * d := Nat.mul_div_le _ _
  have next : num * d < den * unit * (num * d / (den * unit)) + den * unit := by
    have := Nat.lt_mul_div_succ (num * d) block
    rwa [Nat.mul_add, Nat.mul_one] at this
  generalize num * d / (den * unit) = q at *
  have atMost : (q : ℚ) * 10 ^ power ≤ (num : ℚ) / den := by
    rw [← step, ← le_grid denPos dPos]
    calc q * unit * den = den * unit * q := by ring
      _ ≤ num * d := whole
  have atLeast : (num : ℚ) / den < q * 10 ^ power + 10 ^ power := by
    rw [← add_one_mul, ← step, mul_div_assoc', div_lt_div_iff₀ h₁ h₂]
    have scaled : num * d < (q + 1) * unit * den := by
      calc num * d < den * unit * q + den * unit := next
        _ = (q + 1) * unit * den := by ring
    exact_mod_cast scaled
  have beyond : (num : ℚ) / den < (high : ℚ) / den := by
    have cast : (num : ℚ) < high := by exact_mod_cast upper
    gcongr
  have strict : (low : ℚ) / den < q * 10 ^ power ∧ (q : ℚ) * 10 ^ power < (high : ℚ) / den :=
    ⟨by linarith, by linarith⟩
  exact ⟨strict.1.le, strict.2.le, fun _ => strict⟩

theorem exists_gridPoint? {low num high den : Nat} (closed : Bool) {power : Int} (denPos : 0 < den)
    (fine : (low : ℚ) / den + 10 ^ power < (num : ℚ) / den) (upper : num < high) :
    ∃ k, gridPoint? low num high den closed power = some k := by
  have step := scaleTen_unit power
  have dPos := scaleTen_pos 1 Nat.one_pos power
  unfold gridPoint?
  generalize scaleTen 1 1 power = scaled at *
  obtain ⟨unit, d⟩ := scaled
  have point := between_floor closed denPos dPos step fine upper
  have inside := (inside_iff denPos dPos step low high _ closed).mpr point
  simp only at inside ⊢
  rw [inside]
  split
  · exact ⟨_, rfl⟩
  · exact ⟨_, rfl⟩
  · next absurd _ => cases absurd
  · next absurd _ => cases absurd

/-! ## The leading digit -/

theorem pow_length_toDigits_le {n : Nat} (positive : 0 < n) : 10 ^ ((Nat.toDigits 10 n).length - 1) ≤ n := by
  rcases Nat.eq_zero_or_pos ((Nat.toDigits 10 n).length - 1) with single | several
  · rw [single]
    exact positive
  · have short := (Nat.length_toDigits_le_iff (n := n) (show 1 < 10 by decide) several).not
    have : 0 < (Nat.toDigits 10 n).length := Nat.length_toDigits_pos
    exact not_lt.mp (short.mp (by omega))

/-- A quotient that is not too small is at least the power of ten of its leading digit. -/
theorem leadingPower_le {num den k : Nat} (denPos : 0 < den) (inRange : k < 400)
    (reached : den ≤ num * Nat.pow 10 k) :
    (10 : ℚ) ^ leadingPower num den ≤ (num : ℚ) / den := by
  have h : (0 : ℚ) < den := by exact_mod_cast denPos
  unfold leadingPower
  split
  · next atLeastOne =>
    have quotient : 0 < num / den := Nat.div_pos atLeastOne denPos
    have digits := pow_length_toDigits_le quotient
    have length : 0 < (Nat.toDigits 10 (num / den)).length := Nat.length_toDigits_pos
    generalize (Nat.toDigits 10 (num / den)).length = l at *
    have exponent : (l : ℤ) - 1 = ((l - 1 : ℕ) : ℤ) := by omega
    rw [exponent, zpow_natCast, le_div_iff₀ h]
    have bound : 10 ^ (l - 1) * den ≤ num := le_trans (Nat.mul_le_mul_right den digits) (Nat.div_mul_le_self num den)
    exact_mod_cast bound
  · split
    · next n found =>
      have bound := List.find?_some found
      rw [decide_eq_true_iff] at bound
      have cast : (den : ℚ) ≤ num * 10 ^ n := by exact_mod_cast bound
      rw [zpow_neg, zpow_natCast, inv_le_iff_one_le_mul₀ (by positivity), div_mul_eq_mul_div, le_div_iff₀ h]
      linarith
    · next missing =>
      have last := List.find?_eq_none.mp missing k (List.mem_range.mpr inRange)
      exact absurd (decide_eq_true reached) last

/-! ## The chosen decimal -/

theorem scaleTwo_den (n : Nat) (e : Int) : (scaleTwo n 1 e).2 = (scaleTwo 1 1 e).2 := by
  unfold scaleTwo
  split <;> rfl

theorem scale_ratio (n : Nat) (e : Int) : ((scaleTwo n 1 e).1 : ℚ) / (scaleTwo 1 1 e).2 = n * 2 ^ e := by
  rw [← scaleTwo_den n, scaleTwo_ratio, Nat.cast_one, div_one]

theorem scale_lt {a b : Nat} (less : a < b) (e : Int) : (scaleTwo a 1 e).1 < (scaleTwo b 1 e).1 := by
  unfold scaleTwo
  split
  · exact Nat.mul_lt_mul_of_pos_right less (Nat.pow_pos (by decide))
  · exact less

theorem two_pow_le_ten_pow {n k : Nat} (h : n ≤ 3 * k) : 2 ^ n ≤ 10 ^ k :=
  calc 2 ^ n ≤ 2 ^ (3 * k) := Nat.pow_le_pow_right (by decide) h
    _ = (2 ^ 3) ^ k := Nat.pow_mul 2 3 k
    _ ≤ 10 ^ k := Nat.pow_le_pow_left (by decide) k

/-- The value of a number that is not zero is not too small for its leading digit to be found. -/
theorem scale_reached {m k : Nat} {e : Int} (genuine : Genuine m e) (nonzero : 0 < m) (enough : 1076 ≤ 3 * k) :
    (scaleTwo 1 1 (e - 2)).2 ≤ (scaleTwo (4 * m) 1 (e - 2)).1 * Nat.pow 10 k := by
  unfold scaleTwo
  split
  · exact Nat.mul_pos (Nat.mul_pos (by omega) (Nat.pow_pos (by decide))) (Nat.pow_pos (by decide))
  · have exponent : (-(e - 2)).toNat ≤ 1076 := by
      have := genuine.least
      rw [minExponent] at this
      omega
    calc 1 * Nat.pow 2 (-(e - 2)).toNat = 2 ^ (-(e - 2)).toNat := Nat.one_mul _
      _ ≤ Nat.pow 10 k := two_pow_le_ten_pow (by omega)
      _ ≤ 4 * m * Nat.pow 10 k := Nat.le_mul_of_pos_left _ (by omega)

/-- The decimal of a number with some digits after the leading one, if the number is read back from one. -/
def attempt (m : Nat) (e : Int) (digits : Nat) : Option (Nat × Int) :=
  let den := (scaleTwo 1 1 (e - 2)).2
  let num := (scaleTwo (4 * m) 1 (e - 2)).1
  let power := leadingPower num den - (digits : Int)
  (gridPoint? (scaleTwo (lowerEnd m e) 1 (e - 2)).1 num (scaleTwo (4 * m + 2) 1 (e - 2)).1 den (m % 2 == 0) power).map
    (·, power)

theorem shortest_eq (m : Nat) (e : Int) :
    shortest m e = ((List.range 18).findSome? (attempt m e)).getD (0, 0) := rfl

theorem roundsTo_of_between {v : ℚ} {m : Nat} {e : Int}
    (between : Between (lowerEnd m e * 2 ^ (e - 2)) ((4 * m + 2 : ℕ) * 2 ^ (e - 2)) v (m % 2 == 0)) :
    RoundsTo v m e where
  low := between.1
  high := between.2.1
  odd isOdd := between.2.2 (by simp [isOdd])

theorem roundsTo_of_attempt {m digits : Nat} {e : Int} {decimal : Nat × Int}
    (found : attempt m e digits = some decimal) : RoundsTo (decimal.1 * 10 ^ decimal.2) m e := by
  obtain ⟨k, point, rfl⟩ := Option.map_eq_some_iff.mp found
  have between := between_of_gridPoint? (scaleTwo_pos 1 Nat.one_pos (e - 2)) point
  rw [scale_ratio, scale_ratio] at between
  exact roundsTo_of_between between

/-- The lower end is at least one quarter of the last binary digit away, which is more than one unit of the
    eighteenth decimal digit. -/
theorem exists_attempt {m : Nat} {e : Int} (genuine : Genuine m e) (nonzero : 0 < m) :
    ∃ decimal, attempt m e 17 = some decimal := by
  obtain ⟨k, enough, inRange⟩ : ∃ k, 1076 ≤ 3 * k ∧ k < 400 := ⟨399, by decide, by decide⟩
  have lead := leadingPower_le (scaleTwo_pos 1 Nat.one_pos (e - 2)) inRange (scale_reached genuine nonzero enough)
  have fine : ((scaleTwo (lowerEnd m e) 1 (e - 2)).1 : ℚ) / (scaleTwo 1 1 (e - 2)).2
      + 10 ^ (leadingPower (scaleTwo (4 * m) 1 (e - 2)).1 (scaleTwo 1 1 (e - 2)).2 - (17 : ℕ))
        < ((scaleTwo (4 * m) 1 (e - 2)).1 : ℚ) / (scaleTwo 1 1 (e - 2)).2 := by
    rw [zpow_sub₀ (by norm_num)]
    generalize (10 : ℚ) ^ leadingPower (scaleTwo (4 * m) 1 (e - 2)).1 (scaleTwo 1 1 (e - 2)).2 = tens at *
    rw [scale_ratio] at lead ⊢
    rw [scale_ratio]
    have lower : lowerEnd m e + 1 ≤ 4 * m := by
      unfold lowerEnd
      split <;> omega
    have lowerCast : (lowerEnd m e : ℚ) + 1 ≤ (4 * m : ℕ) := by exact_mod_cast lower
    have mantissa : (4 * m : ℕ) < (10 : ℚ) ^ (17 : ℕ) := by
      have bound := genuine.mantissa_lt
      have least : leastMantissa = 4503599627370496 := rfl
      have : 4 * m < 10 ^ 17 := by omega
      exact_mod_cast this
    have unit : (0 : ℚ) < 2 ^ (e - 2) := by positivity
    generalize (2 : ℚ) ^ (e - 2) = u at *
    have small : tens / 10 ^ (17 : ℕ) < u := by
      rw [div_lt_iff₀ (by positivity)]
      calc tens ≤ (4 * m : ℕ) * u := lead
        _ < 10 ^ (17 : ℕ) * u := by gcongr
        _ = u * 10 ^ (17 : ℕ) := by ring
    rw [zpow_natCast]
    nlinarith
  obtain ⟨k, point⟩ := exists_gridPoint? (m % 2 == 0) (scaleTwo_pos 1 Nat.one_pos (e - 2)) fine
    (scale_lt (show 4 * m < 4 * m + 2 by omega) (e - 2))
  exact ⟨_, Option.map_eq_some_iff.mpr ⟨k, point, rfl⟩⟩

/-- The decimal chosen for a number lies between the middles to its neighbours. -/
theorem shortest_roundsTo {m : Nat} {e : Int} (genuine : Genuine m e) (nonzero : 0 < m) :
    RoundsTo ((shortest m e).1 * 10 ^ (shortest m e).2) m e := by
  obtain ⟨last, reached⟩ := exists_attempt genuine nonzero
  have some_found : ((List.range 18).findSome? (attempt m e)).isSome := by
    rw [List.isSome_findSome?, List.any_eq_true]
    exact ⟨17, by decide, by rw [reached]; rfl⟩
  obtain ⟨decimal, found⟩ := Option.isSome_iff_exists.mp some_found
  obtain ⟨digits, -, hit⟩ := List.exists_of_findSome?_eq_some found
  rw [shortest_eq, found]
  exact roundsTo_of_attempt hit

end Marginalia.Binary64
