import Marginalia.Json.Reader
import Marginalia.Json.Writer
import Marginalia.Proofs.Digits
import Marginalia.Proofs.Shortest
import Mathlib.Data.List.TakeWhile

/-!
# Numbers that are read back

A number written as JSON is read back as the same number, whether it is an integer or a floating-point number.
What follows the number must not be taken for a part of it.
-/

namespace Marginalia.Json

/-- A text that does not start with a digit. -/
def NoDigit (rest : Text) : Prop := ∀ c ∈ rest.head?, c.isDigit = false

/-- What may follow a number: it goes on with no digit, point or exponent. -/
def Ended (rest : Text) : Prop := ∀ c ∈ rest.head?, c.isDigit = false ∧ c ≠ '.' ∧ c ≠ 'e' ∧ c ≠ 'E'

theorem Ended.noDigit {rest : Text} (ended : Ended rest) : NoDigit rest := fun c h => (ended c h).1

theorem spanDigits_append {digits rest : Text} (all : ∀ c ∈ digits, c.isDigit = true) (stop : NoDigit rest) :
    spanDigits (digits ++ rest) = (digits, rest) := by
  have taken : rest.takeWhile Char.isDigit = [] := by
    cases rest with
    | nil => rfl
    | cons c rest => simp [stop c rfl]
  have dropped : rest.dropWhile Char.isDigit = rest := by
    cases rest with
    | nil => rfl
    | cons c rest => simp [stop c rfl]
  rw [spanDigits, List.takeWhile_append_of_pos all, List.dropWhile_append_of_pos all, taken, dropped,
    List.append_nil]

/-! ## The parts of a number -/

/-- Digits of a whole part: there are some, and a leading zero stands alone. -/
structure Whole (digits : Text) : Prop where
  all : ∀ c ∈ digits, c.isDigit = true
  head : digits = ['0'] ∨ ∃ c rest, digits = c :: rest ∧ c ≠ '0'

theorem wholeDigits?_append {digits rest : Text} (whole : Whole digits) (stop : NoDigit rest) :
    wholeDigits? (digits ++ rest) = some (digits, rest) := by
  rcases whole.head with rfl | ⟨c, more, rfl, nonzero⟩
  · rfl
  · have span := spanDigits_append whole.all stop
    rw [wholeDigits?]
    · rw [span]
      rfl
    · rintro tail first
      exact nonzero (List.cons.inj first).1

theorem fractionDigits_append {digits rest : Text} (all : ∀ c ∈ digits, c.isDigit = true) (some_digit : digits ≠ [])
    (stop : NoDigit rest) : fractionDigits ('.' :: (digits ++ rest)) = (digits, rest) := by
  rw [fractionDigits, spanDigits_append all stop]
  simp [some_digit]

theorem fractionDigits_of_ne {rest : Text} (other : ∀ c ∈ rest.head?, c ≠ '.') : fractionDigits rest = ([], rest) := by
  rw [fractionDigits]
  rintro tail rfl
  exact other '.' rfl rfl

theorem exponentPart?_of_ne {rest : Text} (other : ∀ c ∈ rest.head?, c ≠ 'e' ∧ c ≠ 'E') :
    exponentPart? rest = none := by
  cases rest with
  | nil => rfl
  | cons c rest =>
    have := other c rfl
    simp [exponentPart?, this]

theorem exponentPart?_append (negative : Bool) {digits rest : Text} (all : ∀ c ∈ digits, c.isDigit = true)
    (some_digit : digits ≠ []) (stop : NoDigit rest) :
    exponentPart? ('e' :: (if negative then '-' else '+') :: (digits ++ rest))
      = some (if negative then -(valueOfDigits 10 digits : Int) else valueOfDigits 10 digits, rest) := by
  cases negative with
  | true => simp [exponentPart?, spanDigits_append all stop, some_digit]
  | false => simp [exponentPart?, spanDigits_append all stop, some_digit]

/-! ## Reading a magnitude -/

theorem readMagnitude?_whole (negative : Bool) {whole rest : Text} (valid : Whole whole) (ended : Ended rest) :
    readMagnitude? negative (whole ++ rest)
      = some (.int (if negative then -(valueOfDigits 10 whole : Int) else valueOfDigits 10 whole), rest) := by
  rw [readMagnitude?, wholeDigits?_append valid ended.noDigit]
  simp [fractionDigits_of_ne fun c h => (ended c h).2.1, exponentPart?_of_ne fun c h => (ended c h).2.2]

theorem readMagnitude?_fraction (negative : Bool) {whole fraction rest : Text} (valid : Whole whole)
    (all : ∀ c ∈ fraction, c.isDigit = true) (some_digit : fraction ≠ []) (ended : Ended rest) :
    readMagnitude? negative (whole ++ '.' :: (fraction ++ rest))
      = some (.float (.ofDecimal negative (valueOfDigits 10 (whole ++ fraction)) (-(fraction.length : Int))),
          rest) := by
  have stop : NoDigit ('.' :: (fraction ++ rest)) := by simp [NoDigit]
  rw [readMagnitude?, wholeDigits?_append valid stop]
  simp [fractionDigits_append all some_digit ended.noDigit, exponentPart?_of_ne fun c h => (ended c h).2.2, some_digit]

/-- The digits after the point of a number with an exponent, with the point if there are any. -/
def fractionText (fraction : Text) : Text := if fraction.isEmpty then [] else '.' :: fraction

theorem readMagnitude?_exponent (negative exponentNegative : Bool) {whole fraction digits rest : Text}
    (valid : Whole whole) (all : ∀ c ∈ fraction, c.isDigit = true) (exponentAll : ∀ c ∈ digits, c.isDigit = true)
    (some_digit : digits ≠ []) (stop : NoDigit rest) :
    readMagnitude? negative
        (whole ++ (fractionText fraction ++ 'e' :: (if exponentNegative then '-' else '+') :: (digits ++ rest)))
      = some (.float (.ofDecimal negative (valueOfDigits 10 (whole ++ fraction))
          ((if exponentNegative then -(valueOfDigits 10 digits : Int) else valueOfDigits 10 digits)
            - (fraction.length : Int))), rest) := by
  have exponent := exponentPart?_append exponentNegative exponentAll some_digit stop
  have noDigit : NoDigit ('e' :: (if exponentNegative then '-' else '+') :: (digits ++ rest)) := by simp [NoDigit]
  have noPoint := fractionDigits_of_ne
    (show ∀ c ∈ ('e' :: (if exponentNegative then '-' else '+') :: (digits ++ rest)).head?, c ≠ '.' by simp)
  generalize 'e' :: (if exponentNegative then '-' else '+') :: (digits ++ rest) = tail at *
  cases fraction with
  | nil =>
    show readMagnitude? negative (whole ++ tail) = _
    rw [readMagnitude?, wholeDigits?_append valid noDigit]
    simp [noPoint, exponent]
  | cons c fraction =>
    have point : fractionDigits ('.' :: (c :: fraction ++ tail)) = (c :: fraction, tail) :=
      fractionDigits_append all (by simp) noDigit
    rw [fractionText, if_neg (by simp), List.cons_append, readMagnitude?,
      wholeDigits?_append valid (by simp [NoDigit])]
    simp only [Option.bind_eq_bind, Option.bind_some, point, exponent]
    rfl

/-! ## The writing of a number -/

/-- Digits that a writing starts with: there are some, and the first one is not zero. -/
structure Leading (digits : Text) : Prop where
  all : ∀ c ∈ digits, c.isDigit = true
  head : ∃ c rest, digits = c :: rest ∧ c ≠ '0'

theorem Leading.ne_nil {digits : Text} (leading : Leading digits) : digits ≠ [] := by
  obtain ⟨c, rest, rfl, -⟩ := leading.head
  exact List.cons_ne_nil c rest

/-- More digits after the leading ones. -/
theorem Leading.append {digits more : Text} (leading : Leading digits) (all : ∀ c ∈ more, c.isDigit = true) :
    Whole (digits ++ more) where
  all c h := (List.mem_append.mp h).elim (leading.all c) (all c)
  head := by
    obtain ⟨c, rest, rfl, nonzero⟩ := leading.head
    exact .inr ⟨c, rest ++ more, rfl, nonzero⟩

theorem Leading.take {digits : Text} (leading : Leading digits) {n : Nat} (positive : 0 < n) :
    Whole (digits.take n) where
  all c h := leading.all c (List.mem_of_mem_take h)
  head := by
    obtain ⟨c, rest, rfl, nonzero⟩ := leading.head
    obtain ⟨n, rfl⟩ := Nat.exists_eq_succ_of_ne_zero positive.ne'
    exact .inr ⟨c, rest.take n, rfl, nonzero⟩

theorem isDigit_of_mem_zeros {n : Nat} {c : Char} (h : c ∈ List.replicate n '0') : c.isDigit = true := by
  rw [List.eq_of_mem_replicate h]
  rfl

theorem whole_decimal (n : Nat) : Whole (decimal n) where
  all _ h := isDigit_of_mem_decimal h
  head := by
    rcases Nat.eq_zero_or_pos n with rfl | positive
    · exact .inl rfl
    · exact .inr (decimal_head positive)

/-- Without the zeros at its end, the writing of a positive number starts as before. -/
theorem leading_significant {n : Nat} (positive : 0 < n) :
    Leading (Binary64.significant n)
      ∧ ∃ zeros, decimal n = Binary64.significant n ++ List.replicate zeros '0' := by
  obtain ⟨c, rest, written, nonzero⟩ := decimal_head positive
  have split : decimal n = Binary64.significant n ++ ((decimal n).reverse.takeWhile (· == '0')).reverse := by
    rw [Binary64.significant, Text.dropRightWhile, ← List.reverse_append, List.takeWhile_append_dropWhile,
      List.reverse_reverse]
  have zeros : ((decimal n).reverse.takeWhile (· == '0')).reverse
      = List.replicate ((decimal n).reverse.takeWhile (· == '0')).length '0' := by
    rw [List.eq_replicate_iff, List.length_reverse]
    refine ⟨rfl, fun b member => ?_⟩
    have := List.mem_takeWhile_imp (List.mem_reverse.mp member)
    simpa using this
  rw [zeros] at split
  generalize ((decimal n).reverse.takeWhile (· == '0')).length = k at split
  refine ⟨⟨fun d h => ?_, ?_⟩, k, split⟩
  · exact isDigit_of_mem_decimal (split ▸ List.mem_append_left _ h)
  · rw [written] at split
    cases front : Binary64.significant n with
    | nil =>
      -- Then the number would be written with zeros only.
      rw [front, List.nil_append] at split
      have first : c ∈ List.replicate k '0' := split ▸ List.mem_cons_self
      exact absurd (List.eq_of_mem_replicate first) nonzero
    | cons d more =>
      rw [front, List.cons_append] at split
      rw [← (List.cons.inj split).1]
      exact ⟨c, more, rfl, nonzero⟩

/-- A number is read as a decimal that has the value its digits and point say. -/
def ReadsAs (negative : Bool) (text rest : Text) (value : ℚ) : Prop :=
  ∃ (digits : Nat) (exponent : Int), (digits : ℚ) * 10 ^ exponent = value
    ∧ readMagnitude? negative (text ++ rest) = some (.float (.ofDecimal negative digits exponent), rest)

section Layouts

variable {digits rest : Text} {point : Int}

theorem readsAs_small (negative : Bool) (leading : Leading digits) (ended : Ended rest) (small : point ≤ 0) :
    ReadsAs negative ('0' :: '.' :: (List.replicate (-point).toNat '0' ++ digits)) rest
      (valueOfDigits 10 digits * 10 ^ (point - digits.length)) := by
  have all : ∀ c ∈ List.replicate (-point).toNat '0' ++ digits, c.isDigit = true := fun c h =>
    (List.mem_append.mp h).elim isDigit_of_mem_zeros (leading.all c)
  have read := readMagnitude?_fraction negative (whole_decimal 0) all (by simp [leading.ne_nil]) ended
  refine ⟨_, _, ?_, read⟩
  rw [valueOfDigits_append, valueOfDigits_append, valueOfDigits_zeros, valueOfDigits_decimal, Nat.zero_mul,
    Nat.zero_add, Nat.zero_mul, Nat.zero_add]
  congr 2
  rw [List.length_append, List.length_replicate]
  omega

theorem readsAs_large (negative : Bool) (leading : Leading digits) (ended : Ended rest)
    (large : digits.length ≤ point.toNat) :
    ReadsAs negative (digits ++ List.replicate (point.toNat - digits.length) '0' ++ ['.', '0']) rest
      (valueOfDigits 10 digits * 10 ^ (point - digits.length)) := by
  have read := readMagnitude?_fraction negative
    (leading.append fun c h => isDigit_of_mem_zeros (n := point.toNat - digits.length) h)
    (show ∀ c ∈ ['0'], c.isDigit = true by simp) (by simp) ended
  refine ⟨_, _, ?_, by rw [List.append_assoc]; exact read⟩
  have length := List.length_pos_iff.mpr leading.ne_nil
  obtain ⟨n, rfl⟩ := Int.eq_ofNat_of_zero_le (show 0 ≤ point by omega)
  rw [Int.toNat_natCast] at *
  obtain ⟨k, rfl⟩ := Nat.exists_eq_add_of_le large
  rw [valueOfDigits_append, valueOfDigits_append, valueOfDigits_zeros, Nat.add_sub_cancel_left,
    List.length_replicate]
  have unit : valueOfDigits 10 ['0'] = 0 := rfl
  have power : ((digits.length + k : ℕ) : ℤ) - digits.length = k := by omega
  rw [unit, power, zpow_natCast]
  simp only [List.length_singleton, Nat.pow_one, Nat.add_zero]
  push_cast
  rw [zpow_neg_one]
  ring

theorem readsAs_middle (negative : Bool) (leading : Leading digits) (ended : Ended rest) (positive : 0 < point)
    (inside : point.toNat < digits.length) :
    ReadsAs negative (digits.take point.toNat ++ ['.'] ++ digits.drop point.toNat) rest
      (valueOfDigits 10 digits * 10 ^ (point - digits.length)) := by
  have read := readMagnitude?_fraction negative (leading.take (show 0 < point.toNat by omega))
    (fun c h => leading.all c (List.mem_of_mem_drop h)) (show digits.drop point.toNat ≠ [] by simpa using inside) ended
  refine ⟨_, _, ?_, by rw [List.append_assoc, List.append_assoc]; exact read⟩
  rw [List.take_append_drop, List.length_drop]
  congr 2
  omega

theorem readsAs_exponent (negative : Bool) (leading : Leading digits) (stop : NoDigit rest) :
    ReadsAs negative
      (digits.take 1 ++ (if digits.length ≤ 1 then [] else ['.'] ++ digits.drop 1) ++ ['e']
        ++ (if point - 1 < 0 then ['-'] else ['+']) ++ (decimal (point - 1).natAbs).leftpad 2 '0') rest
      (valueOfDigits 10 digits * 10 ^ (point - digits.length)) := by
  have length := List.length_pos_iff.mpr leading.ne_nil
  have padded : ∀ c ∈ (decimal (point - 1).natAbs).leftpad 2 '0', c.isDigit = true := fun c h =>
    (List.mem_append.mp h).elim isDigit_of_mem_zeros isDigit_of_mem_decimal
  have some_digit : (decimal (point - 1).natAbs).leftpad 2 '0' ≠ [] := by
    simp [List.leftpad, decimal_ne_nil]
  have dropped : ∀ c ∈ digits.drop 1, c.isDigit = true := fun c h => leading.all c (List.mem_of_mem_drop h)
  have read := readMagnitude?_exponent negative (decide (point - 1 < 0)) (leading.take Nat.one_pos) dropped padded
    some_digit stop
  have fraction : (if digits.length ≤ 1 then [] else ['.'] ++ digits.drop 1) = fractionText (digits.drop 1) := by
    rw [fractionText]
    by_cases short : digits.length ≤ 1
    · rw [if_pos short, if_pos (List.isEmpty_iff.mpr (List.drop_eq_nil_iff.mpr short))]
    · rw [if_neg short, if_neg fun empty => short (List.drop_eq_nil_iff.mp (List.isEmpty_iff.mp empty))]
      rfl
  have sign : (if point - 1 < 0 then ['-'] else ['+']) = [if decide (point - 1 < 0) then '-' else '+'] := by
    by_cases below : point - 1 < 0
    · simp [below]
    · simp [below]
  refine ⟨_, _, ?_, by
    rw [fraction, sign]
    simpa only [List.append_assoc, List.cons_append, List.nil_append] using read⟩
  rw [List.take_append_drop, valueOfDigits_leftpad, valueOfDigits_decimal, List.length_drop]
  congr 2
  by_cases below : point - 1 < 0
  · rw [if_pos (decide_eq_true below)]
    omega
  · rw [if_neg (by simpa using below)]
    omega

theorem readsAs_layout (negative : Bool) (point : Int) (leading : Leading digits) (ended : Ended rest) :
    ReadsAs negative (Binary64.layout digits point) rest
      (valueOfDigits 10 digits * 10 ^ (point - digits.length)) := by
  unfold Binary64.layout
  split
  · next positional =>
    split
    · next small => exact readsAs_small negative leading ended small
    · next large =>
      split
      · next whole => exact readsAs_large negative leading ended whole
      · next inside => exact readsAs_middle negative leading ended (by omega) (by omega)
  · exact readsAs_exponent negative leading ended.noDigit

end Layouts

/-! ## Numbers as values -/

/-- A text that starts with a digit. -/
def DigitFirst (t : Text) : Prop := ∃ c rest, t = c :: rest ∧ c.isDigit = true

theorem Whole.digitFirst {digits : Text} (whole : Whole digits) (rest : Text) : DigitFirst (digits ++ rest) := by
  rcases whole.head with rfl | ⟨c, more, rfl, -⟩
  · exact ⟨'0', rest, rfl, rfl⟩
  · exact ⟨c, more ++ rest, rfl, whole.all c List.mem_cons_self⟩

theorem digitFirst_layout {digits : Text} (leading : Leading digits) (point : Int) (rest : Text) :
    DigitFirst (Binary64.layout digits point ++ rest) := by
  obtain ⟨c, more, rfl, nonzero⟩ := leading.head
  have digit := leading.all c List.mem_cons_self
  unfold Binary64.layout
  split
  · split
    · exact ⟨'0', _, rfl, rfl⟩
    · split
      · exact ⟨c, _, rfl, digit⟩
      · obtain ⟨n, positive⟩ : ∃ n, point.toNat = n + 1 := ⟨point.toNat - 1, by omega⟩
        rw [positive]
        exact ⟨c, _, rfl, digit⟩
  · exact ⟨c, _, rfl, digit⟩

theorem digit_ne {c : Char} (digit : c.isDigit = true) :
    c ≠ 'n' ∧ c ≠ 't' ∧ c ≠ 'f' ∧ c ≠ 'N' ∧ c ≠ 'I' ∧ c ≠ '-' := by
  refine ⟨?_, ?_, ?_, ?_, ?_, ?_⟩ <;> (rintro rfl; revert digit; decide)

theorem readScalar?_digit {t : Text} (first : DigitFirst t) : readScalar? t = readMagnitude? false t := by
  obtain ⟨c, rest, rfl, digit⟩ := first
  obtain ⟨n, t, f, notNumber, infinity, minus⟩ := digit_ne digit
  have noWord : ∀ entry ∈ constants, Text.afterStart? entry.1 (c :: rest) = none := by
    simp [constants, Text.afterStart?, n.symm, t.symm, f.symm, notNumber.symm, infinity.symm, minus.symm]
  rw [readScalar?, List.findSome?_eq_none_iff.mpr]
  · rintro entry member
    simp [noWord entry member]
  · rintro tail same
    exact minus (List.cons.inj same).1

theorem readScalar?_minus {t : Text} (first : DigitFirst t) : readScalar? ('-' :: t) = readMagnitude? true t := by
  obtain ⟨c, rest, rfl, digit⟩ := first
  obtain ⟨-, -, -, -, infinity, -⟩ := digit_ne digit
  simp [readScalar?, constants, Text.afterStart?, infinity.symm]

theorem readScalar?_decimalInt (n : Int) {rest : Text} (ended : Ended rest) :
    readScalar? (decimalInt n ++ rest) = some (.int n, rest) := by
  cases n with
  | ofNat n =>
    rw [decimalInt, readScalar?_digit ((whole_decimal n).digitFirst rest),
      readMagnitude?_whole false (whole_decimal n) ended, valueOfDigits_decimal]
    rfl
  | negSucc n =>
    rw [decimalInt, List.cons_append, readScalar?_minus ((whole_decimal (n + 1)).digitFirst rest),
      readMagnitude?_whole true (whole_decimal (n + 1)) ended, valueOfDigits_decimal]
    rfl

/-- The writing of a magnitude. -/
def magnitudeText (mantissa : Nat) (exponent : Int) : Text :=
  if mantissa = 0 then ['0', '.', '0']
  else
    let (digits, power) := Binary64.shortest mantissa exponent
    Binary64.layout (Binary64.significant digits) ((decimal digits).length + power)

theorem readMagnitude?_magnitudeText (negative : Bool) {m : Nat} {e : Int} {rest : Text}
    (genuine : Binary64.Genuine m e) (ended : Ended rest) :
    DigitFirst (magnitudeText m e ++ rest)
      ∧ readMagnitude? negative (magnitudeText m e ++ rest) = some (.float (.finite negative m e), rest) := by
  by_cases zero : m = 0
  · subst zero
    have exponent : e = Binary64.minExponent := by
      have positive : 0 < Binary64.leastMantissa := Nat.pow_pos (by decide)
      rcases genuine.full with full | least
      · omega
      · exact least
    have read := readMagnitude?_fraction negative (whole_decimal 0)
      (show ∀ c ∈ ['0'], c.isDigit = true by simp) (by simp) ended
    rw [exponent]
    exact ⟨⟨'0', _, rfl, rfl⟩, read⟩
  · have positive : 0 < m := Nat.pos_of_ne_zero zero
    have rounds := Binary64.shortest_roundsTo genuine positive
    rw [magnitudeText, if_neg zero]
    generalize Binary64.shortest m e = chosen at *
    obtain ⟨digits, power⟩ := chosen
    simp only at rounds ⊢
    have nonzero : 0 < digits := by
      have := rounds.pos positive
      rcases Nat.eq_zero_or_pos digits with rfl | nonzero
      · simp at this
      · exact nonzero
    obtain ⟨leading, zeros, written⟩ := leading_significant nonzero
    refine ⟨digitFirst_layout leading _ rest, ?_⟩
    obtain ⟨n, exponent, value, read⟩ := readsAs_layout negative ((decimal digits).length + power) leading ended
    rw [read]
    congr 3
    apply Binary64.ofDecimal_of_roundsTo genuine positive
    -- The zeros that are left out of the digits are made up for by the point.
    have same : (n : ℚ) * 10 ^ exponent = digits * 10 ^ power := by
      have whole := valueOfDigits_decimal digits
      rw [written, valueOfDigits_append, valueOfDigits_zeros, List.length_replicate, Nat.add_zero] at whole
      have shift : ((decimal digits).length : ℤ) + power - (Binary64.significant digits).length = zeros + power := by
        rw [written, List.length_append, List.length_replicate]
        push_cast
        ring
      rw [value, shift, zpow_add₀ (by norm_num), zpow_natCast, ← mul_assoc]
      congr 1
      exact_mod_cast whole
    rw [same]
    exact rounds

theorem writeFloat_finite (negative : Bool) (m : Nat) (e : Int) :
    writeFloat (.finite negative m e) = (if negative then ['-'] else []) ++ magnitudeText m e := by
  unfold magnitudeText writeFloat Binary64.toText
  cases negative <;> by_cases zero : m = 0 <;> simp [zero]

theorem readScalar?_writeFloat {x : Binary64} (proper : x.Proper) {rest : Text} (ended : Ended rest) :
    readScalar? (writeFloat x ++ rest) = some (.float x, rest) := by
  cases x with
  | nan => rfl
  | infinite negative => cases negative <;> rfl
  | finite negative m e =>
    obtain ⟨first, read⟩ := readMagnitude?_magnitudeText negative proper ended
    rw [writeFloat_finite, List.append_assoc]
    cases negative with
    | false => exact (readScalar?_digit first).trans read
    | true => exact (readScalar?_minus first).trans read

end Marginalia.Json
