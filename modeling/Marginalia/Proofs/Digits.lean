import Marginalia.Text.Digits
import Mathlib.Algebra.Group.Nat.Defs
import Mathlib.Data.List.Induction

/-!
# Digits that are read back

Numbers written in decimal or hexadecimal digits are read back, whatever zeros stand in front of them. The
decimal writing of a positive number starts with a digit other than zero.
-/

namespace Marginalia

theorem hexValue?_digitChar {n : Nat} (small : n < 16) : hexValue? n.digitChar = some n := by
  have all : ∀ n < 16, hexValue? n.digitChar = some n := by decide
  exact all n small

theorem valueOfDigits_append (base : Nat) (s t : Text) :
    valueOfDigits base (s ++ t) = valueOfDigits base s * base ^ t.length + valueOfDigits base t := by
  induction t using List.reverseRecOn with
  | nil => simp [valueOfDigits]
  | append_singleton t c ih =>
    simp only [valueOfDigits, ← List.append_assoc, List.foldl_append, List.foldl_cons, List.foldl_nil,
      List.length_append, List.length_singleton] at ih ⊢
    rw [ih, Nat.pow_succ, Nat.add_mul, Nat.mul_assoc, Nat.add_assoc]

theorem valueOfDigits_zeros (base n : Nat) : valueOfDigits base (List.replicate n '0') = 0 := by
  induction n with
  | zero => rfl
  | succ n ih =>
    rw [List.replicate_succ', valueOfDigits_append, ih]
    simp [valueOfDigits, hexValue?]

theorem valueOfDigits_leftpad (base width : Nat) (t : Text) :
    valueOfDigits base (t.leftpad width '0') = valueOfDigits base t := by
  rw [List.leftpad, valueOfDigits_append, valueOfDigits_zeros, Nat.zero_mul, Nat.zero_add]

theorem valueOfDigits_toDigits {base : Nat} (atLeastTwo : 1 < base) (atMost : base ≤ 16) (n : Nat) :
    valueOfDigits base (Nat.toDigits base n) = n := by
  induction n using Nat.strongRecOn with
  | ind n ih =>
    rw [Nat.toDigits_eq_if atLeastTwo]
    split
    · next small => simp [valueOfDigits, hexValue?_digitChar (Nat.lt_of_lt_of_le small atMost)]
    · next large =>
      have shorter : n / base < n := Nat.div_lt_self (by omega) atLeastTwo
      have last : n % base < 16 := Nat.lt_of_lt_of_le (Nat.mod_lt n (by omega)) atMost
      rw [valueOfDigits_append, ih _ shorter]
      simp only [valueOfDigits, List.foldl_cons, List.foldl_nil, hexValue?_digitChar last, List.length_singleton,
        Nat.pow_one, Option.getD_some, Nat.zero_mul, Nat.zero_add]
      rw [Nat.mul_comm]
      exact Nat.div_add_mod n base

theorem valueOfDigits_decimal (n : Nat) : valueOfDigits 10 (decimal n) = n :=
  valueOfDigits_toDigits (by decide) (by decide) n

theorem decimal_ne_nil (n : Nat) : decimal n ≠ [] := Nat.toDigits_ne_nil

theorem isDigit_of_mem_decimal {n : Nat} {c : Char} (h : c ∈ decimal n) : c.isDigit = true :=
  Nat.isDigit_of_mem_toDigits (by decide) (by decide) h

/-- Only zero is written with a zero in front. -/
theorem decimal_head {n : Nat} (positive : 0 < n) : ∃ c rest, decimal n = c :: rest ∧ c ≠ '0' := by
  induction n using Nat.strongRecOn with
  | ind n ih =>
    rw [decimal, Nat.toDigits_eq_if (by decide)]
    split
    · next small =>
      refine ⟨n.digitChar, [], rfl, ?_⟩
      have all : ∀ n < 10, 0 < n → n.digitChar ≠ '0' := by decide
      exact all n small positive
    · next large =>
      obtain ⟨c, rest, first, nonzero⟩ := ih (n / 10) (by omega) (by omega)
      exact ⟨c, rest ++ [(n % 10).digitChar], by rw [← decimal, first]; rfl, nonzero⟩

/-! ## Code units -/

theorem exists_of_mem_toDigits {base : Nat} (atLeastTwo : 1 < base) {c : Char} {n : Nat}
    (h : c ∈ Nat.toDigits base n) : ∃ digit < base, c = digit.digitChar := by
  induction n using Nat.strongRecOn with
  | ind n ih =>
    rw [Nat.toDigits_eq_if atLeastTwo] at h
    split at h
    · next small => exact ⟨n, small, List.mem_singleton.mp h⟩
    · next large =>
      rcases List.mem_append.mp h with earlier | last
      · exact ih (n / base) (Nat.div_lt_self (by omega) atLeastTwo) earlier
      · exact ⟨n % base, Nat.mod_lt n (by omega), List.mem_singleton.mp last⟩

theorem isSome_hexValue?_of_mem_toDigits {c : Char} {n : Nat} (h : c ∈ Nat.toDigits 16 n) :
    (hexValue? c).isSome := by
  obtain ⟨digit, small, rfl⟩ := exists_of_mem_toDigits (by decide) h
  rw [hexValue?_digitChar small]
  rfl

theorem length_hexadecimal {width n : Nat} (some : 0 < width) (small : n < 16 ^ width) :
    (hexadecimal width n).length = width := by
  have short : (Nat.toDigits 16 n).length ≤ width := (Nat.length_toDigits_le_iff (by decide) some).mpr small
  rw [hexadecimal, List.length_leftpad]
  omega

theorem readHex?_hexadecimal {width n : Nat} (some : 0 < width) (small : n < 16 ^ width) (rest : Text) :
    readHex? width (hexadecimal width n ++ rest) = .some (n, rest) := by
  have length := length_hexadecimal some small
  have front : (hexadecimal width n ++ rest).take width = hexadecimal width n := List.take_left' length
  have back : (hexadecimal width n ++ rest).drop width = rest := List.drop_left' length
  have digits : (hexadecimal width n).all (fun c => (hexValue? c).isSome) = true := by
    rw [List.all_eq_true]
    intro c h
    rcases List.mem_append.mp h with zero | digit
    · rw [List.eq_of_mem_replicate zero]
      rfl
    · exact isSome_hexValue?_of_mem_toDigits digit
  have value : valueOfDigits 16 (hexadecimal width n) = n := by
    rw [hexadecimal, valueOfDigits_leftpad, valueOfDigits_toDigits (by decide) (by decide)]
  simp only [readHex?, front, back, length, digits, value, and_self, if_true]

end Marginalia
