import Marginalia.Text.Utf8
import Mathlib.Tactic.Common

/-!
# Octets are read back

Every character is read from its octets, whatever octets follow, so a text is read from its octets.
-/

namespace Marginalia

namespace Utf8

/-! ## Steps of the decoder -/

theorem decodeFrom_char {n : Nat} {c : Char} (octet : n < 256) (char : first n = .char c) (bs : Bytes) :
    decodeFrom none (UInt8.ofNat n :: bs) = some c :: decodeFrom none bs := by
  have same : (UInt8.ofNat n).toNat = n := UInt8.toNat_ofNat_of_lt' octet
  rw [decodeFrom, same, char]

theorem decodeFrom_begun {n : Nat} {p : Partial} (octet : n < 256) (begun : first n = .begun p) (bs : Bytes) :
    decodeFrom none (UInt8.ofNat n :: bs) = decodeFrom (some p) bs := by
  have same : (UInt8.ofNat n).toNat = n := UInt8.toNat_ofNat_of_lt' octet
  rw [decodeFrom, same, begun]

theorem decodeFrom_last {n low high bits : Nat} (octet : n < 256) (inside : low ≤ n ∧ n ≤ high) (bs : Bytes) :
    decodeFrom (some ⟨0, low, high, bits⟩) (UInt8.ofNat n :: bs)
      = some (Char.ofNat (bits * 64 + (n - 0x80))) :: decodeFrom none bs := by
  have same : (UInt8.ofNat n).toNat = n := UInt8.toNat_ofNat_of_lt' octet
  rw [decodeFrom, same, if_pos inside]

theorem decodeFrom_next {n owed low high bits : Nat} (octet : n < 256) (inside : low ≤ n ∧ n ≤ high) (bs : Bytes) :
    decodeFrom (some ⟨owed + 1, low, high, bits⟩) (UInt8.ofNat n :: bs)
      = decodeFrom (some ⟨owed, 0x80, 0xbf, bits * 64 + (n - 0x80)⟩) bs := by
  have same : (UInt8.ofNat n).toNat = n := UInt8.toNat_ofNat_of_lt' octet
  rw [decodeFrom, same, if_pos inside]

/-! ## First octets -/

theorem first_two {n : Nat} (low : 2 ≤ n) (high : n < 32) : first (n + 0xc0) = .begun ⟨0, 0x80, 0xbf, n⟩ := by
  unfold first
  rw [if_neg (by omega), if_pos (by omega), Nat.add_sub_cancel]

/-- Octets of three begin with more than zero bits, or the next octet must not be low. Surrogates have no octets. -/
theorem first_three {n : Nat} (high : n < 16) : first (n + 0xe0)
    = .begun ⟨1, if n = 0 then 0xa0 else 0x80, if n = 0xd then 0x9f else 0xbf, n⟩ := by
  have each : ∀ n < 16, first (n + 0xe0)
      = .begun ⟨1, if n = 0 then 0xa0 else 0x80, if n = 0xd then 0x9f else 0xbf, n⟩ := by decide
  exact each n high

/-- Octets of four begin with more than zero bits, or the next octet must not be low. No character is beyond U+10FFFF. -/
theorem first_four {n : Nat} (high : n ≤ 4) : first (n + 0xf0)
    = .begun ⟨2, if n = 0 then 0x90 else 0x80, if n = 4 then 0x8f else 0xbf, n⟩ := by
  have each : ∀ n ≤ 4, first (n + 0xf0)
      = .begun ⟨2, if n = 0 then 0x90 else 0x80, if n = 4 then 0x8f else 0xbf, n⟩ := by decide
  exact each n high

/-! ## Characters -/

theorem decodeFrom_encodeChar (c : Char) (bs : Bytes) :
    decodeFrom none (String.utf8EncodeChar c ++ bs) = some c :: decodeFrom none bs := by
  have valid : c.toNat < 0xd800 ∨ 0xdfff < c.toNat ∧ c.toNat < 0x110000 := c.valid
  have whole : ∀ n, n = c.toNat → Char.ofNat n = c := by
    rintro n rfl
    exact Char.ofNat_toNat c
  have encoded : String.utf8EncodeChar c = if c.toNat ≤ 0x7f then [UInt8.ofNat c.toNat]
      else if c.toNat ≤ 0x7ff then [UInt8.ofNat (c.toNat / 64 % 32 + 0xc0), UInt8.ofNat (c.toNat % 64 + 0x80)]
      else if c.toNat ≤ 0xffff then [UInt8.ofNat (c.toNat / 4096 % 16 + 0xe0), UInt8.ofNat (c.toNat / 64 % 64 + 0x80),
        UInt8.ofNat (c.toNat % 64 + 0x80)]
      else [UInt8.ofNat (c.toNat / 262144 % 8 + 0xf0), UInt8.ofNat (c.toNat / 4096 % 64 + 0x80),
        UInt8.ofNat (c.toNat / 64 % 64 + 0x80), UInt8.ofNat (c.toNat % 64 + 0x80)] := rfl
  rw [encoded]
  generalize c.toNat = v at *
  split
  · next one =>
    refine decodeFrom_char (by omega) ?_ bs
    rw [first, if_pos one, whole v rfl]
  split
  · next more two =>
    simp only [List.cons_append, List.nil_append]
    rw [decodeFrom_begun (by omega) (first_two (by omega) (by omega)), decodeFrom_last (by omega) (by omega),
      whole _ (by omega)]
  split
  · next more three =>
    simp only [List.cons_append, List.nil_append]
    rw [decodeFrom_begun (by omega) (first_three (by omega)), decodeFrom_next (by omega) (by split <;> split <;> omega),
      decodeFrom_last (by omega) (by omega), whole _ (by omega)]
  · next more =>
    simp only [List.cons_append, List.nil_append]
    rw [decodeFrom_begun (by omega) (first_four (by omega)), decodeFrom_next (by omega) (by split <;> split <;> omega),
      decodeFrom_next (by omega) (by omega), decodeFrom_last (by omega) (by omega), whole _ (by omega)]

theorem decodeFrom_toUtf8 (t : Text) : decodeFrom none t.toUtf8 = t.map some := by
  induction t with
  | nil => rfl
  | cons c t ih =>
    rw [Text.toUtf8, List.flatMap_cons, decodeFrom_encodeChar, List.map_cons]
    exact congrArg _ ih

end Utf8

/-! ## Texts -/

theorem Bytes.decode?_toUtf8 (t : Text) : Bytes.decode? t.toUtf8 = some t := by
  rw [decode?, Utf8.decodeFrom_toUtf8, List.mapM_map]
  induction t with
  | nil => rfl
  | cons c t ih =>
    rw [List.mapM_cons, ih]
    rfl

theorem Text.toUtf8_injective : Function.Injective Text.toUtf8 := by
  intro s t same
  have decoded := congrArg Bytes.decode? same
  rw [Bytes.decode?_toUtf8, Bytes.decode?_toUtf8] at decoded
  exact Option.some.inj decoded

end Marginalia
