import Marginalia.Proofs.Json
import Marginalia.Text.Utf8

/-!
# The characters of JSON

Written JSON has only ASCII characters and no carriage return. So line ends stay as they are when it is read from a
file.
-/

namespace Marginalia

/-- A character of ASCII other than the carriage return. -/
def isPrinted (c : Char) : Bool := c.toNat < 0x80 && c != '\r'

/-- All characters are of ASCII, and none is a carriage return. -/
def Text.Printed (t : Text) : Prop := ∀ c ∈ t, isPrinted c = true

instance (t : Text) : Decidable t.Printed := inferInstanceAs (Decidable (∀ c ∈ t, isPrinted c = true))

namespace Text

theorem Printed.append {s t : Text} (first : s.Printed) (second : t.Printed) : Printed (s ++ t) := fun c h =>
  (List.mem_append.mp h).elim (first c) (second c)

theorem Printed.cons {c : Char} {t : Text} (first : isPrinted c = true) (rest : t.Printed) : Printed (c :: t) :=
  fun d h => (List.mem_cons.mp h).elim (fun same => same ▸ first) (rest d)

theorem printed_replicate {c : Char} (printed : isPrinted c = true) (n : Nat) : Printed (List.replicate n c) :=
  fun _ h => List.eq_of_mem_replicate h ▸ printed

theorem Printed.of_sublist {s t : Text} (printed : t.Printed) (sub : ∀ c ∈ s, c ∈ t) : s.Printed := fun c h =>
  printed c (sub c h)

theorem Printed.join {separator : Text} (between : separator.Printed) {parts : List Text}
    (each : ∀ part ∈ parts, Printed part) : Printed (Text.join separator parts) :=
  Text.join_induction nofun (fun _ _ => Printed.append) between each

theorem printed_toDigits {base n : Nat} (atLeastTwo : 1 < base) (atMost : base ≤ 16) :
    Printed (Nat.toDigits base n) := by
  intro c member
  obtain ⟨digit, small, rfl⟩ := exists_of_mem_toDigits atLeastTwo member
  have all : ∀ digit < 16, isPrinted digit.digitChar = true := by decide
  exact all digit (Nat.lt_of_lt_of_le small atMost)

theorem printed_decimal (n : Nat) : Printed (decimal n) := printed_toDigits (by decide) (by decide)

end Text

open Text

namespace Json

theorem printed_escapeChar (c : Char) : Printed (escapeChar c) := by
  have unit : ∀ n, Printed (unitEscape n) := fun n =>
    .cons (by decide) (.cons (by decide)
      ((printed_replicate (by decide) _).append (printed_toDigits (by decide) (by decide))))
  unfold escapeChar
  split
  · decide
  split
  · decide
  split
  · decide
  split
  · decide
  split
  · decide
  split
  · decide
  split
  · decide
  split
  · next visible =>
    rintro d member
    rw [List.mem_singleton.mp member, isPrinted]
    have notReturn : c ≠ '\r' := by assumption
    simp [notReturn]
    omega
  split
  · exact unit _
  · exact (unit _).append (unit _)

theorem printed_writeText (t : Text) : Printed (writeText t) := by
  have inside : Printed (t.flatMap escapeChar) := by
    intro c member
    obtain ⟨d, -, written⟩ := List.mem_flatMap.mp member
    exact printed_escapeChar d c written
  exact (Printed.append (by decide) inside).append (by decide)

theorem printed_layout {digits : Text} (printed : digits.Printed) (point : Int) :
    Printed (Binary64.layout digits point) := by
  have taken : ∀ n, Printed (digits.take n) := fun n => printed.of_sublist fun c => List.mem_of_mem_take
  have dropped : ∀ n, Printed (digits.drop n) := fun n => printed.of_sublist fun c => List.mem_of_mem_drop
  have zeros : ∀ n, Printed (List.replicate n '0') := printed_replicate (by decide)
  have point' : Printed ['.'] := by decide
  unfold Binary64.layout
  split
  · split
    · exact (Printed.append (by decide) (zeros _)).append printed
    · split
      · exact (printed.append (zeros _)).append (by decide)
      · exact ((taken _).append point').append (dropped _)
  · refine (((((taken _).append ?_).append (by decide)).append ?_).append ((zeros _).append (printed_decimal _)))
    · split
      · decide
      · exact point'.append (dropped _)
    · split <;> decide

theorem printed_significant (n : Nat) : Printed (Binary64.significant n) := by
  refine (printed_decimal n).of_sublist fun c member => ?_
  rw [Binary64.significant, Text.dropRightWhile, List.mem_reverse] at member
  exact List.mem_reverse.mp ((List.dropWhile_sublist _).subset member)

theorem printed_writeFloat (x : Binary64) : Printed (writeFloat x) := by
  cases x with
  | nan => decide
  | infinite negative => cases negative <;> decide
  | finite negative m e =>
    rw [writeFloat_finite]
    refine Printed.append (by split <;> decide) ?_
    unfold magnitudeText
    split
    · decide
    · exact printed_layout (printed_significant _) _

theorem printed_decimalInt (n : Int) : Printed (decimalInt n) := by
  cases n with
  | ofNat n => exact printed_decimal n
  | negSucc n => exact .cons (by decide) (printed_decimal _)

theorem printed_enclose (layout : Layout) (depth : Nat) {left right : Text} {items : List Text}
    (first : left.Printed) (last : right.Printed) (each : ∀ item ∈ items, Printed item) :
    Printed (enclose layout depth left right items) := by
  have newline : ∀ depth, Printed (lineBreak depth) := fun depth =>
    .cons (by decide) (printed_replicate (by decide) _)
  unfold enclose
  split
  · exact first.append last
  · split
    · exact (((first.append (newline _)).append (.join (Printed.append (by decide) (newline _)) each)).append
        (newline _)).append last
    · exact (first.append (.join (by decide) each)).append last

theorem printed_writeAt (layout : Layout) (depth : Nat) (v : Value) : Printed (writeAt layout depth v) := by
  induction v using Value.induct generalizing depth with
  | null => exact (by decide : Printed ("null" : Text))
  | bool b =>
    cases b with
    | true => exact (by decide : Printed ("true" : Text))
    | false => exact (by decide : Printed ("false" : Text))
  | int n => exact printed_decimalInt n
  | float x => exact printed_writeFloat x
  | text t => exact printed_writeText t
  | list items ih =>
    rw [writeAt, writeItems_eq]
    apply printed_enclose layout depth (by decide) (by decide)
    rw [List.forall_mem_map]
    exact fun v member => ih v member (depth + 1)
  | object members ih =>
    have each : ∀ m ∈ writeMembers layout (depth + 1) members, Printed m.2 := by
      rw [writeMembers_eq]
      intro m member
      obtain ⟨original, inside, rfl⟩ := List.mem_map.mp member
      exact ih original inside (depth + 1)
    rw [writeAt, arrange]
    apply printed_enclose layout depth (by decide) (by decide)
    intro item member
    obtain ⟨m, inside, rfl⟩ := List.mem_map.mp member
    refine ((printed_writeText m.1).append (by decide)).append (each m ?_)
    split at inside
    · exact (List.mergeSort_perm _ _).mem_iff.mp inside
    · exact inside

end Json

theorem Text.unifyNewlines_of_printed {t : Text} (printed : t.Printed) : t.unifyNewlines = t := by
  induction t with
  | nil => rfl
  | cons c t ih =>
    obtain ⟨first, rest⟩ := List.forall_mem_cons.mp printed
    have notReturn : c ≠ '\r' := by
      rintro rfl
      exact absurd first (by decide)
    rw [Text.unifyNewlines, if_neg notReturn, ih rest]
    rintro tail rfl
    exact absurd rfl notReturn

end Marginalia
