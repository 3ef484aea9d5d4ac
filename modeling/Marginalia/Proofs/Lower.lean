import Marginalia.Proofs.Text
import Marginalia.Text.Case
import Mathlib.Tactic.Common

/-!
# Lower case twice

A text in lower case stays as it is when it is put in lower case again, and it has blanks only where the text had them.
Both are facts about the table of capital letters: what a run of capital letters becomes meets no run of the table, no
blank and none of the two letters with rules of their own.
-/

namespace Marginalia

namespace Lower

/-- A run of capital letters. -/
abbrev Run := Nat × Nat × Nat × Int

/-- The code point belongs to the run. -/
def inRun (n : Nat) (run : Run) : Bool := run.1 ≤ n && n ≤ run.2.1 && (n - run.1) % run.2.2.1 == 0

/-- The code points from `low` to `high` in steps of `step` meet no letter of the run: they lie on one side of it, or
    they are in the gaps between its letters. -/
def apart (low high step : Nat) (run : Run) : Bool :=
  Nat.blt high run.1 || Nat.blt run.2.1 low
    || (Nat.beq run.2.2.1 2 && (Nat.beq step 2 || Nat.beq low high) && Nat.beq ((low + run.1) % 2) 1)

/-- Code points of no lower-case letter: blanks, the two letters with rules of their own, and what is no character. -/
def strange : List (Nat × Nat) := ('Σ'.toNat, 'Σ'.toNat) :: ('İ'.toNat, 'İ'.toNat) :: (0xd800, 0xdfff) :: blankRanges

/-- The lower-case letters of a run are regular and meet no run of the table. -/
def isRegular (run : Run) : Bool :=
  let low := ((run.1 : Int) + run.2.2.2).toNat
  let high := ((run.2.1 : Int) + run.2.2.2).toNat
  decide (0 ≤ (run.1 : Int) + run.2.2.2) && Nat.blt high 0x110000 && (Nat.beq run.2.2.1 1 || Nat.beq run.2.2.1 2)
    && strange.all (fun range => Nat.blt high range.1 || Nat.blt range.2 low)
    && lowerSteps.all (apart low high run.2.2.1)

theorem isRegular_of_mem : ∀ run ∈ lowerSteps, isRegular run = true := by
  rw [← List.all_eq_true]
  decide +kernel

theorem lowerOffset_eq_zero {n : Nat} (outside : ∀ run ∈ lowerSteps, inRun n run = false) : lowerOffset n = 0 := by
  unfold lowerOffset
  rw [List.find?_eq_none.mpr]
  intro run member
  simpa [inRun] using outside run member

theorem lowerOffset_cases (n : Nat) :
    lowerOffset n = 0 ∨ ∃ run ∈ lowerSteps, inRun n run = true ∧ lowerOffset n = run.2.2.2 := by
  unfold lowerOffset
  split
  · next first last step offset found =>
    exact .inr ⟨_, List.mem_of_find?_eq_some found, List.find?_some found, rfl⟩
  · exact .inl rfl

/-- A lower-case letter of a run is not a letter of another run that lies apart. -/
theorem inRun_of_apart {low high step : Nat} {run : Run} (h : apart low high step run = true) {m : Nat}
    (above : low ≤ m) (below : m ≤ high) (even : step = 2 → (m - low) % 2 = 0) : inRun m run = false := by
  obtain ⟨first, last, size, offset⟩ := run
  simp only [apart, Bool.or_eq_true, Bool.and_eq_true, Nat.blt_eq, Nat.beq_eq] at h
  simp only [inRun, Bool.and_eq_false_iff, decide_eq_false_iff_not, beq_eq_false_iff_ne]
  rcases h with (left | right) | ⟨⟨rfl, gap⟩, odd⟩
  · omega
  · omega
  · rcases gap with two | one
    · have := even two
      omega
    · omega

end Lower

open Lower

/-- A character that is its own lower case, whatever stands around it. -/
structure IsLower (c : Char) : Prop where
  noSigma : c ≠ 'Σ'
  noDot : c ≠ 'İ'
  fixed : lowerChar c = c

theorem toLower_cases : ∀ n < 0x80, (Char.ofNat n).toLower = Char.ofNat n ∨ lowerOffset n = 32 := by
  decide +kernel

theorem toNat_ofNat {n : Nat} (valid : n.isValidChar) : (Char.ofNat n).toNat = n := by
  rw [Char.ofNat, dif_pos valid]
  rfl

theorem lowerChar_ofNat {n : Nat} (valid : n.isValidChar) (none : lowerOffset n = 0) :
    lowerChar (Char.ofNat n) = Char.ofNat n := by
  unfold lowerChar
  rw [toNat_ofNat valid]
  split
  · next ascii => exact (toLower_cases n ascii).resolve_right (by rw [none]; decide)
  · rw [none, Int.add_zero, Int.toNat_natCast]

theorem lowerChar_ascii {c : Char} (ascii : c.toNat < 0x80) :
    lowerChar c = c ∨ IsLower (lowerChar c) ∧ isBlank (lowerChar c) = false := by
  have each : ∀ n < 0x80, (Char.ofNat n).toLower = Char.ofNat n ∨ (Char.ofNat n).toLower.toNat < 0x80
      ∧ (Char.ofNat n).toLower.toLower = (Char.ofNat n).toLower ∧ isBlank (Char.ofNat n).toLower = false := by
    decide +kernel
  have here := each c.toNat ascii
  rw [Char.ofNat_toNat] at here
  rw [lowerChar, if_pos ascii]
  refine here.imp_right fun ⟨small, fixed, solid⟩ => ⟨⟨?_, ?_, ?_⟩, solid⟩
  · intro sigma
    rw [sigma] at small
    exact absurd small (by decide)
  · intro dot
    rw [dot] at small
    exact absurd small (by decide)
  · rw [lowerChar, if_pos small, fixed]

/-- A character without lower case stays; the lower case of another one is regular. -/
theorem lowerChar_cases (c : Char) :
    lowerChar c = c ∨ IsLower (lowerChar c) ∧ isBlank (lowerChar c) = false := by
  by_cases ascii : c.toNat < 0x80
  · exact lowerChar_ascii ascii
  rw [lowerChar, if_neg ascii]
  rcases lowerOffset_cases c.toNat with none | ⟨⟨first, last, step, offset⟩, member, inside, found⟩
  · left
    rw [none, Int.add_zero, Int.toNat_natCast, Char.ofNat_toNat]
  · right
    have regular := isRegular_of_mem _ member
    simp only [isRegular, Bool.and_eq_true, decide_eq_true_eq, Nat.blt_eq, Bool.or_eq_true, List.all_eq_true,
      Nat.beq_eq] at regular
    obtain ⟨⟨⟨⟨nonneg, small⟩, steps⟩, noStrange⟩, noRun⟩ := regular
    simp only [inRun, Bool.and_eq_true, decide_eq_true_eq, beq_iff_eq] at inside
    obtain ⟨⟨above, below⟩, onStep⟩ := inside
    rw [found]
    generalize code : ((c.toNat : Int) + offset).toNat = m
    have low : ((first : Int) + offset).toNat ≤ m := by omega
    have high : m ≤ ((last : Int) + offset).toNat := by omega
    have even : step = 2 → (m - ((first : Int) + offset).toNat) % 2 = 0 := by
      rintro rfl
      omega
    have familiar : ∀ range ∈ strange, m < range.1 ∨ range.2 < m := by
      intro range inStrange
      rcases noStrange range inStrange with left | right
      · exact .inl (Nat.lt_of_le_of_lt high left)
      · exact .inr (Nat.lt_of_lt_of_le right low)
    have valid : m.isValidChar := by
      have surrogate := familiar (0xd800, 0xdfff) (by simp [strange])
      unfold Nat.isValidChar
      dsimp only at surrogate
      omega
    have same : (Char.ofNat m).toNat = m := toNat_ofNat valid
    have other : ∀ d : Char, (d.toNat, d.toNat) ∈ strange → Char.ofNat m ≠ d := by
      rintro d inStrange rfl
      have := familiar _ inStrange
      rw [same] at this
      omega
    have plain : lowerOffset m = 0 := lowerOffset_eq_zero fun run h => inRun_of_apart (noRun run h) low high even
    refine ⟨⟨other 'Σ' (by simp [strange]), other 'İ' (by simp [strange]), lowerChar_ofNat valid plain⟩, ?_⟩
    rw [isBlank, same, inRanges, List.any_eq_false]
    intro range inBlank
    have := familiar range (by simp [strange, inBlank])
    simp only [Bool.and_eq_true, decide_eq_true_eq]
    omega

theorem isLower_lowerChar {c : Char} (noSigma : c ≠ 'Σ') (noDot : c ≠ 'İ') : IsLower (lowerChar c) := by
  rcases lowerChar_cases c with same | ⟨lower, -⟩
  · exact same.symm ▸ ⟨noSigma, noDot, same⟩
  · exact lower

theorem isBlank_lowerChar {c : Char} (solid : isBlank c = false) : isBlank (lowerChar c) = false := by
  rcases lowerChar_cases c with same | ⟨-, stillSolid⟩
  · exact same.symm ▸ solid
  · exact stillSolid

theorem lowerIn_ne_nil (before after : Text) (c : Char) : lowerIn before c after ≠ [] := by
  unfold lowerIn
  split
  · split <;> simp
  · split <;> simp

theorem mem_lowerIn {before after : Text} {c d : Char} (member : d ∈ lowerIn before c after) :
    IsLower d ∧ (isBlank c = false → isBlank d = false) := by
  have letters : ∀ d ∈ ['ς', 'σ', 'i', '\u0307'], lowerChar d = d ∧ d ≠ 'Σ' ∧ d ≠ 'İ' ∧ isBlank d = false := by
    decide +kernel
  have known : d ∈ ['ς', 'σ', 'i', '\u0307'] → IsLower d ∧ (isBlank c = false → isBlank d = false) := by
    intro h
    obtain ⟨fixed, noSigma, noDot, solid⟩ := letters d h
    exact ⟨⟨noSigma, noDot, fixed⟩, fun _ => solid⟩
  unfold lowerIn at member
  split at member
  · apply known
    split at member <;> simp_all
  · next noSigma =>
    split at member
    · apply known
      simp_all
    · next noDot =>
      obtain rfl := List.mem_singleton.mp member
      exact ⟨isLower_lowerChar noSigma noDot, isBlank_lowerChar⟩

theorem lowerFrom_of_forall {t : Text} (lower : ∀ c ∈ t, IsLower c) (before : Text) : lowerFrom before t = t := by
  induction t generalizing before with
  | nil => rfl
  | cons c t ih =>
    rw [List.forall_mem_cons] at lower
    obtain ⟨⟨noSigma, noDot, fixed⟩, rest⟩ := lower
    rw [lowerFrom, ih rest, lowerIn, if_neg noSigma, if_neg noDot, fixed]
    rfl

theorem forall_lowerFrom {P : Char → Prop} (each : ∀ before c after, ∀ d ∈ lowerIn before c after, P d)
    (before t : Text) : ∀ d ∈ lowerFrom before t, P d := by
  induction t generalizing before with
  | nil => simp [lowerFrom]
  | cons c t ih =>
    rw [lowerFrom, List.forall_mem_append]
    exact ⟨each before c t, ih _⟩

namespace Text

/-- Lower case is lower case already. -/
theorem lower_lower (t : Text) : t.lower.lower = t.lower :=
  lowerFrom_of_forall (forall_lowerFrom (fun _ _ _ _ member => (mem_lowerIn member).1) [] t) []

theorem lower_solid {t : Text} (solid : ∀ c ∈ t, isBlank c = false) : ∀ c ∈ t.lower, isBlank c = false := by
  unfold lower
  generalize ([] : Text) = before
  induction t generalizing before with
  | nil => simp [lowerFrom]
  | cons c t ih =>
    rw [List.forall_mem_cons] at solid
    rw [lowerFrom, List.forall_mem_append]
    exact ⟨fun d member => (mem_lowerIn member).2 solid.1, ih solid.2 _⟩

theorem lower_ne_nil {t : Text} (content : t ≠ []) : t.lower ≠ [] := by
  cases t with
  | nil => exact absurd rfl content
  | cons c t =>
    rw [lower, lowerFrom]
    exact List.append_ne_nil_of_left_ne_nil (lowerIn_ne_nil [] t c) _

end Text

end Marginalia
