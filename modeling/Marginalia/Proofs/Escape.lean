import Marginalia.Markup.Escape
import Marginalia.Proofs.Text
import Mathlib.Data.List.Basic
import Mathlib.Tactic.SplitIfs

/-!
# Escaped text

Escaped text holds none of the characters that markup is made of, and it tells the text that was escaped.
-/

namespace Marginalia.Markup

/-- The characters that may not stand in text, nor in the value of an attribute. -/
def isActive (c : Char) : Bool := c == '<' || c == '>' || c == '"' || c == '\''

theorem not_mem_of_passive {t : Text} (passive : ∀ c ∈ t, isActive c = false) {c : Char} (active : isActive c = true) :
    c ∉ t := by
  intro member
  rw [passive c member] at active
  cases active

theorem isActive_of_mem_escapeChar {c d : Char} (member : d ∈ escapeChar c) : isActive d = false := by
  unfold escapeChar at member
  split_ifs at member
  · revert d; decide
  · revert d; decide
  · revert d; decide
  · revert d; decide
  · revert d; decide
  · obtain rfl := List.mem_singleton.mp member
    simp_all [isActive]

theorem isActive_of_mem_escape {t : Text} {d : Char} (member : d ∈ escape t) : isActive d = false := by
  obtain ⟨c, -, inside⟩ := List.mem_flatMap.mp member
  exact isActive_of_mem_escapeChar inside

theorem escapeChar_ne_nil (c : Char) : escapeChar c ≠ [] := by
  unfold escapeChar
  split_ifs <;> simp

/-- No escaped character starts another one: all that stand for others start with an ampersand, which never stands
    for itself, and they differ further on. -/
theorem escapeChar_append_inj {a b : Char} {s t : Text} (same : escapeChar a ++ s = escapeChar b ++ t) :
    a = b ∧ s = t := by
  unfold escapeChar at same
  split_ifs at same <;> simp_all
  all_goals
    obtain ⟨ampersand, -⟩ := same
    exact absurd ampersand.symm ‹¬b = '&'›

theorem escape_injective {s t : Text} (same : escape s = escape t) : s = t := by
  induction s generalizing t with
  | nil =>
    cases t with
    | nil => rfl
    | cons b t => exact absurd (List.append_eq_nil_iff.mp same.symm).1 (escapeChar_ne_nil b)
  | cons a s ih =>
    cases t with
    | nil => exact absurd (List.append_eq_nil_iff.mp same).1 (escapeChar_ne_nil a)
    | cons b t =>
      obtain ⟨rfl, rest⟩ := escapeChar_append_inj same
      rw [ih rest]

/-- Where escaped text ends before a tag, the text that was escaped can be told. -/
theorem escape_append_inj {s t u v : Text} (same : escape s ++ '<' :: u = escape t ++ '<' :: v) : s = t := by
  have tells : ∀ s u : Text, (escape s ++ '<' :: u).takeWhile (· != '<') = escape s := by
    intro s u
    have clean : ∀ c ∈ escape s, (c != '<') = true := by
      intro c member
      have passive := isActive_of_mem_escape member
      simp only [isActive, Bool.or_eq_false_iff] at passive
      simp [bne, passive.1.1.1]
    rw [List.takeWhile_append_of_pos clean]
    simp
  have texts := congrArg (List.takeWhile (· != '<')) same
  rw [tells, tells] at texts
  exact escape_injective texts

end Marginalia.Markup
