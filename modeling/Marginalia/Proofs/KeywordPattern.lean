import Marginalia.Pattern.Basic
import Marginalia.Proofs.Lines

/-!
# The pattern of keywords

What a line of a declaration looks like can be said by one pattern: a keyword, blanks and the rest of the line. The
keywords are alternatives, longest first, and the first of them is taken that lets the rest match. The blanks and the
rest are taken as far as they go, and less is tried where that does not lead to the end of the line. None of this makes
a difference: the pattern finds the longest keyword that a blank follows.
-/

namespace Marginalia

namespace Spot

@[simp] theorem advance_zero (s : Spot) : s.advance 0 = s := rfl

theorem advance_advance (s : Spot) (m n : Nat) : (s.advance m).advance n = s.advance (m + n) := by
  simp [advance, List.take_add, List.drop_drop]

@[simp] theorem after_advance (s : Spot) (n : Nat) : (s.advance n).after = s.after.drop n := rfl

@[simp] theorem after_setGroup (s : Spot) (index : Nat) (t : Text) : (s.setGroup index t).after = s.after := rfl

theorem textTo_advance (s : Spot) (n : Nat) : s.textTo (s.advance n) = s.after.take n := by
  rw [textTo, after_advance, List.length_drop]
  by_cases inside : n ≤ s.after.length
  · rw [Nat.sub_sub_self inside]
  · rw [List.take_of_length_le (by omega), List.take_of_length_le (by omega)]

end Spot

namespace Regex

/-! ## One character after the other -/

/-- One character that satisfies `p`. -/
def char (p : Char → Bool) (next : Spot → Option Spot) (s : Spot) : Option Spot :=
  match s.after with
  | c :: _ => if p c then next (s.advance 1) else none
  | [] => none

/-- As many characters that satisfy `p` as there are, or else one less at a time. -/
def chars (p : Char → Bool) (next : Spot → Option Spot) (s : Spot) : Option Spot :=
  (List.range ((s.after.takeWhile p).length + 1)).reverse.findSome? fun n => next (s.advance n)

theorem chars_eq_some {p : Char → Bool} {next : Spot → Option Spot} {s later : Spot}
    (longest : next (s.advance (s.after.takeWhile p).length) = some later) : chars p next s = some later := by
  rw [chars, List.range_succ, List.reverse_append, List.reverse_singleton, List.singleton_append,
    List.findSome?_cons_of_isSome (by rw [longest]; rfl), longest]

theorem chars_eq_none {p : Char → Bool} {next : Spot → Option Spot} {s : Spot}
    (none : ∀ n ≤ (s.after.takeWhile p).length, next (s.advance n) = none) : chars p next s = .none := by
  rw [chars, List.findSome?_eq_none_iff]
  intro n inside
  rw [List.mem_reverse, List.mem_range] at inside
  exact none n (Nat.le_of_lt_succ inside)

theorem chars_cons {p : Char → Bool} (next : Spot → Option Spot) {s : Spot} {c : Char} {t : Text}
    (rest : s.after = c :: t) (fits : p c = true) : chars p next s = (chars p next (s.advance 1)).or (next s) := by
  have shorter : (s.advance 1).after = t := by rw [Spot.after_advance, rest, List.drop_one, List.tail_cons]
  have counts : ∀ n, (List.range (n + 1 + 1)).reverse = (List.range (n + 1)).reverse.map Nat.succ ++ [0] := by
    intro n
    rw [List.range_succ_eq_map (n := n + 1), List.reverse_cons, List.map_reverse]
  rw [chars, chars, shorter, rest, List.takeWhile_cons_of_pos fits, List.length_cons, counts, List.findSome?_append,
    List.findSome?_map]
  simp [Spot.advance_advance, Function.comp_def, Nat.add_comm]

theorem rounds_char {p : Char → Bool} (next : Spot → Option Spot) {fuel : Nat} {last : Option Nat} {s : Spot}
    (enough : s.after.length < fuel) (moved : last ≠ some s.after.length) :
    rounds (char p) true next fuel 0 none last s = chars p next s := by
  induction fuel generalizing last s with
  | zero => cases enough
  | succ fuel ih =>
    have free : (none == some 0 || last == some s.after.length) = false := by simpa using moved
    simp only [rounds, free, Bool.false_eq_true, if_false, if_true, char, Option.map_none]
    cases rest : s.after with
    | nil =>
      rw [chars, rest]
      simp
    | cons c t =>
      dsimp only
      by_cases fits : p c = true
      · have shorter : (s.advance 1).after = t := by rw [Spot.after_advance, rest, List.drop_one, List.tail_cons]
        rw [if_pos fits, chars_cons next rest fits, ih]
        · rw [shorter]
          rw [rest, List.length_cons] at enough
          omega
        · rw [shorter, List.length_cons]
          simp
      · rw [if_neg fits, chars, rest, List.takeWhile_cons_of_neg fits]
        simp

section Repetition

variable {body : Regex} {p : Char → Bool} (single : body.run = char p) (next : Spot → Option Spot) (s : Spot)
include single

theorem run_anyNumber : (Regex.repeat body 0 none true).run next s = chars p next s := by
  rw [run, single]
  exact rounds_char next (by omega) (by simp)

theorem run_atLeastOne : (Regex.repeat body 1 none true).run next s = char p (chars p next) s := by
  rw [run, single]
  show char p (rounds (char p) true next (1 + s.after.length + 1) 0 none none) s = char p (chars p next) s
  unfold char
  cases rest : s.after with
  | nil => rfl
  | cons c t =>
    have later : (s.advance 1).after.length < 1 + (c :: t).length + 1 := by
      rw [Spot.after_advance, rest, List.length_drop]
      omega
    dsimp only
    rw [← rounds_char next later (by simp : none ≠ some _)]
    rfl

end Repetition

/-- A text as it is. -/
def literal : Text → Regex
  | [] => .empty
  | c :: t => .seq (.one ⟨[.range c.toNat c.toNat], false⟩ false) (literal t)

theorem run_literal (t : Text) (next : Spot → Option Spot) (s : Spot) :
    (literal t).run next s = if t <+: s.after then next (s.advance t.length) else none := by
  induction t generalizing s with
  | nil => simp [literal, run]
  | cons c t ih =>
    have only : ∀ d, CharSet.has ⟨[.range c.toNat c.toNat], false⟩ false d = decide (c = d) := by
      intro d
      rw [Bool.eq_iff_iff, decide_eq_true_iff, ← Char.toNat_inj]
      simp [CharSet.has, SetItem.has, Nat.le_antisymm_iff]
    simp only [literal, run]
    cases rest : s.after with
    | nil => simp
    | cons d more =>
      have shorter : (s.advance 1).after = more := by rw [Spot.after_advance, rest, List.drop_one, List.tail_cons]
      simp only [only, List.cons_prefix_cons, decide_eq_true_eq, ih, shorter, Spot.advance_advance, List.length_cons,
        Nat.add_comm 1]
      by_cases same : c = d
      · simp [same]
      · simp [same]

/-- One of several texts, tried in order. -/
def anyOf : Text → List Text → Regex
  | first, [] => literal first
  | first, second :: rest => .alt (literal first) (anyOf second rest)

theorem run_anyOf (first : Text) (rest : List Text) (next : Spot → Option Spot) (s : Spot) :
    (anyOf first rest).run next s = (first :: rest).findSome? fun t => (literal t).run next s := by
  induction rest generalizing first with
  | nil => simp [anyOf]
  | cons second rest ih =>
    rw [anyOf, run, ih, List.findSome?_cons (a := first)]
    cases (literal first).run next s <;> rfl

/-! ## The end of a line -/

/-- Everything up to the end of the line, as the second group. -/
def restOfLine : Regex := .seq (.group 2 (.repeat (.any false) 0 none true)) (.at (.stop false))

/-- Blanks, at least one, and everything after them up to the end of the line. -/
def afterBlanks : Regex := .seq (.repeat (.one ⟨[.named .blank false], false⟩ false) 1 none true) restOfLine

/-- The last character does not change when a text is read on. -/
theorem solid_of_suffix {t later : Text} (suffix : later <:+ t) (stop : ∀ c ∈ t.getLast?, isBlank c = false) :
    ∀ c ∈ later.getLast?, isBlank c = false := by
  obtain ⟨before, rfl⟩ := suffix
  intro c last
  apply stop
  rw [Option.mem_def] at last
  rw [List.getLast?_append, last]
  rfl

theorem run_restOfLine {s : Spot} (stop : ∀ c ∈ s.after.getLast?, isBlank c = false) : restOfLine.run some s
    = if '\n' ∈ s.after then none else some ((s.advance s.after.length).setGroup 2 s.after) := by
  have single : (any false).run = char (· != '\n') := rfl
  rw [restOfLine, run, run, run_anyNumber single]
  by_cases feed : '\n' ∈ s.after
  · rw [if_pos feed]
    apply chars_eq_none
    intro n inside
    have further : s.after.drop n ≠ [] := by
      intro nothing
      rw [List.drop_eq_nil_iff] at nothing
      have whole := (List.takeWhile_prefix (· != '\n') (l := s.after)).eq_of_length_le (nothing.trans inside)
      rw [← whole] at feed
      simpa using List.mem_takeWhile_imp feed
    have notLast : s.after.drop n ≠ ['\n'] := by
      intro last
      have blank := solid_of_suffix (List.drop_suffix n s.after) stop '\n' (by rw [last]; rfl)
      cases blank
    obtain ⟨c, t, rest⟩ := List.exists_cons_of_ne_nil further
    rw [rest, Ne, List.cons.injEq, not_and] at notLast
    simpa [run, Spot.meets, rest] using notLast
  · rw [if_neg feed]
    have all : s.after.takeWhile (· != '\n') = s.after := by
      rw [List.takeWhile_eq_self_iff]
      intro c member
      exact bne_iff_ne.mpr (ne_of_mem_of_not_mem member feed)
    apply chars_eq_some
    rw [all, Spot.textTo_advance, List.take_length]
    simp [run, Spot.meets]

end Regex

namespace Signature

open Regex

theorem afterKeyword?_append (keyword after : Text) :
    afterKeyword? keyword (keyword ++ after) = afterKeyword? [] after := by
  rw [afterKeyword?, Text.afterStart?_eq_some.mpr rfl]
  rfl

theorem afterKeyword?_of_not_prefix {keyword line : Text} (absent : ¬ keyword <+: line) :
    afterKeyword? keyword line = none := by
  have none : Text.afterStart? keyword line = none := by
    rw [Option.eq_none_iff_forall_ne_some]
    intro rest found
    exact absent ⟨rest, (Text.afterStart?_eq_some.mp found).symm⟩
  rw [afterKeyword?, none]

theorem run_afterBlanks {s : Spot} (stop : ∀ c ∈ s.after.getLast?, isBlank c = false) :
    afterBlanks.run some s
      = (afterKeyword? [] s.after).map fun rest => (s.advance s.after.length).setGroup 2 rest := by
  have single : (one ⟨[.named .blank false], false⟩ false).run = char isBlank := by
    have same : CharSet.has ⟨[.named .blank false], false⟩ false = isBlank := by
      funext c
      simp [CharSet.has, SetItem.has, CharClass.has]
    rw [← same]
    rfl
  rw [afterBlanks, run, run_atLeastOne single, char]
  cases rest : s.after with
  | nil => rfl
  | cons c t =>
    have shorter : (s.advance 1).after = t := by rw [Spot.after_advance, rest, List.drop_one, List.tail_cons]
    simp only [afterKeyword?, Text.afterStart?, List.contains_iff_mem]
    by_cases blank : isBlank c = true
    · rw [if_pos blank, if_pos blank]
      have later : ∀ n, restOfLine.run some ((s.advance 1).advance n) = if '\n' ∈ t.drop n then none
          else some ((s.advance (1 + (n + (t.drop n).length))).setGroup 2 (t.drop n)) := by
        intro n
        rw [run_restOfLine, Spot.after_advance, shorter, Spot.advance_advance, Spot.advance_advance]
        rw [rest] at stop
        rw [Spot.after_advance, shorter]
        exact solid_of_suffix ((List.drop_suffix n t).trans (List.suffix_cons c t)) stop
      have trimmed : t.drop (t.takeWhile isBlank).length = Text.trimLeft t := Text.drop_length_takeWhile isBlank t
      by_cases feed : '\n' ∈ Text.trimLeft t
      · rw [if_pos feed]
        apply chars_eq_none
        intro n inside
        rw [shorter] at inside
        rw [← trimmed] at feed
        rw [later, if_pos (List.drop_subset_drop_left t inside feed)]
      · rw [if_neg feed]
        apply chars_eq_some
        have length := congrArg List.length (List.takeWhile_append_dropWhile (p := isBlank) (l := t))
        rw [List.length_append] at length
        rw [shorter, later, trimmed, if_neg feed, Text.trimLeft, length, List.length_cons, Nat.add_comm 1]
    · rw [if_neg blank, if_neg blank]
      rfl

/-! ## The whole pattern -/

/-- The pattern of a line that declares something, if there are keywords: one of them as the first group, from the
    longest to the shortest, and after blanks the rest of the line as the second one. -/
def keywordPattern? (keywords : List Text) : Option Regex :=
  match keywords.mergeSort fun a b => b.length ≤ a.length with
  | [] => none
  | first :: rest => some (.seq (.at (.start false)) (.seq (.group 1 (anyOf first rest)) afterBlanks))

/-- The keyword and the rest of a line as the pattern finds them. -/
def matched? (keywords : List Text) (line : Text) : Option (Option Text × Option Text) :=
  ((keywordPattern? keywords).bind fun pattern => pattern.run some (Spot.start line)).map fun s =>
    (s.group? 1, s.group? 2)

/-- With one of the keywords the pattern goes as far as the keyword alone does. -/
theorem run_keyword (keyword : Text) {line : Text} (tight : line.Tight) :
    ((literal keyword).run (fun later => afterBlanks.run some (later.setGroup 1 ((Spot.start line).textTo later)))
      (Spot.start line)).map (fun s => (s.group? 1, s.group? 2))
      = (afterKeyword? keyword line).map fun rest => (some keyword, some rest) := by
  rw [run_literal]
  by_cases start : keyword <+: line
  · rw [if_pos (show keyword <+: (Spot.start line).after from start)]
    obtain ⟨after, rfl⟩ := start
    have cut : ((Spot.start (keyword ++ after)).advance keyword.length).after = after := List.drop_left
    have taken : (Spot.start (keyword ++ after)).textTo ((Spot.start (keyword ++ after)).advance keyword.length)
        = keyword := by
      rw [Spot.textTo_advance]
      exact List.take_left
    rw [run_afterBlanks, Spot.after_setGroup, cut, taken, afterKeyword?_append, Option.map_map]
    · rfl
    · rw [Spot.after_setGroup, cut]
      exact solid_of_suffix (List.suffix_append keyword after) tight.stop
  · rw [if_neg (show ¬ keyword <+: (Spot.start line).after from start), afterKeyword?_of_not_prefix start]
    rfl

/-- The pattern finds the first keyword that fits, in the order of their lengths. -/
theorem matched?_eq (keywords : List Text) {line : Text} (tight : line.Tight) : matched? keywords line
    = (keywords.mergeSort fun a b => b.length ≤ a.length).findSome? fun keyword =>
      (afterKeyword? keyword line).map fun rest => (some keyword, some rest) := by
  unfold matched? keywordPattern?
  cases keywords.mergeSort fun a b => b.length ≤ a.length with
  | nil => rfl
  | cons first rest =>
    have start : (Spot.start line).meets (.start false) = true := rfl
    dsimp only [Option.bind_some]
    rw [run, run, if_pos start, run, run, run_anyOf, List.map_findSome?]
    congr 1
    funext keyword
    exact run_keyword keyword tight

end Signature

end Marginalia
