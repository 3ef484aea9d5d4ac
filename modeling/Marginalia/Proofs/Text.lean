import Marginalia.Text.Basic
import Mathlib.Data.List.TakeWhile

/-!
# Laws of texts

Trimming leaves a text alone that neither starts nor ends with a blank, a text without line feeds is one line,
and the occurrences of a part in a text are found one character at a time.
-/

namespace Marginalia

-- Only the characters of a text are looked at, never all characters that there are.
instance (priority := 2000) (t : Text) (p : Char → Prop) [DecidablePred p] : Decidable (∀ c ∈ t, p c) :=
  List.decidableBAll p t

instance (priority := 2000) decidableForallMemOption (o : Option Char) (p : Char → Prop) [DecidablePred p] :
    Decidable (∀ c ∈ o, p c) :=
  Option.decidableForallMem o

/-- The visible characters of ASCII are not blank. -/
theorem isBlank_of_visible {c : Char} (visible : 33 ≤ c.toNat ∧ c.toNat ≤ 126) : isBlank c = false := by
  simp only [isBlank, inRanges, blankRanges, List.any_cons, List.any_nil, Bool.or_false, Bool.or_eq_false_iff,
    Bool.and_eq_false_iff, decide_eq_false_iff_not]
  omega

namespace Text

/-- Neither the first nor the last character is blank. -/
structure Tight (t : Text) : Prop where
  start : ∀ c ∈ t.head?, isBlank c = false
  stop : ∀ c ∈ t.getLast?, isBlank c = false

instance (t : Text) : Decidable t.Tight :=
  decidable_of_iff ((∀ c ∈ t.head?, isBlank c = false) ∧ ∀ c ∈ t.getLast?, isBlank c = false)
    ⟨fun h => ⟨h.1, h.2⟩, fun h => ⟨h.start, h.stop⟩⟩

theorem trimLeft_of_head {t : Text} (start : ∀ c ∈ t.head?, isBlank c = false) : t.trimLeft = t := by
  cases t with
  | nil => rfl
  | cons c t =>
    have solid : isBlank c = false := start c rfl
    simp [trimLeft, solid]

theorem trimRight_append_blanks {t blanks : Text} (blank : ∀ c ∈ blanks, isBlank c = true)
    (stop : ∀ c ∈ t.getLast?, isBlank c = false) : trimRight (t ++ blanks) = t := by
  unfold trimRight dropRightWhile
  rw [List.reverse_append, List.dropWhile_append_of_pos (by simpa using blank)]
  have solid : t.reverse.dropWhile isBlank = t.reverse := by
    apply trimLeft_of_head
    simpa using stop
  rw [solid, List.reverse_reverse]

theorem trimRight_of_last {t : Text} (stop : ∀ c ∈ t.getLast?, isBlank c = false) : trimRight t = t := by
  have right : trimRight (t ++ []) = t := trimRight_append_blanks (by simp) stop
  rwa [List.append_nil] at right

theorem trim_append_blanks {t blanks : Text} (tight : t.Tight) (content : t ≠ [])
    (blank : ∀ c ∈ blanks, isBlank c = true) : trim (t ++ blanks) = t := by
  have left : trimLeft (t ++ blanks) = t ++ blanks := by
    apply trimLeft_of_head
    obtain ⟨c, rest, rfl⟩ := List.exists_cons_of_ne_nil content
    exact tight.start
  rw [trim, left]
  exact trimRight_append_blanks blank tight.stop

theorem trim_of_tight {t : Text} (tight : t.Tight) : trim t = t := by
  rw [trim, trimLeft_of_head tight.start, trimRight_of_last tight.stop]

theorem exists_trim (t : Text) :
    ∃ before after, t = before ++ t.trim ++ after ∧ ∀ c ∈ before ++ after, isBlank c = true := by
  refine ⟨t.takeWhile isBlank, (t.trimLeft.reverse.takeWhile isBlank).reverse, ?_, ?_⟩
  · have right : t.trimLeft = t.trim ++ (t.trimLeft.reverse.takeWhile isBlank).reverse := by
      rw [trim, trimRight, dropRightWhile, ← List.reverse_append, List.takeWhile_append_dropWhile, List.reverse_reverse]
    rw [List.append_assoc, ← right]
    exact List.takeWhile_append_dropWhile.symm
  · intro c member
    rcases List.mem_append.mp member with first | last
    · exact List.mem_takeWhile_imp first
    · exact List.mem_takeWhile_imp (List.mem_reverse.mp last)

theorem tight_of_forall {t : Text} (solid : ∀ c ∈ t, isBlank c = false) : t.Tight where
  start c h := solid c (List.mem_of_mem_head? h)
  stop c h := solid c (List.mem_of_mem_getLast? h)

theorem drop_length_takeWhile (p : Char → Bool) (t : Text) : t.drop (t.takeWhile p).length = t.dropWhile p := by
  calc t.drop (t.takeWhile p).length
      = (t.takeWhile p ++ t.dropWhile p).drop (t.takeWhile p).length := by rw [List.takeWhile_append_dropWhile]
    _ = t.dropWhile p := List.drop_left

/-- The last character of two texts one after the other is the last one of either. -/
theorem forall_getLast?_append {P : Char → Prop} {s t : Text} (hs : ∀ c ∈ s.getLast?, P c)
    (ht : ∀ c ∈ t.getLast?, P c) : ∀ c ∈ (s ++ t).getLast?, P c := by
  intro c h
  rw [List.getLast?_append, Option.mem_def, Option.or_eq_some_iff] at h
  rcases h with later | ⟨-, earlier⟩
  · exact ht c later
  · exact hs c earlier

theorem splitOn_ne_nil (p : Char → Bool) (t : Text) : splitOn p t ≠ [] := by
  cases t with
  | nil => simp [splitOn]
  | cons c t =>
    unfold splitOn
    split
    · simp
    · split <;> simp

theorem splitOn_of_forall {p : Char → Bool} {t : Text} (none : ∀ c ∈ t, p c = false) :
    splitOn p t = [t] := by
  induction t with
  | nil => rfl
  | cons c t ih =>
    rw [List.forall_mem_cons] at none
    simp [splitOn, none.1, ih none.2]

theorem lines_of_not_mem {t : Text} (one : '\n' ∉ t) : t.lines = [t] := by
  apply splitOn_of_forall
  intro c h
  simpa using ne_of_mem_of_not_mem h one

theorem afterStart?_eq_some {start t rest : Text} : afterStart? start t = some rest ↔ t = start ++ rest := by
  fun_induction afterStart? start t with
  | case1 t => simp [eq_comm]
  | case2 => simp
  | case3 start c t ih => simpa using ih
  | case4 a start b t different => simp [Ne.symm different]

theorem includes_cons (part t : Text) (c : Char) :
    includes (c :: t) part = (part.isPrefixOf (c :: t) || includes t part) := by
  unfold includes
  rw [indexOf?]
  split
  case isTrue here => simp [here]
  case isFalse here => simp [here]

theorem includes_iff_infix (part t : Text) : includes t part = true ↔ part <:+: t := by
  induction t with
  | nil => cases part <;> simp [includes, indexOf?]
  | cons c t ih => rw [includes_cons, Bool.or_eq_true, ih, List.isPrefixOf_iff_prefix, List.infix_cons_iff]

theorem indexOf?_append_of_not_mem {c : Char} {t rest : Text} (absent : c ∉ t) :
    indexOf? [c] (t ++ c :: rest) = some t.length := by
  induction t with
  | nil => simp [indexOf?]
  | cons d t ih =>
    rw [List.mem_cons, not_or] at absent
    simp [indexOf?, absent.1, ih absent.2]

theorem lastIndexOf?_of_length_lt {part t : Text} (short : t.length < part.length) : lastIndexOf? part t = none := by
  have noPrefix : ∀ t : Text, t.length < part.length → part.isPrefixOf t = false := by
    intro t short
    rw [Bool.eq_false_iff, Ne, List.isPrefixOf_iff_prefix]
    intro start
    exact absurd start.length_le (Nat.not_le_of_lt short)
  induction t with
  | nil =>
    cases part with
    | nil => cases short
    | cons c part => rfl
  | cons c t ih =>
    rw [lastIndexOf?, ih (Nat.lt_of_succ_lt short), noPrefix _ short]
    rfl

theorem lastIndexOf?_append {part : Text} (content : part ≠ []) (t : Text) :
    lastIndexOf? part (t ++ part) = some t.length := by
  induction t with
  | nil =>
    obtain ⟨c, rest, rfl⟩ := List.exists_cons_of_ne_nil content
    rw [List.nil_append, lastIndexOf?, lastIndexOf?_of_length_lt (Nat.lt_succ_self _)]
    simp
  | cons c t ih =>
    rw [List.cons_append, lastIndexOf?, ih]
    rfl

theorem join_cons_cons (separator a b : Text) (rest : List Text) :
    join separator (a :: b :: rest) = a ++ (separator ++ join separator (b :: rest)) := by
  simp [join, List.intercalate, List.intersperse]

theorem join_singleton (separator a : Text) : join separator [a] = a := by
  simp [join, List.intercalate]

theorem exists_join_cons (separator first : Text) (rest : List Text) :
    ∃ more, join separator (first :: rest) = first ++ more := by
  cases rest with
  | nil => exact ⟨[], by rw [join_singleton, List.append_nil]⟩
  | cons second rest => exact ⟨_, join_cons_cons separator first second rest⟩

theorem exists_join_concat (separator last : Text) (front : List Text) :
    ∃ before, join separator (front ++ [last]) = before ++ last := by
  induction front with
  | nil => exact ⟨[], join_singleton separator last⟩
  | cons first front ih =>
    obtain ⟨before, joined⟩ := ih
    obtain ⟨second, rest, whole⟩ := List.exists_cons_of_ne_nil (l := front ++ [last]) (by simp)
    rw [List.cons_append, whole, join_cons_cons, ← whole, joined]
    exact ⟨first ++ (separator ++ before), by simp⟩

/-- What holds of the parts, of the separator and of texts put together from such holds of the joined text. -/
theorem join_induction {P : Text → Prop} (empty : P []) (append : ∀ s t, P s → P t → P (s ++ t)) {separator : Text}
    (between : P separator) {parts : List Text} (each : ∀ part ∈ parts, P part) : P (join separator parts) := by
  induction parts with
  | nil => exact empty
  | cons first rest ih =>
    rw [List.forall_mem_cons] at each
    cases rest with
    | nil =>
      rw [join_singleton]
      exact each.1
    | cons second rest =>
      rw [join_cons_cons]
      exact append _ _ each.1 (append _ _ between (ih each.2))

theorem splitOn_eq_false {p : Char → Bool} {t part : Text} (member : part ∈ splitOn p t) : ∀ c ∈ part, p c = false := by
  induction t generalizing part with
  | nil =>
    obtain rfl := List.mem_singleton.mp member
    exact nofun
  | cons c t ih =>
    unfold splitOn at member
    split at member
    · rcases List.mem_cons.mp member with rfl | later
      · exact nofun
      · exact ih later
    · next other =>
      split at member
      · next none => exact absurd none (splitOn_ne_nil p t)
      · next first rest found =>
        rw [found] at ih
        rcases List.mem_cons.mp member with rfl | later
        · exact List.forall_mem_cons.mpr ⟨Bool.eq_false_iff.mpr other, ih List.mem_cons_self⟩
        · exact ih (List.mem_cons_of_mem _ later)

end Text

end Marginalia
