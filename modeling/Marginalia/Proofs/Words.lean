import Marginalia.Proofs.Lines

/-!
# The words of texts

A blank ends a word, so the words of two texts with a blank between them are those of both, and blanks around a text
do not count. The words of a text are its first word and the words of what follows it.
-/

namespace Marginalia.Text

@[simp] theorem words_nil : words [] = [] := rfl

theorem words_append_cons {c : Char} (blank : isBlank c = true) (s t : Text) :
    words (s ++ c :: t) = words s ++ words t := by
  rw [words, splitOn_append_cons blank, List.filter_append]
  rfl

theorem words_cons {c : Char} (blank : isBlank c = true) (t : Text) : words (c :: t) = words t :=
  words_append_cons blank [] t

theorem words_append_of_blank {before : Text} (blank : ∀ c ∈ before, isBlank c = true) (t : Text) :
    words (before ++ t) = words t := by
  induction before with
  | nil => rfl
  | cons c before ih =>
    rw [List.forall_mem_cons] at blank
    rw [List.cons_append, words_cons blank.1, ih blank.2]

theorem words_append_blanks {after : Text} (blank : ∀ c ∈ after, isBlank c = true) (t : Text) :
    words (t ++ after) = words t := by
  cases after with
  | nil => rw [List.append_nil]
  | cons c after =>
    rw [List.forall_mem_cons] at blank
    have none := words_append_of_blank blank.2 []
    rw [List.append_nil] at none
    rw [words_append_cons blank.1, none]
    exact List.append_nil _

theorem words_trim (t : Text) : t.trim.words = t.words := by
  obtain ⟨before, after, whole, blank⟩ := exists_trim t
  rw [List.forall_mem_append] at blank
  conv_rhs => rw [whole, words_append_blanks blank.2, words_append_of_blank blank.1]

theorem words_trimLeft (t : Text) : t.trimLeft.words = t.words := by
  have blank : ∀ c ∈ t.takeWhile isBlank, isBlank c = true := fun c member => List.mem_takeWhile_imp member
  rw [← words_append_of_blank blank t.trimLeft]
  exact congrArg words List.takeWhile_append_dropWhile

/-- A word before the end of a text or before a blank is the first one. -/
theorem words_append_of_solid {w : Text} (solid : ∀ c ∈ w, isBlank c = false) (content : w ≠ []) {rest : Text}
    (ends : ∀ c ∈ rest.head?, isBlank c = true) : words (w ++ rest) = w :: words rest := by
  have alone : words w = [w] := by
    rw [words, splitOn_of_forall solid, List.filter_cons_of_pos (by simpa using content), List.filter_nil]
  cases rest with
  | nil => rw [List.append_nil, alone, words_nil]
  | cons c rest =>
    have blank : isBlank c = true := ends c rfl
    rw [words_append_cons blank, alone, words_cons blank]
    rfl

/-- The words of a text that starts with no blank, if it has any. -/
theorem words_eq_cons {t : Text} (start : ∀ c ∈ t.head?, isBlank c = false) (content : t ≠ []) :
    words t = t.takeWhile (!isBlank ·) :: words (t.dropWhile (!isBlank ·)) := by
  have solid : ∀ c ∈ t.takeWhile (!isBlank ·), isBlank c = false := by
    intro c member
    simpa using List.mem_takeWhile_imp member
  have ends : ∀ c ∈ (t.dropWhile (!isBlank ·)).head?, isBlank c = true := by
    intro c found
    have first := List.head?_dropWhile_not (!isBlank ·) t
    rw [Option.mem_def.mp found] at first
    simpa using first
  have given : t.takeWhile (!isBlank ·) ≠ [] := by
    obtain ⟨c, rest, rfl⟩ := List.exists_cons_of_ne_nil content
    simp [start c rfl]
  rw [← words_append_of_solid solid given ends, List.takeWhile_append_dropWhile]

end Marginalia.Text
