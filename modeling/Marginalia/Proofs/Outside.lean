import Marginalia.Proofs.Border

/-!
# Text outside of the code

Before the first marker of code, and after each marker that ends code, the reader looks for nothing but the next marker
that starts code. Up to there it changes nothing but what it remembers of the character before, and the marker itself
makes it forget that. So whatever stands between two parts of code is never seen.
-/

namespace Marginalia.Scan

/-! ## The end of the code -/

/-- Up to a character that ends one marker and is in no other one, the reader does not see what follows. -/
theorem through_of_last {p : Profile} {q : Char} {front : Text}
    (last : ∀ marker ∈ p.markers, marker = front ++ [q] ∨ q ∉ marker) (noDoc : q ∉ p.docCommentStart) (s : State)
    (part x y : Text) : through p (front ++ q :: x) s part = through p (front ++ q :: y) s part := by
  induction part generalizing s with
  | nil => rfl
  | cons c part ih =>
    have sight : SameSight p (c :: (part ++ (front ++ q :: x))) (c :: (part ++ (front ++ q :: y))) := by
      rw [← List.append_assoc, ← List.append_assoc]
      refine ⟨?_, fun fresh => opensDoc_append_cons noDoc fresh (c :: (part ++ front)) x y, by cases part ++ front <;> rfl⟩
      intro marker member
      rcases last marker member with rfl | absent
      · -- the marker is not longer than the text up to its last character
        have whole : ∀ t : Text, Text.startsWith (c :: (part ++ front ++ q :: t)) (front ++ [q])
            = Text.startsWith (c :: (part ++ front ++ [q])) (front ++ [q]) := by
          intro t
          have split : c :: (part ++ front ++ q :: t) = c :: (part ++ front ++ [q]) ++ t := by simp
          rw [split]
          apply Text.startsWith_append_of_length_le
          simp only [List.length_append, List.length_cons, List.length_nil]
          omega
        rw [whole x, whole y]
      · exact Text.startsWith_append_cons absent (c :: (part ++ front)) x y
    simp only [through, step_of_sameSight sight, ih]

theorem through_codeEnd (rest : Text) (fresh : Bool) (skeleton : Skeleton) :
    through .php rest ⟨.code, 0, fresh, skeleton⟩ "?>" = (⟨.outside, 0, false, skeleton.newline⟩, []) := by
  have closing : isBlank '>' = false := rfl
  simp [through, step, visit, codeStep, stands, State.past, Text.startsWith, closing]

/-- The reader is outside of the code after it has read a part: the part is empty, or the reader was in code up to the
    marker that ends code, and this marker ends the part. -/
def LeavesCode (p : Profile) (part : Text) : Prop :=
  part = [] ∨ ∃ code, part = code ++ p.codeEnd ∧ InCode p code p.codeEnd

/-- What is read up to the end of the code does not depend on what follows. -/
theorem LeavesCode.exists_through {part : Text} (leaves : LeavesCode .php part) :
    ∃ fresh skeleton earlier, ∀ rest,
      through .php rest (start .php) part = (⟨.outside, 0, fresh, skeleton⟩, earlier) := by
  rcases leaves with rfl | ⟨code, rfl, inCode⟩
  · exact ⟨true, [], [], fun _ => rfl⟩
  · have last : ∀ marker ∈ Profile.php.markers, marker = ['?'] ++ ['>'] ∨ '>' ∉ marker := by decide
    have noDoc : '>' ∉ Profile.php.docCommentStart := by decide
    obtain ⟨fresh, skeleton, earlier, reached⟩ := inCode.exists_through
    refine ⟨false, skeleton.newline, earlier ++ [], fun rest => ?_⟩
    apply through_append _ (through_codeEnd rest fresh skeleton)
    rw [← reached]
    exact through_of_last last noDoc (start .php) code rest []

/-! ## Outside -/

/-- Where the marker that starts code does not stand, the reader stays outside. -/
theorem through_outside {p : Profile} {rest part : Text}
    (unopened : ∀ here, here ≠ [] → here <:+ part → Text.startsWith (here ++ rest) p.codeStart = false) (fresh : Bool)
    (skeleton : Skeleton) :
    ∃ fresh', through p rest ⟨.outside, 0, fresh, skeleton⟩ part = (⟨.outside, 0, fresh', skeleton⟩, []) := by
  induction part generalizing fresh with
  | nil => exact ⟨fresh, rfl⟩
  | cons c part ih =>
    have here : Text.startsWith (c :: (part ++ rest)) p.codeStart = false :=
      unopened (c :: part) (List.cons_ne_nil c part) List.suffix_rfl
    have stays : step p ⟨.outside, 0, fresh, skeleton⟩ c (part ++ rest)
        = (⟨.outside, 0, isBlank c, skeleton⟩, none) := by
      simp [step, visit, here]
    obtain ⟨fresh', later⟩ := ih (fun t content suffix => unopened t content (suffix.trans (List.suffix_cons c part)))
      (isBlank c)
    refine ⟨fresh', ?_⟩
    rw [through, stays]
    simp only [later]
    rfl

/-- Outside it does not matter whether the character before was a blank. -/
theorem run_outside_fresh (p : Profile) (fresh fresh' : Bool) (skeleton : Skeleton) (t : Text) :
    run p ⟨.outside, 0, fresh, skeleton⟩ t = run p ⟨.outside, 0, fresh', skeleton⟩ t := by
  cases t with
  | nil => rfl
  | cons c after =>
    have same : step p ⟨.outside, 0, fresh, skeleton⟩ c after = step p ⟨.outside, 0, fresh', skeleton⟩ c after := by
      simp only [step, visit]
      repeat' split
      all_goals rfl
    rw [run, run, same]

/-- A text without the marker that starts code does not complete one with what follows, either. -/
theorem unopened_of_includes {part rest : Text} (absent : part.includes "<?" = false)
    (reopens : rest = [] ∨ ∃ more, rest = "<?" ++ more) (here : Text) (content : here ≠ []) (suffix : here <:+ part) :
    Text.startsWith (here ++ rest) Profile.php.codeStart = false := by
  by_contra starts
  rw [Bool.not_eq_false] at starts
  obtain ⟨c, t, rfl⟩ := List.exists_cons_of_ne_nil content
  cases t with
  | nil =>
    -- only the first character of the marker can be in the part, and no marker starts with the second one
    rcases reopens with rfl | ⟨more, rfl⟩
    · simp [Text.startsWith] at starts
    · simp [Text.startsWith] at starts
  | cons d t =>
    have found : "<?".toList <+: c :: d :: t := by
      rw [Text.startsWith, List.isPrefixOf_iff_prefix] at starts
      exact List.prefix_of_prefix_length_le starts (List.prefix_append _ _) (by simp)
    have inside : "<?".toList <:+: part := found.isInfix.trans suffix.isInfix
    rw [← Text.includes_iff_infix, absent] at inside
    cases inside

/-- The segments of a source whose middle part is outside of the code. -/
theorem exists_segments_outside {before : Text} (leaves : LeavesCode .php before) {after : Text}
    (reopens : after = [] ∨ ∃ more, after = "<?" ++ more) :
    ∃ skeleton earlier, ∀ part : Text, part.includes "<?" = false →
      segments .php (before ++ (part ++ after)) = earlier ++ run .php ⟨.outside, 0, true, skeleton⟩ after := by
  obtain ⟨fresh, skeleton, earlier, reached⟩ := leaves.exists_through
  refine ⟨skeleton, earlier, fun part absent => ?_⟩
  obtain ⟨fresh', passed⟩ := through_outside (unopened_of_includes absent reopens) fresh skeleton
  calc segments .php (before ++ (part ++ after))
      = earlier ++ run .php ⟨.outside, 0, fresh, skeleton⟩ (part ++ after) := run_of_through (reached _)
    _ = earlier ++ run .php ⟨.outside, 0, fresh', skeleton⟩ after := by
        rw [run_of_through passed, List.nil_append]
    _ = earlier ++ run .php ⟨.outside, 0, true, skeleton⟩ after := by
        rw [run_outside_fresh .php fresh' true]

/-- Text outside of the code has no influence: whatever stands between two parts of code, before the first one or after
    the last one, the segments are the same. -/
theorem segments_outside {p : Profile} (builtIn : Settings.phpProfile = .ok p) {before : Text}
    (leaves : LeavesCode p before) {part other : Text} (absent : part.includes "<?" = false)
    (absentToo : other.includes "<?" = false) {after : Text} (reopens : after = [] ∨ ∃ more, after = "<?" ++ more) :
    segments p (before ++ (part ++ after)) = segments p (before ++ (other ++ after)) := by
  obtain rfl : Profile.php = p := Except.ok.inj (Settings.phpProfile_eq.symm.trans builtIn)
  obtain ⟨skeleton, earlier, outside⟩ := exists_segments_outside leaves reopens
  rw [outside part absent, outside other absentToo]

/-- A comment, a quotation mark and a declaration outside of the code, with half a marker right before a whole one. -/
theorem segments_outside_half :
    let before : Text := "<?php class A ; '?>' ?>"
    let part : Text := " /** X. */ \" function x() ; ?><"
    let after : Text := "<?/** A. */ /** B. */ function b() ;"
    segments .php (before ++ (part ++ after)) = segments .php (before ++ ([] ++ after))
    ∧ segments .php (before ++ ([] ++ after))
      = [⟨"class A\n'?>'\n", some " B. "⟩, ⟨"function b()\n", none⟩] := by
  intro before part after
  have leaves : LeavesCode .php before := .inr ⟨"<?php class A ; '?>' ", by decide, by decide +kernel⟩
  refine ⟨segments_outside Settings.phpProfile_eq leaves (by decide) (by decide) (.inr ⟨_, rfl⟩), by decide +kernel⟩

end Marginalia.Scan
