import Marginalia.Proofs.Literals

/-!
# The border between two parts of a source

A part of a source is read with the rest in sight. A marker that reaches over the border is skipped to its end, so a
reader that stands in code right after the part has followed no such marker. It reads the part in the same way before
every rest that starts with a character that no marker holds.
-/

namespace Marginalia

namespace Text

theorem startsWith_append_of_length_le {marker t : Text} (short : marker.length ≤ t.length) (rest : Text) :
    startsWith (t ++ rest) marker = startsWith t marker := by
  rw [Bool.eq_iff_iff, startsWith, startsWith, List.isPrefixOf_iff_prefix, List.isPrefixOf_iff_prefix]
  constructor
  · intro starts
    exact List.prefix_of_prefix_length_le starts (List.prefix_append t rest) short
  · intro starts
    exact starts.trans (List.prefix_append t rest)

theorem startsWith_of_length_lt {x : Char} {marker t : Text} (absent : x ∉ marker) (long : t.length < marker.length)
    (rest : Text) : startsWith (t ++ x :: rest) marker = false := by
  by_contra starts
  rw [Bool.not_eq_false] at starts
  have whole := congrArg List.length (drop_of_startsWith absent starts)
  simp only [List.length_drop, List.length_append, List.length_cons] at whole
  omega

/-- A marker that stands before one rest but not before the other reaches over the border. -/
theorem startsWith_border {x : Char} {marker : Text} (absent : x ∉ marker) (t rest other : Text) :
    startsWith (t ++ x :: other) marker = startsWith (t ++ rest) marker
      ∨ startsWith (t ++ rest) marker = true ∧ t.length < marker.length := by
  by_cases short : marker.length ≤ t.length
  · left
    rw [startsWith_append_of_length_le short, startsWith_append_of_length_le short]
  · rw [Nat.not_le] at short
    rw [startsWith_of_length_lt absent short]
    cases startsWith (t ++ rest) marker with
    | false => exact .inl rfl
    | true => exact .inr ⟨rfl, short⟩

end Text

namespace Scan

/-- The reader is in code and has no marker to skip. -/
def State.Stands (s : State) : Prop := s.mode = .code ∧ s.skip = 0

/-- Comments have end markers, and the longer form of the marker that starts code is no shorter than the other one. -/
structure Regular (p : Profile) : Prop where
  full : p.codeStart.length ≤ p.codeStartFull.length
  lineEnds : p.lineCommentEnd ≠ []
  blockEnds : p.blockCommentEnd ≠ []

theorem php_regular : Regular .php := ⟨by decide, by decide, by decide⟩

theorem skip_through (p : Profile) (rest : Text) {s : State} {part : Text} (long : part.length ≤ s.skip) :
    (through p rest s part).1.skip = s.skip - part.length := by
  induction part generalizing s with
  | nil => rfl
  | cons c part ih =>
    rw [List.length_cons] at long ⊢
    obtain ⟨skip, more⟩ : ∃ skip, s.skip = skip + 1 := ⟨s.skip - 1, by omega⟩
    have skipped : step p s c (part ++ rest) = ({ s with skip, fresh := isBlank c }, none) := by
      simp only [step, more]
    rw [through, skipped]
    have later := ih (s := { s with skip, fresh := isBlank c }) (by simp only; omega)
    simp only at later ⊢
    rw [later]
    omega

/-- Whoever stands after a part has skipped nothing beyond it. -/
theorem skip_le_of_stands {p : Profile} {rest : Text} {s : State} {part : Text}
    (stands : (through p rest s part).1.Stands) : s.skip ≤ part.length := by
  by_contra long
  have left := skip_through p rest (Nat.le_of_not_le long)
  rw [stands.2] at left
  omega

section Border

variable {p : Profile} {x y c : Char} {part v w : Text}

theorem stands_border {marker : Text} (absent : x ∉ marker) (t rest other : Text) :
    stands marker (t ++ x :: other) = stands marker (t ++ rest)
      ∨ stands marker (t ++ rest) = true ∧ t.length < marker.length := by
  unfold stands
  rcases Text.startsWith_border absent t rest other with same | ⟨crosses, long⟩
  · exact .inl (by rw [same])
  · have content : marker.isEmpty = false := by
      cases marker with
      | nil => cases long
      | cons m marker => rfl
    exact .inr ⟨by simp [content, crosses], long⟩

/-- Whether a documentation comment is opened depends on the rest only where its marker reaches the border. -/
theorem opensDoc_border (absent : x ∉ p.docCommentStart) (fresh : Bool) {t : Text}
    (alike : isBlank x = isBlank y ∨ t ≠ p.docCommentStart) :
    opensDoc p fresh (t ++ x :: w) = opensDoc p fresh (t ++ y :: v)
      ∨ opensDoc p fresh (t ++ y :: v) = true ∧ t.length < p.docCommentStart.length := by
  by_cases short : p.docCommentStart.length ≤ t.length
  · left
    unfold opensDoc
    rw [Text.startsWith_append_of_length_le short, Text.startsWith_append_of_length_le short,
      List.drop_append_of_le_length short, List.drop_append_of_le_length short]
    cases after : t.drop p.docCommentStart.length with
    | cons d more => rfl
    | nil =>
      cases here : Text.startsWith t p.docCommentStart with
      | false => simp
      | true =>
        have all : p.docCommentStart = t := by
          apply (List.isPrefixOf_iff_prefix.mp here).eq_of_length_le
          exact List.drop_eq_nil_iff.mp after
        have same : isBlank x = isBlank y := alike.resolve_right (absurd all.symm)
        simp only [List.nil_append, same]
  · rw [Nat.not_le] at short
    cases opened : opensDoc p fresh (t ++ y :: v) with
    | true => exact .inr ⟨rfl, short⟩
    | false =>
      left
      unfold opensDoc
      rw [Text.startsWith_of_length_lt absent short]
      simp

/-- The same branch is taken if the guards agree, or if the branch that is left out reaches over the border. -/
theorem ite_border {α : Type} (skip : α → Nat) {n : Nat} {guard guard' : Bool} {taken other other' : α}
    (agree : guard' = guard ∨ guard = true ∧ n < skip taken)
    (inside : skip (if guard = true then taken else other) ≤ n) (otherwise : skip other ≤ n → other' = other) :
    (if guard' = true then taken else other') = if guard = true then taken else other := by
  cases guard with
  | true =>
    rcases agree with rfl | ⟨-, crosses⟩
    · rfl
    · exact absurd inside (Nat.not_le.mpr crosses)
  | false =>
    rcases agree with rfl | ⟨⟨⟩, -⟩
    exact otherwise inside

theorem lt_skip_past {n : Nat} {marker : Text} (long : n + 1 < marker.length) (s : State) (mode : Mode) :
    n < (s.past mode marker).skip := by
  show n < marker.length - 1
  omega

theorem past_border {n : Nat} {marker : Text} {guard guard' : Bool}
    (border : guard' = guard ∨ guard = true ∧ n + 1 < marker.length) (s : State) (mode : Mode) :
    guard' = guard ∨ guard = true ∧ n < (s.past mode marker).skip :=
  border.imp_right (And.imp_right fun long => lt_skip_past long s mode)

theorem codeStep_border (absent : ∀ marker ∈ p.markers, x ∉ marker) {s : State}
    (alike : isBlank x = isBlank y ∨ c :: part ≠ p.docCommentStart)
    (inside : (codeStep p s c (c :: (part ++ y :: v))).skip ≤ part.length) :
    codeStep p s c (c :: (part ++ x :: w)) = codeStep p s c (c :: (part ++ y :: v)) := by
  have border : ∀ marker ∈ p.markers, stands marker (c :: (part ++ x :: w)) = stands marker (c :: (part ++ y :: v))
      ∨ stands marker (c :: (part ++ y :: v)) = true ∧ part.length + 1 < marker.length := by
    intro marker member
    exact stands_border (absent marker member) (c :: part) (y :: v) w
  have doc : opensDoc p s.fresh (c :: (part ++ x :: w)) = opensDoc p s.fresh (c :: (part ++ y :: v))
      ∨ opensDoc p s.fresh (c :: (part ++ y :: v)) = true ∧ part.length + 1 < p.docCommentStart.length :=
    opensDoc_border (absent _ (by simp [Profile.markers])) s.fresh alike
  simp only [Profile.markers, List.forall_mem_cons] at border
  obtain ⟨-, -, codeEnd, line, -, block, -, -, -⟩ := border
  unfold codeStep at inside ⊢
  refine ite_border State.skip ?_ inside fun inside => ?_
  · rcases codeEnd with same | ⟨crosses, long⟩
    · exact .inl (by rw [same])
    · cases p.codeStart.isEmpty with
      | true => exact .inl rfl
      | false => exact .inr ⟨by simp [crosses], lt_skip_past long _ _⟩
  refine ite_border State.skip (.inl rfl) inside fun inside => ?_
  refine ite_border State.skip (past_border line _ _) inside fun inside => ?_
  refine ite_border State.skip (past_border doc _ _) inside fun inside => ?_
  exact ite_border State.skip (past_border block _ _) inside fun _ => rfl

theorem visit_border (regular : Regular p) (absent : ∀ marker ∈ p.markers, x ∉ marker) {s : State}
    (alike : s.mode = .code → isBlank x = isBlank y ∨ c :: part ≠ p.docCommentStart)
    (inside : (visit p s c (c :: (part ++ y :: v))).1.skip ≤ part.length) :
    visit p s c (c :: (part ++ x :: w)) = visit p s c (c :: (part ++ y :: v)) := by
  have border : ∀ marker ∈ p.markers,
      Text.startsWith (c :: (part ++ x :: w)) marker = Text.startsWith (c :: (part ++ y :: v)) marker
      ∨ Text.startsWith (c :: (part ++ y :: v)) marker = true ∧ part.length + 1 < marker.length := by
    intro marker member
    exact Text.startsWith_border (absent marker member) (c :: part) (y :: v) w
  simp only [Profile.markers, List.forall_mem_cons] at border
  obtain ⟨codeStart, -, -, -, lineEnd, -, blockEnd, -, -⟩ := border
  have leaves : ∀ (t : State) (marker here : Text), marker ≠ [] → leave p t marker c here = t.past .code marker := by
    intro t marker here content
    rw [leave, if_neg (by simpa using content)]
  let skip (result : State × Option Segment) : Nat := result.1.skip
  unfold visit at inside ⊢
  cases mode : s.mode with
  | outside =>
    simp only [mode] at inside ⊢
    have full := stands_border (absent p.codeStartFull (by simp [Profile.markers])) (c :: part) (y :: v) w
    rw [List.cons_append, List.cons_append, List.length_cons] at full
    refine ite_border skip ?_ inside fun inside => ?_
    · rcases codeStart with same | ⟨crosses, long⟩
      · rcases full with sameFull | ⟨crossesFull, longFull⟩
        · exact .inl (by rw [same, sameFull])
        · cases starts : Text.startsWith (c :: (part ++ y :: v)) p.codeStart with
          | true => exact .inr ⟨by simp [crossesFull], lt_skip_past longFull _ _⟩
          | false => exact .inl (by simp [same, starts])
      · -- the longer form is no shorter than the other one, so it reaches over the border as well
        cases starts : stands p.codeStartFull (c :: (part ++ y :: v)) with
        | true => exact .inr ⟨by simp [crosses], lt_skip_past (long.trans_le regular.full) _ _⟩
        | false => exact .inl (by simp [starts] at full; simp [full])
    · exact ite_border skip (past_border codeStart _ _) inside fun _ => rfl
  | code =>
    simp only [mode] at inside ⊢
    rw [codeStep_border absent (alike mode) inside]
  | string quote =>
    simp only [mode] at inside ⊢
    by_cases escape : p.escape = [c]
    · rw [if_pos escape] at inside ⊢
      rw [if_pos escape]
      cases part with
      | nil => cases inside
      | cons d part => rfl
    · rw [if_neg escape, if_neg escape]
  | lineComment =>
    simp only [mode, leaves _ _ _ regular.lineEnds] at inside ⊢
    exact ite_border skip (past_border lineEnd _ _) inside fun _ => rfl
  | blockComment =>
    simp only [mode, leaves _ _ _ regular.blockEnds] at inside ⊢
    exact ite_border skip (past_border blockEnd _ _) inside fun _ => rfl
  | docComment before text =>
    simp only [mode, leaves _ _ _ regular.blockEnds] at inside ⊢
    exact ite_border skip (past_border blockEnd _ _) inside fun _ => rfl

/-- A part after which the reader stands in code is read in the same way before a rest that starts with a character
    that no marker holds. A blank can make a comment of a marker that ends the part, so where the two rests differ in
    this, the marker must not lead to code. -/
theorem through_border (regular : Regular p) (absent : ∀ marker ∈ p.markers, x ∉ marker)
    (alike : isBlank x = isBlank y
      ∨ ∀ fresh skeleton, ¬(through p (y :: v) ⟨.code, 0, fresh, skeleton⟩ p.docCommentStart).1.Stands)
    {s : State} (stands : (through p (y :: v) s part).1.Stands) :
    through p (x :: w) s part = through p (y :: v) s part := by
  induction part generalizing s with
  | nil => rfl
  | cons c part ih =>
    have stepped : step p s c (part ++ x :: w) = step p s c (part ++ y :: v) := by
      have inside : (step p s c (part ++ y :: v)).1.skip ≤ part.length := by
        simp only [through] at stands
        exact skip_le_of_stands stands
      unfold step at inside ⊢
      cases skip : s.skip with
      | succ skip => rfl
      | zero =>
        simp only [skip] at inside ⊢
        rw [visit_border regular absent ?_ inside]
        intro code
        refine alike.imp_right fun leads all => ?_
        obtain ⟨mode, skip', fresh, skeleton⟩ := s
        obtain rfl : mode = .code := code
        obtain rfl : skip' = 0 := skip
        rw [all] at stands
        exact leads fresh skeleton stands
    simp only [through] at stands ⊢
    rw [stepped, ih stands]

end Border

end Scan

end Marginalia
