import Marginalia.Proofs.Border

/-!
# Reading no further than needed

A segment is put out as soon as its comment is closed. The reader looks some characters ahead, but never past a closed
comment: after any decision that could have seen more, there are still the two markers of a comment to come before the
next segment. So what has been put out for a text is put out for every text that starts with it, and the main block is
known as soon as the first comment is closed. Whoever wants the main block only can stop there.
-/

namespace Marginalia

namespace Scan

/-! ## How far the next segment is -/

/-- The segments that are put out while a text is read, before its end is seen. -/
def streamed (p : Profile) (source : Text) : List Segment := (through p [] (start p) source).2

theorem segments_eq_streamed (p : Profile) (source : Text) :
    segments p source = streamed p source ++ finish (through p [] (start p) source).1 :=
  run_eq_through p (start p) source

theorem finish_ne_nil (s : State) : finish s ≠ [] := by
  unfold finish
  split <;> simp

/-- The reader looks no further ahead than a documentation comment is long: no marker is longer than the two markers of
    such a comment together. -/
structure Brief (p : Profile) : Prop where
  opens : p.docCommentStart ≠ []
  closes : p.blockCommentEnd ≠ []
  short : ∀ marker ∈ p.markers, marker.length ≤ p.docCommentStart.length + p.blockCommentEnd.length

/-- The least number of characters that must be read before a segment is put out. -/
def State.distance (p : Profile) (s : State) : Nat :=
  match s.mode with
  | .docComment _ _ => s.skip + p.blockCommentEnd.length
  | _ => s.skip + (p.docCommentStart.length + p.blockCommentEnd.length)

section Distance

variable {p : Profile} {s : State}

theorem State.distance_le (p : Profile) (s : State) :
    s.distance p ≤ s.skip + (p.docCommentStart.length + p.blockCommentEnd.length) := by
  unfold distance
  split <;> omega

/-- Outside of documentation comments both markers of a comment are still to come. -/
theorem State.le_distance (noDoc : ∀ code text, s.mode ≠ .docComment code text) :
    p.docCommentStart.length + p.blockCommentEnd.length ≤ s.distance p := by
  unfold distance
  split
  · next code text mode => exact absurd mode (noDoc code text)
  · omega

/-- After a step in code the two markers are still to come, less the character that is read. -/
theorem le_distance_codeStep (p : Profile) (s : State) (c : Char) (here : Text) :
    p.docCommentStart.length + p.blockCommentEnd.length ≤ (codeStep p s c here).distance p + 1 := by
  rw [codeStep_eq_follow]
  cases branch p s.fresh c here with
  | docComment =>
    -- the marker that opens a comment is seen, and all of it but this character is to be skipped
    simp only [State.follow, State.past, State.distance]
    omega
  | _ =>
    apply Nat.le_succ_of_le
    apply State.le_distance
    simp [State.follow, State.past]

theorem le_distance_leave (p : Profile) (s : State) (marker : Text) (c : Char) (here : Text) :
    p.docCommentStart.length + p.blockCommentEnd.length ≤ (leave p s marker c here).distance p + 1 := by
  unfold leave
  by_cases empty : marker.isEmpty = true
  · rw [if_pos empty]
    exact le_distance_codeStep p _ c here
  · rw [if_neg empty]
    apply Nat.le_succ_of_le
    apply State.le_distance
    simp [State.past]

theorem distance_le_visit (still : s.skip = 0) (c : Char) (here : Text) :
    s.distance p ≤ (visit p s c here).1.distance p + 1 := by
  have bound : s.distance p ≤ p.docCommentStart.length + p.blockCommentEnd.length := by
    simpa [still] using s.distance_le p
  have elsewhere : ∀ next : State, (∀ code text, next.mode ≠ .docComment code text) →
      s.distance p ≤ next.distance p + 1 := by
    intro next noDoc
    exact Nat.le_succ_of_le (bound.trans (State.le_distance noDoc))
  have stays : s.distance p ≤ s.distance p + 1 := Nat.le_succ _
  unfold visit
  split
  · repeat' split
    · exact elsewhere _ (by simp [State.past])
    · exact elsewhere _ (by simp [State.past])
    · exact stays
  · exact bound.trans (le_distance_codeStep p s c here)
  · next quote mode =>
    repeat' split
    all_goals
      apply elsewhere
      simp [mode]
  · split
    · exact bound.trans (le_distance_leave p _ _ c here)
    · exact stays
  · split
    · exact bound.trans (le_distance_leave p _ _ c here)
    · exact stays
  · next code text mode =>
    split
    · exact bound.trans (le_distance_leave p _ _ c here)
    · simp [State.distance, mode]

/-- The next segment comes nearer by one character at most with each character that is read. -/
theorem distance_le_step (p : Profile) (s : State) (c : Char) (after : Text) :
    s.distance p ≤ (step p s c after).1.distance p + 1 := by
  unfold step
  cases skip : s.skip with
  | succ skip =>
    simp only [State.distance, skip]
    split <;> omega
  | zero => exact distance_le_visit skip c (c :: after)

theorem distance_of_step {c : Char} {after : Text} {segment : Segment} (put : (step p s c after).2 = some segment) :
    s.distance p ≤ (c :: after).length := by
  obtain ⟨skip, code, text, mode, ends, -⟩ := step_eq_some put
  simpa [State.distance, mode, skip] using (List.isPrefixOf_iff_prefix.mp ends).length_le

/-- A part of a source that is too short lets no segment out. -/
theorem distance_of_through {part : Text} (put : (through p [] s part).2 ≠ []) : s.distance p ≤ part.length := by
  induction part generalizing s with
  | nil => exact absurd rfl put
  | cons c part ih =>
    simp only [through, List.append_nil] at put
    cases here : (step p s c part).2 with
    | some segment => exact distance_of_step here
    | none =>
      have later := ih (by simpa [here] using put)
      have nearer := distance_le_step p s c part
      rw [List.length_cons]
      omega

end Distance

/-! ## What is seen before the next segment -/

section Ahead

variable {p : Profile}

theorem SameSight.of_length_le (brief : Brief p) {c : Char} {part : Text}
    (long : p.docCommentStart.length + p.blockCommentEnd.length ≤ (c :: part).length) (rest : Text) :
    SameSight p (c :: (part ++ rest)) (c :: part) where
  starts marker member := Text.startsWith_append_of_length_le ((brief.short marker member).trans long) rest
  opens fresh := by
    have closes := List.length_pos_iff.mpr brief.closes
    have longer : p.docCommentStart.length < (c :: part).length := by omega
    have content : (c :: part).drop p.docCommentStart.length ≠ [] := by
      rw [Ne, List.drop_eq_nil_iff]
      omega
    obtain ⟨d, more, next⟩ := List.exists_cons_of_ne_nil content
    unfold opensDoc
    rw [← List.cons_append, Text.startsWith_append_of_length_le longer.le, List.drop_append_of_le_length longer.le,
      next]
    rfl
  second := by
    have opens := List.length_pos_iff.mpr brief.opens
    have closes := List.length_pos_iff.mpr brief.closes
    cases part with
    | nil => simp only [List.length_singleton] at long; omega
    | cons d part => rfl

/-- As long as the next segment is in sight, the reader sees nothing of what follows. -/
theorem step_append (brief : Brief p) {s : State} {c : Char} {part : Text} (near : s.distance p ≤ (c :: part).length)
    (rest : Text) : step p s c (part ++ rest) = step p s c part := by
  by_cases doc : ∃ code text, s.mode = .docComment code text
  · obtain ⟨code, text, mode⟩ := doc
    have ends : Text.startsWith (c :: (part ++ rest)) p.blockCommentEnd
        = Text.startsWith (c :: part) p.blockCommentEnd := by
      apply Text.startsWith_append_of_length_le (t := c :: part)
      simp only [State.distance, mode] at near
      omega
    have leaves : leave p s p.blockCommentEnd c (c :: (part ++ rest)) = leave p s p.blockCommentEnd c (c :: part) := by
      unfold leave
      rw [if_neg (by simpa using brief.closes), if_neg (by simpa using brief.closes)]
    unfold step visit
    simp only [mode, ends, leaves]
  · have far := State.le_distance (p := p) (s := s) fun code text mode => doc ⟨code, text, mode⟩
    exact step_of_sameSight (.of_length_le brief (far.trans near) rest) s

/-- What is put out for a part is put out for it whatever follows. -/
theorem prefix_through (brief : Brief p) (s : State) (part rest : Text) :
    (through p [] s part).2 <+: (through p rest s part).2 := by
  induction part generalizing s with
  | nil => exact List.prefix_rfl
  | cons c part ih =>
    by_cases quiet : (through p [] s (c :: part)).2 = []
    · rw [quiet]
      exact List.nil_prefix
    · have same := step_append brief (distance_of_through quiet) rest
      simp only [through, List.append_nil, same]
      exact (List.prefix_append_right_inj _).mpr (ih _)

theorem prefix_streamed (brief : Brief p) (source more : Text) : streamed p source <+: streamed p (source ++ more) := by
  have both : streamed p (source ++ more) = (through p more (start p) source).2
      ++ (through p [] (through p more (start p) source).1 more).2 := by
    have first : through p (more ++ []) (start p) source
        = ((through p more (start p) source).1, (through p more (start p) source).2) := by
      rw [List.append_nil]
    exact congrArg Prod.snd (through_append first rfl)
  rw [both]
  exact (prefix_through brief (start p) source more).trans (List.prefix_append _ _)

end Ahead

end Scan

/-! ## The main block -/

namespace Collected

theorem addCode_main (p : Profile) (c : Collected) (code : Text) : (c.addCode p code).main = c.main := by
  unfold addCode
  split
  · split <;> rfl
  · rfl

/-- Once there is a main block, it stays. -/
theorem addSegments_main {p : Profile} {summaryOnly : Bool} {c : Collected} {block : Block} (main : c.main = some block)
    (segs : List Segment) : (addSegments p summaryOnly c segs).main = some block := by
  induction segs generalizing c with
  | nil => exact main
  | cons segment rest ih =>
    have kept : (c.addCode p segment.code).main = some block := (addCode_main p c segment.code).trans main
    unfold addSegments
    cases segment.doc with
    | none => exact kept
    | some raw =>
      simp only [kept, Option.isNone_some, Bool.false_and, Bool.false_eq_true, if_false]
      exact ih rfl

/-- Who stops at the main block has the same main block as who reads on. -/
theorem addSegments_summaryOnly (p : Profile) (c : Collected) (segs : List Segment) :
    (addSegments p true c segs).main = (addSegments p false c segs).main := by
  induction segs generalizing c with
  | nil => rfl
  | cons segment rest ih =>
    unfold addSegments
    cases segment.doc with
    | none => rfl
    | some raw =>
      by_cases first :
          ((c.addCode p segment.code).main.isNone && (c.addCode p segment.code).declarations.isEmpty) = true
      · simp only [first, if_true, Bool.false_eq_true, if_false]
        exact (addSegments_main rfl rest).symm
      · simp only [first, Bool.false_eq_true, if_false]
        exact ih _

theorem ofSource_summaryOnly (p : Profile) (source : Text) :
    (ofSource p true source).main = (ofSource p false source).main :=
  addSegments_summaryOnly p {} (segments p source)

end Collected

namespace Streaming

open Scan

/-- Reading no further than the main block gives the main block of the whole source, and nothing else: no declarations,
    no problems and no selection. It succeeds wherever a full reading does, and whatever is asked for. -/
theorem main_summaryOnly {p : Profile} {settings : Value} {filename source lookup : Text} {d : Document}
    (given : Document.ofSource p settings filename source { lookup } = .ok d) (name : Text) :
    ∃ e, Document.ofSource p settings filename source { summaryOnly := true, lookup := name } = .ok e
      ∧ e.main = d.main ∧ e.declarations = [] ∧ e.index = Dict.empty ∧ e.problems = [] ∧ e.selected = none := by
  unfold Document.ofSource at given ⊢
  rw [Document.ofCollected_eq] at given
  obtain ⟨debug, traced, given⟩ := Fallible.bind_eq_ok.mp given
  obtain ⟨rules, -, given⟩ := Fallible.bind_eq_ok.mp given
  obtain ⟨problems, -, given⟩ := Fallible.bind_eq_ok.mp given
  obtain rfl := Except.ok.inj given
  rw [Document.ofCollected_summaryOnly, traced]
  refine ⟨_, rfl, ?_, rfl, rfl, rfl, rfl⟩
  rw [Document.lookingFor_main, Collected.ofSource_summaryOnly]
  rfl

/-- A function stands before the only comment, so there is no main block, however far the source is read. -/
theorem main_summaryOnly_late :
    let source : Text := "<?php function f() ; /** G. */ function g() ;"
    ∃ d e, Document.ofSource .php Settings.defaults "a.php" source { lookup := "G" } = .ok d
      ∧ Document.ofSource .php Settings.defaults "a.php" source { summaryOnly := true, lookup := "G" } = .ok e
      ∧ d.main = {} ∧ d.declarations.length = 2 ∧ e.main = {} ∧ e.declarations = [] ∧ e.selected = none := by
  intro source
  have groups : ∀ pattern ∈ Profile.php.paramPattern, pattern.groups ≤ 1 := by
    rintro pattern ⟨⟩
    decide
  have auditable : Settings.Auditable Settings.defaults := ⟨_, rfl⟩
  obtain ⟨d, given, itsMain, itsDeclarations⟩ := Document.exists_ofCollected groups auditable "a.php" "G"
    (Collected.ofSource .php false source)
  have empty : d.main = {} := itsMain.trans (by decide +kernel)
  have two : d.declarations.length = 2 := by
    rw [itsDeclarations]
    decide +kernel
  obtain ⟨e, givenToo, same, undeclared, -, -, unselected⟩ := main_summaryOnly given "G"
  exact ⟨d, e, given, givenToo, empty, two, same.trans empty, undeclared, unselected⟩

/-- The main block is settled by the first segment, if a comment ends it. -/
theorem main_cons (p : Profile) (code raw : Text) (rest : List Segment) :
    Pairing.main p (⟨code, some raw⟩ :: rest) = if Pairing.Silent p code then Block.read p raw else {} := by
  simp [Pairing.main, Pairing.hasMain, Pairing.blocks, Segment.docs]

theorem map_main_summaryOnly (p : Profile) (settings : Value) (filename source lookup : Text) :
    (Document.ofSource p settings filename source { summaryOnly := true, lookup }).map Document.main
      = (Settings.debug (settings.orElse (.object []))).map fun _ => Pairing.main p (segments p source) := by
  have main : (Collected.ofSource p true source).main.getD {} = Pairing.main p (segments p source) := by
    rw [Collected.ofSource_summaryOnly]
    exact (Pairing.collected_eq (closed_segments p source)).1
  rw [Document.ofSource, Document.ofCollected_summaryOnly, ← main]
  cases Settings.debug (settings.orElse (.object [])) <;> rfl

theorem main_of_streamed {p : Profile} {source other : Text} (closed : streamed p source ≠ [])
    (starts : streamed p source <+: streamed p other) :
    Pairing.main p (segments p other) = Pairing.main p (segments p source) := by
  obtain ⟨⟨code, doc⟩, more, first⟩ := List.exists_cons_of_ne_nil closed
  obtain ⟨later, firstToo⟩ := starts
  rw [first] at firstToo
  have whole := segments_eq_streamed p source
  have wholeToo := segments_eq_streamed p other
  rw [first] at whole
  rw [← firstToo] at wholeToo
  have documented : ∃ raw, doc = some raw := by
    have ended := closed_segments p source
    rw [whole, List.cons_append] at ended
    generalize tail : more ++ finish (through p [] (start p) source).1 = rest at ended
    cases ended with
    | last => exact absurd (List.append_eq_nil_iff.mp tail).2 (finish_ne_nil _)
    | cons _ raw _ => exact ⟨raw, rfl⟩
  obtain ⟨raw, rfl⟩ := documented
  rw [whole, wholeToo]
  simp only [List.cons_append, main_cons]

theorem php_brief : Brief .php := ⟨by decide, by decide, by decide⟩

/-- What has been put out for a source is put out for every source that starts with it; only what is put out at the end
    can change. So the main block does not depend on what follows the first closed comment. -/
theorem streamed_append {p : Profile} (builtIn : Settings.phpProfile = .ok p) (source more : Text) :
    segments p source = streamed p source ++ finish (through p [] (start p) source).1
    ∧ streamed p source <+: streamed p (source ++ more)
    ∧ streamed p source <+: segments p (source ++ more)
    ∧ (streamed p source ≠ [] → ∀ settings filename lookup,
        (Document.ofSource p settings filename (source ++ more) { summaryOnly := true, lookup }).map Document.main
          = (Document.ofSource p settings filename source { summaryOnly := true, lookup }).map Document.main) := by
  obtain rfl : Profile.php = p := Except.ok.inj (Settings.phpProfile_eq.symm.trans builtIn)
  have starts := prefix_streamed php_brief source more
  refine ⟨segments_eq_streamed .php source, starts, ?_, ?_⟩
  · rw [segments_eq_streamed .php (source ++ more)]
    exact starts.trans (List.prefix_append _ _)
  · intro closed settings filename lookup
    rw [map_main_summaryOnly, map_main_summaryOnly, main_of_streamed closed starts]

/-- The marker at the end opens a comment unless more follows it. The segment before it stays. -/
theorem streamed_append_open :
    let source : Text := "<?php /** M. */ /**"
    let more : Text := "x */ function f() ;"
    streamed .php source = [⟨[], some " M. "⟩]
    ∧ segments .php source = [⟨[], some " M. "⟩, ⟨[], some []⟩, ⟨[], none⟩]
    ∧ segments .php (source ++ more) = [⟨[], some " M. "⟩, ⟨"function f()\n", none⟩]
    ∧ streamed .php source <+: segments .php (source ++ more)
    ∧ (Document.ofSource .php Settings.defaults "a.php" (source ++ more) { summaryOnly := true }).map Document.main
      = (Document.ofSource .php Settings.defaults "a.php" source { summaryOnly := true }).map Document.main := by
  intro source more
  have put : streamed .php source = [⟨[], some " M. "⟩] := by decide +kernel
  obtain ⟨-, -, starts, main⟩ := streamed_append Settings.phpProfile_eq source more
  refine ⟨put, by decide +kernel, by decide +kernel, starts, main ?_ Settings.defaults "a.php" []⟩
  rw [put]
  exact List.cons_ne_nil _ _

end Streaming

end Marginalia
