import Marginalia.Proofs.Pairing

/-!
# String literals

A string is copied into the skeleton as it is. The reader sees no more of a string than its opening quote before it
gets there, and once a string is closed, what follows is read in the same way whatever stands in the string. So two
sources that differ in a string only have the same segments up to the code around the string. Code is then cut into
lines, and a line feed in a string cuts it like any other: the declarations of the two sources are the same if and only
if the same is declared on the lines that start inside of the strings.
-/

namespace Marginalia

/-- The markers that the reader looks for. -/
def Profile.markers (p : Profile) : List Text :=
  [p.codeStart, p.codeStartFull, p.codeEnd, p.lineComment, p.lineCommentEnd, p.blockCommentStart, p.blockCommentEnd,
    p.docCommentStart]

/-- The segment with more code before its own. -/
def Segment.after (code : Text) (segment : Segment) : Segment := { segment with code := code ++ segment.code }

namespace Text

/-- Nothing is seen past a character that no marker holds. -/
theorem startsWith_append_cons {q : Char} {marker : Text} (absent : q ∉ marker) (t x y : Text) :
    startsWith (t ++ q :: x) marker = startsWith (t ++ q :: y) marker := by
  unfold startsWith
  induction marker generalizing t with
  | nil => rfl
  | cons m marker ih =>
    rw [List.mem_cons, not_or] at absent
    cases t with
    | nil => simp [List.isPrefixOf, beq_eq_false_iff_ne.mpr (Ne.symm absent.1)]
    | cons c t => simp [List.isPrefixOf, ih absent.2 t]

theorem drop_of_startsWith {q : Char} {marker : Text} (absent : q ∉ marker) {t x : Text}
    (starts : startsWith (t ++ q :: x) marker = true) :
    (t ++ q :: x).drop marker.length = t.drop marker.length ++ q :: x := by
  unfold startsWith at starts
  obtain ⟨rest, whole⟩ := List.isPrefixOf_iff_prefix.mp starts
  have short : marker.length ≤ t.length := by
    by_contra long
    obtain ⟨more, rfl, -⟩ | ⟨more, rfl, rest⟩ := List.append_eq_append_iff.mp whole
    · simp at long
    · cases more with
      | nil => simp at long
      | cons c more =>
        obtain rfl : q = c := (List.cons.inj rest).1
        simp at absent
  rw [List.drop_append_of_le_length short]

end Text

namespace Scan

/-! ## What the reader sees -/

/-- Two texts that the reader cannot tell apart at their first character. -/
structure SameSight (p : Profile) (a b : Text) : Prop where
  starts : ∀ marker ∈ p.markers, a.startsWith marker = b.startsWith marker
  opens : ∀ fresh, opensDoc p fresh a = opensDoc p fresh b
  second : a[1]? = b[1]?

/-- Whether a documentation comment is opened does not depend on what follows a character that its marker lacks. -/
theorem opensDoc_append_cons {p : Profile} {q : Char} (noDoc : q ∉ p.docCommentStart) (fresh : Bool) (t x y : Text) :
    opensDoc p fresh (t ++ q :: x) = opensDoc p fresh (t ++ q :: y) := by
  have starts := Text.startsWith_append_cons noDoc t x y
  unfold opensDoc
  rw [← starts]
  cases here : Text.startsWith (t ++ q :: x) p.docCommentStart with
  | false => simp
  | true =>
    have left := Text.drop_of_startsWith noDoc here
    have right := Text.drop_of_startsWith noDoc (starts.symm.trans here)
    rw [left, right]
    cases t.drop p.docCommentStart.length <;> rfl

theorem SameSight.of_not_mem {p : Profile} {q : Char} (absent : ∀ marker ∈ p.markers, q ∉ marker) (c : Char)
    (part x y : Text) : SameSight p (c :: (part ++ q :: x)) (c :: (part ++ q :: y)) where
  starts marker member := Text.startsWith_append_cons (absent marker member) (c :: part) x y
  opens fresh := opensDoc_append_cons (absent _ (by simp [Profile.markers])) fresh (c :: part) x y
  second := by cases part <;> rfl

theorem step_of_sameSight {p : Profile} {c : Char} {a b : Text} (same : SameSight p (c :: a) (c :: b)) (s : State) :
    step p s c a = step p s c b := by
  obtain ⟨starts, opens, second⟩ := same
  simp only [Profile.markers, List.forall_mem_cons] at starts
  obtain ⟨codeStart, codeStartFull, codeEnd, lineComment, lineEnd, blockStart, blockEnd, -, -⟩ := starts
  have code : ∀ s, codeStep p s c (c :: a) = codeStep p s c (c :: b) := by
    intro s
    unfold codeStep stands
    rw [codeEnd, lineComment, blockStart, opens]
  have leaves : ∀ s marker, leave p s marker c (c :: a) = leave p s marker c (c :: b) := by
    intro s marker
    rw [leave, leave, code]
  have visits : visit p s c (c :: a) = visit p s c (c :: b) := by
    unfold visit
    cases s.mode with
    | outside =>
      unfold stands
      rw [codeStart, codeStartFull]
    | code => exact congrArg (·, none) (code s)
    | string quote => cases a <;> cases b <;> simp_all
    | lineComment =>
      dsimp only
      rw [lineEnd, leaves]
    | blockComment =>
      dsimp only
      rw [blockEnd, leaves]
    | docComment before text =>
      dsimp only
      rw [blockEnd, leaves]
  unfold step
  rw [visits]

/-- Up to a character that no marker holds the reader does not see what follows that character. -/
theorem through_of_not_mem {p : Profile} {q : Char} (absent : ∀ marker ∈ p.markers, q ∉ marker) (s : State)
    (part x y : Text) : through p (q :: x) s part = through p (q :: y) s part := by
  induction part generalizing s with
  | nil => rfl
  | cons c part ih =>
    simp only [through, step_of_sameSight (SameSight.of_not_mem absent c part x y), ih]

/-! ## Code that is behind -/

end Scan

namespace Skeleton

/-- A function on skeletons that reaches no deeper than a piece and keeps that piece. -/
def Shallow (piece : Piece) (f : Skeleton → Skeleton) : Prop :=
  ∀ top, ∃ top', ∀ below, f (top ++ piece :: below) = top' ++ piece :: below

variable {piece : Piece}

theorem shallow_cons (other : Piece) : Shallow piece (other :: ·) := fun top => ⟨other :: top, fun _ => rfl⟩

theorem Shallow.comp {f g : Skeleton → Skeleton} (hf : Shallow piece f) (hg : Shallow piece g) :
    Shallow piece fun s => f (g s) := by
  intro top
  obtain ⟨middle, first⟩ := hg top
  obtain ⟨last, second⟩ := hf middle
  exact ⟨last, fun below => (congrArg f (first below)).trans (second below)⟩

theorem shallow_trim (solid : isBlank piece.last = false) : Shallow piece trim := by
  intro top
  induction top with
  | nil =>
    refine ⟨[], fun below => ?_⟩
    rw [List.nil_append, trim.eq_2]
    rintro rest ⟨⟩
    exact absurd solid (by decide)
  | cons other top ih =>
    by_cases space : other = .one ' '
    · obtain ⟨top', same⟩ := ih
      exact ⟨top', fun below => by rw [space, List.cons_append, trim, same]⟩
    · refine ⟨other :: top, fun below => ?_⟩
      rw [List.cons_append, trim.eq_2]
      rintro rest ⟨⟩
      exact space rfl

theorem shallow_softSpace : Shallow piece softSpace := by
  intro top
  cases top with
  | nil =>
    by_cases blank : isBlank piece.last = true
    · exact ⟨[], fun below => by simp [softSpace, blank]⟩
    · exact ⟨[.one ' '], fun below => by simp [softSpace, blank]⟩
  | cons other top =>
    by_cases blank : isBlank other.last = true
    · exact ⟨other :: top, fun below => by simp [softSpace, blank]⟩
    · exact ⟨.one ' ' :: other :: top, fun below => by simp [softSpace, blank]⟩

theorem shallow_newline (solid : isBlank piece.last = false) : Shallow piece newline :=
  (shallow_cons (.one '\n')).comp (shallow_trim solid)

theorem shallow_codeChar (solid : isBlank piece.last = false) (p : Profile) (c : Char) :
    Shallow piece (Scan.codeChar p · c) := by
  unfold Scan.codeChar
  by_cases ret : c = '\r'
  · simp only [ret, if_true]
    exact fun top => ⟨top, fun _ => rfl⟩
  · simp only [ret, if_false]
    by_cases separator : p.statementSeparators.contains [c] = true
    · simp only [separator, if_true]
      exact shallow_newline solid
    · simp only [separator, Bool.false_eq_true, if_false]
      by_cases blank : isBlank c = true
      · simp only [blank, if_true]
        exact shallow_softSpace
      · simp only [blank, Bool.false_eq_true, if_false]
        by_cases noSpace : p.noSpaceBefore.contains [c] = true
        · simp only [noSpace, if_true]
          exact (shallow_cons _).comp (shallow_trim solid)
        · simp only [noSpace, Bool.false_eq_true, if_false]
          exact shallow_cons _

end Skeleton

namespace Scan

/-- The state with more code below its skeleton. In a documentation comment the code before the comment is no longer in
    the skeleton. -/
def State.over (below : Skeleton) (s : State) : State :=
  match s.mode with
  | .docComment code text => { s with mode := .docComment (below.text ++ code) text }
  | _ => { s with skeleton := s.skeleton ++ below }

/-- The code since the last comment, or before the one that is read, starts with a piece. -/
def State.RestsOn (piece : Piece) (s : State) : Prop :=
  match s.mode with
  | .docComment code _ => piece.text <+: code
  | _ => ∃ top, s.skeleton = top ++ [piece]

section Over

variable {p : Profile} {piece : Piece}

/-- A state after a function on the skeleton that reaches no deeper than the piece. -/
theorem exists_over {f : Skeleton → Skeleton} (shallow : Skeleton.Shallow piece f) {mode : Mode}
    (noDoc : ∀ code text, mode ≠ .docComment code text) (skip : Nat) (fresh : Bool) (top : Skeleton) :
    ∃ next : State, next.RestsOn piece ∧
      ∀ below, (⟨mode, skip, fresh, f (top ++ piece :: below)⟩ : State) = next.over below := by
  obtain ⟨top', same⟩ := shallow top
  refine ⟨⟨mode, skip, fresh, top' ++ [piece]⟩, ?_, fun below => ?_⟩
  · cases mode with
    | docComment code text => exact absurd rfl (noDoc code text)
    | _ => exact ⟨top', rfl⟩
  · rw [same]
    cases mode with
    | docComment code text => exact absurd rfl (noDoc code text)
    | _ => simp [State.over]

theorem codeStep_over (solid : isBlank piece.last = false) (c : Char) (here : Text) (mode : Mode) (skip : Nat)
    (fresh : Bool) {f : Skeleton → Skeleton} (shallow : Skeleton.Shallow piece f) (top : Skeleton) :
    ∃ next : State, next.RestsOn piece ∧
      ∀ below, codeStep p ⟨mode, skip, fresh, f (top ++ piece :: below)⟩ c here = next.over below := by
  simp only [codeStep_eq_follow]
  cases branch p fresh c here with
  | codeEnd => exact exists_over ((Skeleton.shallow_newline solid).comp shallow) (by simp) _ _ top
  | quote => exact exists_over ((Skeleton.shallow_cons _).comp shallow) (by simp) _ _ top
  | lineComment => exact exists_over shallow (by simp) _ _ top
  | docComment =>
    obtain ⟨top', same⟩ := shallow top
    refine ⟨⟨.docComment (Skeleton.text (top' ++ [piece])) [], p.docCommentStart.length - 1, fresh, []⟩, ?_, ?_⟩
    · exact ⟨top'.text, by simp [Skeleton.text]⟩
    · intro below
      rw [same]
      simp [State.follow, State.past, State.over, Skeleton.text]
  | blockComment => exact exists_over shallow (by simp) _ _ top
  | plain => exact exists_over ((Skeleton.shallow_codeChar solid p c).comp shallow) (by simp) _ _ top

/-- What becomes of the code below a piece in one step: it stays below, or it goes out with a segment. -/
inductive Carries (piece : Piece) (result : Skeleton → State × Option Segment) : Prop where
  | below (next : State) (rests : next.RestsOn piece) (same : ∀ below, result below = (next.over below, none))
  | out (next : State) (segment : Segment) (starts : piece.text <+: segment.code)
    (same : ∀ below, result below = (next, some (segment.after below.text)))

theorem Carries.of_exists {result : Skeleton → State}
    (found : ∃ next : State, next.RestsOn piece ∧ ∀ below, result below = next.over below) :
    Carries piece fun below => (result below, none) := by
  obtain ⟨next, rests, same⟩ := found
  exact .below next rests fun below => congrArg (·, none) (same below)

theorem leave_over (solid : isBlank piece.last = false) (marker : Text) (c : Char) (here : Text) (mode : Mode)
    (skip : Nat) (fresh : Bool) {f : Skeleton → Skeleton} (shallow : Skeleton.Shallow piece f) (top : Skeleton) :
    ∃ next : State, next.RestsOn piece ∧
      ∀ below, leave p ⟨mode, skip, fresh, f (top ++ piece :: below)⟩ marker c here = next.over below := by
  unfold leave State.past
  by_cases empty : marker.isEmpty = true
  · simp only [empty, if_true]
    exact codeStep_over solid c here _ _ _ shallow top
  · simp only [empty, Bool.false_eq_true, if_false]
    exact exists_over shallow (by simp) _ _ top

theorem over_of_skeleton {mode : Mode} (noDoc : ∀ code text, mode ≠ .docComment code text) (skip : Nat) (fresh : Bool)
    (top below : Skeleton) :
    (⟨mode, skip, fresh, top ++ [piece]⟩ : State).over below = ⟨mode, skip, fresh, top ++ piece :: below⟩ := by
  cases mode with
  | docComment code text => exact absurd rfl (noDoc code text)
  | _ => simp [State.over]

theorem visit_over (solid : isBlank piece.last = false) (c : Char) (here : Text) {s : State} (rests : s.RestsOn piece) :
    Carries piece fun below => visit p (s.over below) c here := by
  have same : Skeleton.Shallow piece id := fun top => ⟨top, fun _ => rfl⟩
  obtain ⟨mode, skip, fresh, skeleton⟩ := s
  cases mode with
  | docComment code text =>
    unfold visit State.over
    dsimp only
    by_cases ends : Text.startsWith here p.blockCommentEnd = true
    · simp only [ends, if_true]
      exact .out (leave p ⟨.code, skip, fresh, skeleton⟩ p.blockCommentEnd c here) ⟨code, some text.reverse⟩ rests
        fun below => rfl
    · simp only [ends, Bool.false_eq_true, if_false]
      exact .below ⟨.docComment code (c :: text), skip, fresh, skeleton⟩ rests fun below => rfl
  | outside =>
    obtain ⟨top, rfl⟩ := rests
    simp only [over_of_skeleton, ne_eq, reduceCtorEq, not_false_eq_true, implies_true, visit, State.past]
    by_cases full : (stands p.codeStartFull here && Text.startsWith here p.codeStart) = true
    · simp only [full, if_true]
      exact .of_exists (exists_over same (by simp) _ _ top)
    · simp only [full, Bool.false_eq_true, if_false]
      by_cases starts : Text.startsWith here p.codeStart = true
      · simp only [starts, if_true]
        exact .of_exists (exists_over same (by simp) _ _ top)
      · simp only [starts, Bool.false_eq_true, if_false]
        exact .of_exists (exists_over same (by simp) _ _ top)
  | code =>
    obtain ⟨top, rfl⟩ := rests
    simp only [over_of_skeleton, ne_eq, reduceCtorEq, not_false_eq_true, implies_true, visit]
    exact .of_exists (codeStep_over solid c here _ _ _ same top)
  | string quote =>
    obtain ⟨top, rfl⟩ := rests
    simp only [over_of_skeleton, ne_eq, reduceCtorEq, not_false_eq_true, implies_true, visit]
    by_cases escape : p.escape = [c]
    · simp only [escape, if_true]
      split
      · exact .of_exists (exists_over (Skeleton.shallow_cons _) (by simp) _ _ top)
      · exact .of_exists (exists_over (Skeleton.shallow_cons _) (by simp) _ _ top)
    · simp only [escape, if_false]
      exact .of_exists (exists_over (Skeleton.shallow_cons _) (by split <;> simp) _ _ top)
  | lineComment =>
    obtain ⟨top, rfl⟩ := rests
    simp only [over_of_skeleton, ne_eq, reduceCtorEq, not_false_eq_true, implies_true, visit]
    by_cases ends : Text.startsWith here p.lineCommentEnd = true
    · simp only [ends, if_true]
      exact .of_exists (leave_over solid _ c here _ _ _ Skeleton.shallow_softSpace top)
    · simp only [ends, Bool.false_eq_true, if_false]
      exact .of_exists (exists_over same (by simp) _ _ top)
  | blockComment =>
    obtain ⟨top, rfl⟩ := rests
    simp only [over_of_skeleton, ne_eq, reduceCtorEq, not_false_eq_true, implies_true, visit]
    by_cases ends : Text.startsWith here p.blockCommentEnd = true
    · simp only [ends, if_true]
      exact .of_exists (leave_over solid _ c here _ _ _ Skeleton.shallow_softSpace top)
    · simp only [ends, Bool.false_eq_true, if_false]
      exact .of_exists (exists_over same (by simp) _ _ top)

theorem over_place (s : State) (skip : Nat) (fresh : Bool) (below : Skeleton) :
    { s.over below with skip, fresh } = { s with skip, fresh }.over below := by
  obtain ⟨mode, _, _, _⟩ := s
  cases mode <;> rfl

theorem step_over (solid : isBlank piece.last = false) (c : Char) (after : Text) {s : State} (rests : s.RestsOn piece) :
    Carries piece fun below => step p (s.over below) c after := by
  have skips : ∀ below, (s.over below).skip = s.skip := by
    intro below
    unfold State.over
    split <;> rfl
  unfold step
  simp only [skips]
  cases s.skip with
  | succ skip =>
    exact .below { s with skip, fresh := isBlank c } rests fun below => congrArg (·, none) (over_place s _ _ below)
  | zero =>
    cases visit_over (p := p) solid c (c :: after) rests with
    | below next rests same =>
      simp only [same]
      refine .below { next with fresh := isBlank c } rests fun below => ?_
      rw [← over_place next next.skip]
      obtain ⟨mode, _, _, _⟩ := next
      cases mode <;> rfl
    | out next segment starts same =>
      simp only [same]
      exact .out _ segment starts fun _ => rfl

/-- The code below a solid piece shows in the code of the next segment only. -/
theorem run_over (solid : isBlank piece.last = false) (t : Text) {s : State} (rests : s.RestsOn piece) :
    ∃ (segment : Segment) (later : List Segment), piece.text <+: segment.code ∧
      ∀ below, run p (s.over below) t = segment.after below.text :: later := by
  induction t generalizing s with
  | nil =>
    obtain ⟨mode, skip, fresh, skeleton⟩ := s
    cases mode with
    | docComment code text => exact ⟨⟨code, some text.reverse⟩, [⟨skeleton.text, none⟩], rests, fun _ => rfl⟩
    | _ =>
      obtain ⟨top, rfl⟩ := rests
      refine ⟨⟨Skeleton.text (top ++ [piece]), none⟩, [], ⟨top.text, by simp [Skeleton.text]⟩, fun below => ?_⟩
      simp [run, finish, State.over, Segment.after, Skeleton.text]
  | cons c after ih =>
    cases step_over (p := p) solid c after rests with
    | below next rests same =>
      simp only [run, same]
      exact ih rests
    | out next segment starts same =>
      simp only [run, same]
      exact ⟨segment, run p next after, starts, fun _ => rfl⟩

end Over

/-! ## Through a string -/

section Literal

variable {p : Profile} {q : Char} {body : Text}

theorem stands_of_not_mem {marker : Text} (absent : q ∉ marker) (t : Text) : stands marker (q :: t) = false := by
  unfold stands Text.startsWith
  cases marker with
  | nil => rfl
  | cons m marker =>
    have other : (m == q) = false := beq_eq_false_iff_ne.mpr fun same => absent (by simp [same])
    simp [List.isPrefixOf, other]

/-- A text that a string between two quotes can hold without escapes. -/
structure Bare (p : Profile) (q : Char) (body : Text) : Prop where
  unescaped : ∀ c ∈ q :: body, p.escape ≠ [c]
  unquoted : q ∉ body

theorem through_body (bare : Bare p q body) (fresh : Bool) (skeleton : Skeleton) (rest : Text) :
    through p rest ⟨.string q, 0, fresh, skeleton⟩ (body ++ [q])
      = (⟨.code, 0, isBlank q, .one q :: (body.reverse.map .one ++ skeleton)⟩, []) := by
  obtain ⟨unescaped, unquoted⟩ := bare
  induction body generalizing fresh skeleton with
  | nil =>
    have plain : p.escape ≠ [q] := unescaped q (by simp)
    simp [through, step, visit, plain]
  | cons c body ih =>
    simp only [List.forall_mem_cons] at unescaped
    rw [List.mem_cons, not_or] at unquoted
    have stepped : step p ⟨.string q, 0, fresh, skeleton⟩ c (body ++ [q] ++ rest)
        = (⟨.string q, 0, isBlank c, .one c :: skeleton⟩, none) := by
      simp [step, visit, unescaped.2.1, Ne.symm unquoted.1]
    rw [List.cons_append, through, stepped]
    simp [ih _ _ (by simpa using ⟨unescaped.1, unescaped.2.2⟩) unquoted.2]

theorem step_quote (quote : [q] ∈ p.quotes) (absent : ∀ marker ∈ p.markers, q ∉ marker) (fresh : Bool)
    (skeleton : Skeleton) (after : Text) :
    step p ⟨.code, 0, fresh, skeleton⟩ q after = (⟨.string q, 0, isBlank q, .one q :: skeleton⟩, none) := by
  have noEnd := stands_of_not_mem (absent p.codeEnd (by simp [Profile.markers])) after
  simp only [step, visit, codeStep, noEnd, Bool.and_false, Bool.false_eq_true, if_false]
  rw [if_pos (List.contains_iff_mem.mpr quote)]

/-- A string goes to the skeleton as it is, and the reader is back in code after it. -/
theorem through_literal (quote : [q] ∈ p.quotes) (absent : ∀ marker ∈ p.markers, q ∉ marker) (bare : Bare p q body)
    (fresh : Bool) (skeleton : Skeleton) (rest : Text) :
    through p rest ⟨.code, 0, fresh, skeleton⟩ (q :: (body ++ [q]))
      = (⟨.code, 0, isBlank q, .one q :: (body.reverse.map .one ++ .one q :: skeleton)⟩, []) := by
  rw [through, step_quote quote absent]
  simp [through_body bare]

/-- The reader is in code after it has read a part that `rest` follows. -/
def InCode (p : Profile) (part rest : Text) : Prop :=
  (through p rest (start p) part).1.mode = .code ∧ (through p rest (start p) part).1.skip = 0

instance (p : Profile) (part rest : Text) : Decidable (InCode p part rest) := inferInstanceAs (Decidable (_ ∧ _))

theorem InCode.exists_through {part rest : Text} (inCode : InCode p part rest) :
    ∃ fresh skeleton earlier, through p rest (start p) part = (⟨.code, 0, fresh, skeleton⟩, earlier) := by
  rcases reached : through p rest (start p) part with ⟨⟨mode, skip, fresh, skeleton⟩, earlier⟩
  simp only [InCode, reached] at inCode
  obtain ⟨rfl, rfl⟩ := inCode
  exact ⟨fresh, skeleton, earlier, rfl⟩

/-- All that a string does to the segments of a source is to stand in one of them as it is. -/
theorem segments_literal (quote : [q] ∈ p.quotes) (absent : ∀ marker ∈ p.markers, q ∉ marker)
    (solid : isBlank q = false) {before after : Text} (inCode : InCode p before (q :: (body ++ q :: after))) :
    ∃ (earlier : List Segment) (above : Text) (segment : Segment) (later : List Segment),
      [q] <+: segment.code ∧ ∀ other, Bare p q other →
      segments p (before ++ q :: (other ++ q :: after))
        = earlier ++ segment.after (above ++ q :: other) :: later := by
  have last : isBlank (Piece.one q).last = false := solid
  have rests : State.RestsOn (.one q) ⟨.code, 0, false, [.one q]⟩ := ⟨[], rfl⟩
  obtain ⟨segment, later, starts, runs⟩ := run_over (p := p) last after rests
  obtain ⟨fresh, skeleton, earlier, reached⟩ := inCode.exists_through
  refine ⟨earlier, skeleton.text, segment, later, starts, fun other bare => ?_⟩
  rw [through_of_not_mem absent _ _ _ (other ++ q :: after)] at reached
  have split : q :: (other ++ q :: after) = q :: (other ++ [q]) ++ after := by simp
  have literal := run_of_through (through_literal quote absent bare fresh skeleton after)
  have text : Skeleton.text (other.reverse.map .one ++ .one q :: skeleton) = skeleton.text ++ q :: other := by
    simp [Skeleton.text, Piece.text, List.flatMap_map]
  calc segments p (before ++ q :: (other ++ q :: after))
      = earlier ++ run p ⟨.code, 0, fresh, skeleton⟩ (q :: (other ++ q :: after)) := run_of_through reached
    _ = earlier ++ run p ((⟨.code, 0, false, [.one q]⟩ : State).over (other.reverse.map .one ++ .one q :: skeleton))
          after := by rw [split, literal, solid]; rfl
    _ = _ := by rw [runs, text]

end Literal

end Scan

/-! ## Lines around a string -/

namespace Text

theorem afterStart?_append_cons {q : Char} {start : Text} (absent : q ∉ start) (t r : Text) :
    afterStart? start (t ++ q :: r) = (afterStart? start t).map (· ++ q :: r) := by
  induction start generalizing t with
  | nil => rfl
  | cons a start ih =>
    rw [List.mem_cons, not_or] at absent
    cases t with
    | nil => simp [afterStart?, Ne.symm absent.1]
    | cons c t => by_cases same : a = c <;> simp [afterStart?, same, ih absent.2]

end Text

namespace Signature

/-- The kind and the keyword of the declaration on a line. -/
def heading? (p : Profile) (line : Text) : Option (Kind × Text) :=
  (ofLine? p line).map fun signature => (signature.kind, signature.keyword)

/-- The kinds and keywords on the lines of code. -/
def headings (p : Profile) (code : Text) : List (Kind × Text) := code.lines.filterMap (heading? p)

/-- The kinds and keywords on the lines of code that start in it. -/
def laterHeadings (p : Profile) (code : Text) : List (Kind × Text) := code.lines.tail.filterMap (heading? p)

theorem isSome_afterKeyword? {q : Char} (solid : isBlank q = false) {keyword : Text} (absent : q ∉ keyword)
    (t : Text) {r : Text} (one : '\n' ∉ r) :
    (afterKeyword? keyword (t ++ q :: r)).isSome = (afterKeyword? keyword (t ++ [q])).isSome := by
  have noFeed : q ≠ '\n' := by
    rintro rfl
    cases solid
  unfold afterKeyword?
  rw [Text.afterStart?_append_cons absent, Text.afterStart?_append_cons absent]
  cases Text.afterStart? keyword t with
  | none => rfl
  | some rest =>
    cases rest with
    | nil => simp [solid]
    | cons c rest =>
      simp only [Option.map_some, List.cons_append, Text.trimLeft_append_cons solid]
      by_cases blank : isBlank c = true
      · by_cases cut : '\n' ∈ Text.trimLeft rest <;> simp [blank, cut, one, Ne.symm noFeed]
      · simp [blank]

/-- The kind and the keyword of what is found on a line. -/
def heading (found : Text × Kind × Text) : Kind × Text := (found.2.1, found.1)

/-- Which keyword is taken depends only on which ones stand there. -/
theorem keywordOf?_of_isSome {entries : List (Text × Kind)} {a b : Text}
    (same : ∀ entry ∈ entries, (afterKeyword? entry.1 a).isSome = (afterKeyword? entry.1 b).isSome) :
    (keywordOf? entries a).map heading = (keywordOf? entries b).map heading := by
  rw [keywordOf?_eq, keywordOf?_eq]
  refine List.foldl_rel (r := fun best other : Option (Text × Kind × Text) => best.map heading = other.map heading) rfl
    fun entry member best other alike => ?_
  have both := same entry member
  unfold longer
  cases first : afterKeyword? entry.1 a <;> cases second : afterKeyword? entry.1 b
  · exact alike
  · simp [first, second] at both
  · simp [first, second] at both
  · rcases best with _ | ⟨longest, kind, rest⟩ <;> rcases other with _ | ⟨longest', kind', rest'⟩
    · rfl
    · cases alike
    · cases alike
    · simp only [heading, Option.map_some, Option.some.injEq, Prod.mk.injEq] at alike
      obtain ⟨rfl, rfl⟩ := alike
      dsimp only
      split <;> rfl

theorem heading?_eq (p : Profile) (line : Text) :
    heading? p line = (keywordOf? p.declarations.entries line.trim).map heading := by
  unfold heading? ofLine?
  cases keywordOf? p.declarations.entries line.trim <;> rfl

section Cut

variable {p : Profile} {q : Char}

/-- Whether a line declares something is settled before the first solid character that no keyword holds. -/
theorem heading?_append_cons (solid : isBlank q = false) (absent : ∀ entry ∈ p.declarations.entries, q ∉ entry.1)
    (t : Text) {r : Text} (one : '\n' ∉ r) : heading? p (t ++ q :: r) = heading? p (t ++ [q]) := by
  rw [heading?_eq, heading?_eq, Text.trim_append_cons solid, Text.trim_append_cons solid]
  apply keywordOf?_of_isSome
  intro entry member
  have stillOne : '\n' ∉ r.trimRight := by
    intro member
    have kept := List.dropWhile_suffix isBlank (l := r.reverse)
    exact one (by simpa using kept.subset (by simpa [Text.trimRight, Text.dropRightWhile] using member))
  exact isSome_afterKeyword? solid (absent entry member) _ stillOne

/-- Code after a string is declared on the lines that start after the quote. -/
theorem headings_append_cons (solid : isBlank q = false) (absent : ∀ entry ∈ p.declarations.entries, q ∉ entry.1)
    (t r : Text) : headings p (t ++ q :: r) = headings p (t ++ [q]) ++ laterHeadings p r := by
  have noFeed : (q == '\n') = false := by
    rw [beq_eq_false_iff_ne]
    rintro rfl
    cases solid
  obtain ⟨front, last, before⟩ := Text.exists_splitOn_concat (· == '\n') t
  obtain ⟨first, rest, after⟩ := List.exists_cons_of_ne_nil (Text.splitOn_ne_nil (· == '\n') r)
  have quoted : Text.splitOn (· == '\n') (q :: r) = (q :: first) :: rest := by
    simp [Text.splitOn, noFeed, after]
  have alone : Text.splitOn (· == '\n') [q] = [[q]] := by
    simp [Text.splitOn, noFeed]
  have one : '\n' ∉ first := Text.not_mem_of_mem_lines (t := r) (by simp [Text.lines, after])
  unfold headings laterHeadings Text.lines
  rw [Text.splitOn_append before quoted, Text.splitOn_append before alone, after, List.filterMap_append,
    List.filterMap_append, List.filterMap_cons, List.filterMap_cons, heading?_append_cons solid absent last one]
  cases heading? p (last ++ [q]) <;> simp

/-- What a string declares stands on the lines that start in it, whatever is around it. -/
theorem headings_literal (solid : isBlank q = false) (absent : ∀ entry ∈ p.declarations.entries, q ∉ entry.1)
    (above body below : Text) :
    headings p (above ++ q :: (body ++ q :: below))
      = headings p (above ++ [q]) ++ (laterHeadings p (body ++ [q]) ++ laterHeadings p below) := by
  have outer := headings_append_cons solid absent (above ++ q :: body) below
  have inner := headings_append_cons solid absent above (body ++ [q])
  simp only [List.append_assoc, List.cons_append] at outer inner
  rw [outer, inner, List.append_assoc]

end Cut

end Signature

/-- The kinds and keywords of the declarations of a document. -/
def Document.outline (d : Document) : List (Kind × Text) :=
  d.declarations.map fun declaration => (declaration.kind, declaration.signature.keyword)

namespace Literals

open Scan Signature

theorem outline_eq {p : Profile} {source : Text} {d : Document}
    (made : d.declarations = (Collected.ofSource p false source).declarations) :
    d.outline = (segments p source).flatMap (headings p ·.code) := by
  obtain ⟨-, declarations, -⟩ := Pairing.collected_eq (p := p) (closed_segments p source)
  have signatures : d.declarations.map Declaration.signature
      = ((segments p source).map Segment.code).flatMap (onLines p) := by
    rw [made, Collected.ofSource, declarations, Pairing.signatures_codes (closed_segments p source)]
  have named : ∀ code, (onLines p code).map (fun signature => (signature.kind, signature.keyword)) = headings p code :=
    fun code => List.map_filterMap
  calc d.outline
      = (d.declarations.map Declaration.signature).map fun signature => (signature.kind, signature.keyword) := by
        rw [List.map_map]
        rfl
    _ = _ := by rw [signatures, List.map_flatMap, List.flatMap_map]; simp only [named]

theorem php_quote {q : Char} (quote : [q] ∈ Profile.php.quotes) :
    (∀ marker ∈ Profile.php.markers, q ∉ marker) ∧ isBlank q = false
    ∧ (∀ entry ∈ Profile.php.declarations.entries, q ∉ entry.1) ∧ Profile.php.escape ≠ [q] := by
  simp only [Profile.php_quotes, List.mem_cons, List.cons.injEq, and_true, List.not_mem_nil, or_false] at quote
  rcases quote with rfl | rfl
  · decide
  · decide

theorem php_bare {q : Char} (quote : [q] ∈ Profile.php.quotes) {body : Text} (unquoted : q ∉ body)
    (unescaped : '\\' ∉ body) : Bare .php q body where
  unquoted := unquoted
  unescaped := by
    rw [List.forall_mem_cons]
    refine ⟨(php_quote quote).2.2.2, ?_⟩
    rintro c member same
    obtain rfl : '\\' = c := (List.cons.inj same).1
    exact unescaped member

/-- The declarations of two sources that differ in a string only are of the same kinds and keywords, up to those on the
    lines that start in the two strings. So they are the same if and only if these are, and a string on one line
    declares nothing and hides nothing. -/
theorem outline_literal {p : Profile} (builtIn : Settings.phpProfile = .ok p) {settings : Value}
    (auditable : Settings.Auditable settings) (filename lookup : Text) {q : Char} (quote : [q] ∈ p.quotes)
    {before body other after : Text} (inCode : InCode p before (q :: (body ++ q :: after)))
    (unquoted : q ∉ body ∧ q ∉ other) (unescaped : '\\' ∉ body ∧ '\\' ∉ other) :
    ∃ d e front back,
      Document.ofSource p settings filename (before ++ q :: (body ++ q :: after)) { lookup } = .ok d
      ∧ Document.ofSource p settings filename (before ++ q :: (other ++ q :: after)) { lookup } = .ok e
      ∧ d.outline = front ++ (laterHeadings p (body ++ [q]) ++ back)
      ∧ e.outline = front ++ (laterHeadings p (other ++ [q]) ++ back)
      ∧ (d.outline = e.outline ↔ laterHeadings p (body ++ [q]) = laterHeadings p (other ++ [q]))
      ∧ ('\n' ∉ body → '\n' ∉ other → d.outline = e.outline) := by
  obtain rfl : Profile.php = p := Except.ok.inj (Settings.phpProfile_eq.symm.trans builtIn)
  obtain ⟨absent, solid, noKeyword, -⟩ := php_quote quote
  have groups : ∀ pattern ∈ Profile.php.paramPattern, pattern.groups ≤ 1 := by
    rintro pattern ⟨⟩
    decide
  have made := fun source => Document.exists_ofCollected groups auditable filename lookup
    (Collected.ofSource .php false source)
  obtain ⟨d, given, -, declarations⟩ := made (before ++ q :: (body ++ q :: after))
  obtain ⟨e, givenToo, -, declarationsToo⟩ := made (before ++ q :: (other ++ q :: after))
  obtain ⟨earlier, above, segment, later, ⟨below, starts⟩, split⟩ := segments_literal quote absent solid inCode
  -- what is declared before the string, in it and after it, for any string in its place
  have outline : ∀ t, Bare .php q t → (segments .php (before ++ q :: (t ++ q :: after))).flatMap (headings .php ·.code)
      = (earlier.flatMap (headings .php ·.code) ++ headings .php (above ++ [q])) ++
        (laterHeadings .php (t ++ [q]) ++ (laterHeadings .php below ++ later.flatMap (headings .php ·.code))) := by
    intro t bare
    have code : (segment.after (above ++ q :: t)).code = above ++ q :: (t ++ q :: below) := by
      simp [Segment.after, ← starts]
    rw [split t bare, List.flatMap_append, List.flatMap_cons, code, headings_literal solid noKeyword]
    simp only [List.append_assoc]
  have first := (outline_eq declarations).trans (outline body (php_bare quote unquoted.1 unescaped.1))
  have second := (outline_eq declarationsToo).trans (outline other (php_bare quote unquoted.2 unescaped.2))
  have same : d.outline = e.outline ↔ laterHeadings .php (body ++ [q]) = laterHeadings .php (other ++ [q]) := by
    rw [first, second, List.append_cancel_left_eq, List.append_cancel_right_eq]
  have noFeed : q ≠ '\n' := by
    rintro rfl
    cases solid
  refine ⟨d, e, _, _, given, givenToo, first, second, same, fun one oneToo => same.mpr ?_⟩
  rw [laterHeadings, laterHeadings, Text.lines_of_not_mem (by simp [one, Ne.symm noFeed]),
    Text.lines_of_not_mem (by simp [oneToo, Ne.symm noFeed])]
  rfl

/-- A function is declared by a string with a line feed before its text. -/
theorem outline_literal_evil :
    let source (body : Text) : Text := "<?php\n$x = " ++ '"' :: (body ++ '"' :: ";\n")
    ∃ d e, Document.ofSource .php Settings.defaults "a.php" (source "a") {} = .ok d
      ∧ Document.ofSource .php Settings.defaults "a.php" (source "\nfunction evil()\n") {} = .ok e
      ∧ d.outline ≠ e.outline := by
  intro source
  have auditable : Settings.Auditable Settings.defaults := ⟨_, rfl⟩
  have inCode : InCode .php "<?php\n$x = " ('"' :: ("a" ++ '"' :: ";\n")) := by decide +kernel
  have unquoted : '"' ∉ "a".toList ∧ '"' ∉ "\nfunction evil()\n".toList := by decide
  obtain ⟨d, e, _, _, given, givenToo, -, -, same, -⟩ :=
    outline_literal Settings.phpProfile_eq auditable "a.php" [] (by decide) inCode unquoted (by decide)
  exact ⟨d, e, given, givenToo, same.not.mpr (by decide +kernel)⟩

end Literals

end Marginalia
