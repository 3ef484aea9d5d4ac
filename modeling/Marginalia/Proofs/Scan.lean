import Marginalia.Proofs.Text
import Marginalia.Segment

/-!
# Reading a source part by part

The reader sees the text that follows each character, so a part of a source is read with the rest of the source
in sight. `through` takes the reader through a part; the runs over two parts compose. Above it stand the laws of
plain code, in which no marker starts, and of comments, which last up to their end marker.
-/

namespace Marginalia.Scan

/-- The reader taken through a part of a source that `rest` follows: where it stands after the part, and the
    segments it has put out on the way. -/
def through (p : Profile) (rest : Text) : State → Text → State × List Segment
  | s, [] => (s, [])
  | s, c :: part =>
    let (next, segment) := step p s c (part ++ rest)
    let (last, segments) := through p rest next part
    (last, segment.toList ++ segments)

theorem run_append (p : Profile) (s : State) (part rest : Text) :
    run p s (part ++ rest) = (through p rest s part).2 ++ run p (through p rest s part).1 rest := by
  induction part generalizing s with
  | nil => rfl
  | cons c part ih =>
    rw [List.cons_append, run, through]
    rcases step p s c (part ++ rest) with ⟨next, _ | segment⟩
    · simpa using ih next
    · simpa using ih next

theorem run_eq_through (p : Profile) (s : State) (t : Text) :
    run p s t = (through p [] s t).2 ++ finish (through p [] s t).1 := by
  have read := run_append p s t []
  rw [List.append_nil] at read
  exact read

theorem run_of_through {p : Profile} {s last : State} {part rest : Text} {segments : List Segment}
    (read : through p rest s part = (last, segments)) :
    run p s (part ++ rest) = segments ++ run p last rest := by
  rw [run_append, read]

theorem through_append {p : Profile} {s middle last : State} {a b rest : Text} {before after : List Segment}
    (first : through p (b ++ rest) s a = (middle, before)) (second : through p rest middle b = (last, after)) :
    through p rest s (a ++ b) = (last, before ++ after) := by
  induction a generalizing s before with
  | nil =>
    rw [through, Prod.mk.injEq] at first
    obtain ⟨rfl, rfl⟩ := first
    exact second
  | cons c a ih =>
    simp only [through, Prod.mk.injEq] at first
    obtain ⟨reached, rfl⟩ := first
    have tail := ih (Prod.ext reached rfl)
    simp only [List.cons_append, through, List.append_assoc, tail]

/-! ## What a step does -/

/-- What the reader can come upon in code. -/
inductive Branch where
  | codeEnd
  | quote
  | lineComment
  | docComment
  | blockComment
  | plain

/-- What the reader comes upon at the character `c` of code, which starts the text `here`. -/
def branch (p : Profile) (fresh : Bool) (c : Char) (here : Text) : Branch :=
  if !p.codeStart.isEmpty && stands p.codeEnd here then .codeEnd
  else if p.quotes.contains [c] then .quote
  else if stands p.lineComment here then .lineComment
  else if opensDoc p fresh here then .docComment
  else if stands p.blockCommentStart here then .blockComment
  else .plain

/-- What becomes of a state in code. -/
def State.follow (p : Profile) (s : State) (c : Char) : Branch → State
  | .codeEnd => { s with skeleton := s.skeleton.newline }.past .outside p.codeEnd
  | .quote => { s with mode := .string c, skeleton := .one c :: s.skeleton }
  | .lineComment => s.past .lineComment p.lineComment
  | .docComment => { s with skeleton := [] }.past (.docComment s.skeleton.text []) p.docCommentStart
  | .blockComment => s.past .blockComment p.blockCommentStart
  | .plain => { s with mode := .code, skeleton := codeChar p s.skeleton c }

/-- A step in code sees the text and the blank before it, and then changes the state without another look at them. -/
theorem codeStep_eq_follow (p : Profile) (s : State) (c : Char) (here : Text) :
    codeStep p s c here = s.follow p c (branch p s.fresh c here) := by
  unfold codeStep branch
  repeat' split
  all_goals rfl

/-- A segment is put out where the end marker of a documentation comment stands, and nowhere else. -/
theorem step_eq_some {p : Profile} {s : State} {c : Char} {after : Text} {segment : Segment}
    (put : (step p s c after).2 = some segment) :
    s.skip = 0 ∧ ∃ code text, s.mode = .docComment code text
      ∧ Text.startsWith (c :: after) p.blockCommentEnd = true ∧ segment = ⟨code, some text.reverse⟩ := by
  unfold step at put
  cases skip : s.skip with
  | succ skip => simp [skip] at put
  | zero =>
    simp only [skip, visit] at put
    split at put
    case h_6 code text mode =>
      by_cases ends : Text.startsWith (c :: after) p.blockCommentEnd = true
      · rw [if_pos ends] at put
        exact ⟨rfl, code, text, mode, ends, (Option.some.inj put).symm⟩
      · rw [if_neg ends] at put
        cases put
    all_goals
      repeat' split at put
      all_goals cases put

/-! ## Plain code -/

/-- Whatever starts with `here` in code starts with a character of plain code: no marker and no string. -/
def isPlain (p : Profile) (here : Text) : Bool :=
  match here with
  | [] => true
  | c :: _ =>
    !stands p.codeEnd here && !p.quotes.contains [c] && !stands p.lineComment here
      && !stands p.docCommentStart here && !stands p.blockCommentStart here

/-- Every character of a part that `rest` follows is plain code. -/
def Plain (p : Profile) (rest : Text) : Text → Prop
  | [] => True
  | c :: part => isPlain p (c :: (part ++ rest)) = true ∧ Plain p rest part

theorem plain_append {p : Profile} {rest a b : Text} :
    Plain p rest (a ++ b) ↔ Plain p (b ++ rest) a ∧ Plain p rest b := by
  induction a with
  | nil => simp [Plain]
  | cons c a ih => simp [Plain, ih, and_assoc]

theorem step_plain {p : Profile} {c : Char} {after : Text} (plain : isPlain p (c :: after) = true)
    (fresh : Bool) (skeleton : Skeleton) :
    step p ⟨.code, 0, fresh, skeleton⟩ c after = (⟨.code, 0, isBlank c, codeChar p skeleton c⟩, none) := by
  simp only [isPlain, Bool.and_eq_true, Bool.not_eq_true'] at plain
  obtain ⟨⟨⟨⟨noEnd, noQuote⟩, noLine⟩, noDoc⟩, noBlock⟩ := plain
  have noOpening : opensDoc p fresh (c :: after) = false := by
    unfold opensDoc
    rw [stands] at noDoc
    rw [noDoc]
    simp
  have outside : [c] ∉ p.quotes := by simpa using noQuote
  simp [step, visit, codeStep, noEnd, outside, noLine, noOpening, noBlock]

theorem through_plain {p : Profile} {rest part : Text} (plain : Plain p rest part) (fresh : Bool)
    (skeleton : Skeleton) :
    through p rest ⟨.code, 0, fresh, skeleton⟩ part =
      (⟨.code, 0, (part.getLast?.map isBlank).getD fresh, part.foldl (codeChar p) skeleton⟩, []) := by
  induction part generalizing fresh skeleton with
  | nil => rfl
  | cons c part ih =>
    obtain ⟨here, later⟩ := plain
    rw [through, step_plain here]
    simp only [ih later, Option.toList_none, List.nil_append, List.foldl_cons]
    cases part with
    | nil => rfl
    | cons d part => simp [List.getLast?_cons]

/-! ## Comments -/

/-- The end marker of a block comment starts nowhere in a part that `rest` follows. -/
def Unended (p : Profile) (rest : Text) : Text → Prop
  | [] => True
  | c :: part => Text.startsWith (c :: (part ++ rest)) p.blockCommentEnd = false ∧ Unended p rest part

theorem through_docText {p : Profile} {rest part : Text} (unended : Unended p rest part) (fresh : Bool)
    (skeleton : Skeleton) (code text : Text) :
    through p rest ⟨.docComment code text, 0, fresh, skeleton⟩ part =
      (⟨.docComment code (part.reverse ++ text), 0, (part.getLast?.map isBlank).getD fresh, skeleton⟩, []) := by
  induction part generalizing fresh text with
  | nil => rfl
  | cons c part ih =>
    obtain ⟨here, later⟩ := unended
    have stepped : step p ⟨.docComment code text, 0, fresh, skeleton⟩ c (part ++ rest) =
        (⟨.docComment code (c :: text), 0, isBlank c, skeleton⟩, none) := by
      simp [step, visit, here]
    rw [through, stepped]
    simp only [ih later, Option.toList_none, List.nil_append, List.reverse_cons, List.append_assoc]
    cases part with
    | nil => rfl
    | cons d part => simp [List.getLast?_cons]

end Marginalia.Scan
