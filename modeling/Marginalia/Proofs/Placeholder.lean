import Marginalia.Proofs.Border

/-!
# Strings read as one character

Once it is closed, a string is to the reader what a single character of code would be that has no meaning of its own.
Two readers go through the same text, one with such a character in its skeleton and the other with the string in place
of it. They stay in step: neither looks deeper into its skeleton than the last piece that is not a space, and the
character is as solid there as the closing quote.
-/

namespace Marginalia

namespace Text

theorem replace_cons (x c : Char) (new t : Text) :
    replace [x] new (c :: t) = (if c = x then new else [c]) ++ replace [x] new t := by
  unfold replace
  rw [replaceFrom]
  by_cases same : c = x
  · simp [same]
  · simp [same, Ne.symm same]

theorem replace_append (x : Char) (new s t : Text) :
    replace [x] new (s ++ t) = replace [x] new s ++ replace [x] new t := by
  induction s with
  | nil => rfl
  | cons c s ih => rw [List.cons_append, replace_cons, replace_cons, ih, List.append_assoc]

theorem replace_of_not_mem {x : Char} {t : Text} (absent : x ∉ t) (new : Text) : replace [x] new t = t := by
  induction t with
  | nil => rfl
  | cons c t ih =>
    rw [List.mem_cons, not_or] at absent
    rw [replace_cons, ih absent.2, if_neg (Ne.symm absent.1)]
    rfl

end Text

namespace Skeleton

theorem text_cons (piece : Piece) (s : Skeleton) : text (piece :: s) = text s ++ piece.text := by
  simp [text]

theorem text_append (a b : Skeleton) : text (a ++ b) = text b ++ text a := by
  simp [text]

theorem trim_of_ne {piece : Piece} (solid : piece ≠ .one ' ') (s : Skeleton) : trim (piece :: s) = piece :: s := by
  rw [trim.eq_2]
  rintro rest ⟨⟩
  exact solid rfl

/-- The second skeleton has other pieces in place of a character of the first one. -/
inductive Exchanged (x : Char) (new : Skeleton) : Skeleton → Skeleton → Prop where
  | nil : Exchanged x new [] []
  | here {a b : Skeleton} (rest : Exchanged x new a b) : Exchanged x new (.one x :: a) (new ++ b)
  | keep {a b : Skeleton} {piece : Piece} (other : x ∉ piece.text) (rest : Exchanged x new a b) :
    Exchanged x new (piece :: a) (piece :: b)

/-- The last piece is solid. -/
def Solid (s : Skeleton) : Prop := ∃ piece rest, s = piece :: rest ∧ isBlank piece.last = false

section Exchange

variable {x : Char} {new a b : Skeleton}

theorem Exchanged.text (exchanged : Exchanged x new a b) : b.text = Text.replace [x] new.text a.text := by
  induction exchanged with
  | nil => rfl
  | here rest ih =>
    rw [text_append, text_cons, Text.replace_append, ih]
    simp [Piece.text, Text.replace, Text.replaceFrom]
  | keep other rest ih => rw [text_cons, text_cons, Text.replace_append, ih, Text.replace_of_not_mem other]

variable (blank : isBlank x = false) (solid : new.Solid)
include blank solid

theorem Exchanged.trim (exchanged : Exchanged x new a b) : Exchanged x new a.trim b.trim := by
  induction exchanged with
  | nil => exact .nil
  | here rest ih =>
    obtain ⟨piece, below, rfl, last⟩ := solid
    rw [List.cons_append, trim_of_ne, trim_of_ne]
    · exact .here rest
    · rintro rfl
      cases last
    · rintro ⟨⟩
      cases blank
  | @keep a b piece other rest ih =>
    by_cases space : piece = .one ' '
    · rw [space, Skeleton.trim, Skeleton.trim]
      exact ih
    · rw [trim_of_ne space, trim_of_ne space]
      exact .keep other rest

theorem Exchanged.softSpace (exchanged : Exchanged x new a b) : Exchanged x new a.softSpace b.softSpace := by
  have space : x ∉ (Piece.one ' ').text := by
    rintro (_ | ⟨_, ⟨⟩⟩)
    cases blank
  cases exchanged with
  | nil => exact .nil
  | here rest =>
    obtain ⟨piece, below, rfl, last⟩ := solid
    have first : isBlank (Piece.one x).last = false := blank
    rw [List.cons_append, Skeleton.softSpace, Skeleton.softSpace, first, last]
    exact .keep space (.here rest)
  | @keep a b piece other rest =>
    rw [Skeleton.softSpace, Skeleton.softSpace]
    by_cases gap : isBlank piece.last = true
    · rw [if_pos gap, if_pos gap]
      exact .keep other rest
    · rw [if_neg gap, if_neg gap]
      exact .keep space (.keep other rest)

theorem Exchanged.newline (exchanged : Exchanged x new a b) : Exchanged x new a.newline b.newline := by
  refine .keep ?_ (exchanged.trim blank solid)
  rintro (_ | ⟨_, ⟨⟩⟩)
  cases blank

theorem Exchanged.codeChar (exchanged : Exchanged x new a b) {c : Char} (other : c ≠ x) (p : Profile) :
    Exchanged x new (Scan.codeChar p a c) (Scan.codeChar p b c) := by
  have absent : x ∉ (Piece.one c).text := by simpa [Piece.text] using Ne.symm other
  unfold Scan.codeChar
  by_cases ret : c = '\r'
  · rw [if_pos ret, if_pos ret]
    exact exchanged
  rw [if_neg ret, if_neg ret]
  by_cases separator : p.statementSeparators.contains [c] = true
  · rw [if_pos separator, if_pos separator]
    exact exchanged.newline blank solid
  rw [if_neg separator, if_neg separator]
  by_cases gap : isBlank c = true
  · rw [if_pos gap, if_pos gap]
    exact exchanged.softSpace blank solid
  rw [if_neg gap, if_neg gap]
  by_cases noSpace : p.noSpaceBefore.contains [c] = true
  · rw [if_pos noSpace, if_pos noSpace]
    exact .keep absent (exchanged.trim blank solid)
  rw [if_neg noSpace, if_neg noSpace]
  exact .keep absent exchanged

end Exchange

end Skeleton

/-- The segment with a text in place of a character of its code. -/
def Segment.exchange (x : Char) (new : Text) (segment : Segment) : Segment :=
  { segment with code := Text.replace [x] new segment.code }

namespace Scan

/-! ## Two readers in step -/

/-- The code before a documentation comment that is read has a text in place of a character. -/
def Mode.exchange (x : Char) (new : Text) : Mode → Mode
  | .docComment before text => .docComment (Text.replace [x] new before) text
  | mode => mode

/-- Two states that are the same, up to other pieces in place of a character of the code. -/
structure State.Exchanged (x : Char) (new : Skeleton) (s s' : State) : Prop where
  mode : s'.mode = s.mode.exchange x new.text
  skip : s'.skip = s.skip
  fresh : s'.fresh = s.fresh
  skeleton : Skeleton.Exchanged x new s.skeleton s'.skeleton

section Simulation

variable {p : Profile} {x : Char} {new : Skeleton} {s s' : State}

theorem exchanged_start (p : Profile) (x : Char) (new : Skeleton) : State.Exchanged x new (start p) (start p) where
  mode := by
    unfold start
    split <;> rfl
  skip := rfl
  fresh := rfl
  skeleton := .nil

theorem State.Exchanged.finish (exchanged : s.Exchanged x new s') :
    finish s' = (finish s).map (Segment.exchange x new.text) := by
  unfold Scan.finish
  rw [exchanged.mode, exchanged.skeleton.text]
  cases s.mode with
  | docComment before text => rfl
  | _ => rfl

variable (blank : isBlank x = false) (solid : new.Solid)
include blank solid

theorem State.Exchanged.codeStep (exchanged : s.Exchanged x new s') {c : Char} (other : c ≠ x) (here : Text) :
    (codeStep p s c here).Exchanged x new (codeStep p s' c here) := by
  obtain ⟨mode, skip, fresh, skeleton⟩ := exchanged
  have absent : x ∉ (Piece.one c).text := by simpa [Piece.text] using Ne.symm other
  rw [codeStep_eq_follow, codeStep_eq_follow, fresh]
  cases branch p s.fresh c here with
  | codeEnd => exact ⟨rfl, rfl, fresh, skeleton.newline blank solid⟩
  | quote => exact ⟨rfl, skip, fresh, .keep absent skeleton⟩
  | lineComment => exact ⟨rfl, rfl, fresh, skeleton⟩
  | docComment =>
    refine ⟨?_, rfl, fresh, .nil⟩
    simp only [State.follow, State.past, Mode.exchange, skeleton.text]
  | blockComment => exact ⟨rfl, rfl, fresh, skeleton⟩
  | plain => exact ⟨rfl, skip, fresh, skeleton.codeChar blank solid other p⟩

theorem State.Exchanged.leave (exchanged : s.Exchanged x new s') {c : Char} (other : c ≠ x) (marker here : Text) :
    (leave p s marker c here).Exchanged x new (leave p s' marker c here) := by
  obtain ⟨mode, skip, fresh, skeleton⟩ := exchanged
  unfold Scan.leave
  by_cases empty : marker.isEmpty = true
  · rw [if_pos empty, if_pos empty]
    have inCode : State.Exchanged x new { s with mode := .code } { s' with mode := .code } :=
      ⟨rfl, skip, fresh, skeleton⟩
    exact inCode.codeStep blank solid other here
  · rw [if_neg empty, if_neg empty]
    exact ⟨rfl, rfl, fresh, skeleton⟩

/-- What one character does to two readers of the same text. -/
theorem State.Exchanged.visit (exchanged : s.Exchanged x new s') {c : Char} {after : Text} (other : c ≠ x)
    (next : x ∉ after.head?) :
    (visit p s c (c :: after)).1.Exchanged x new (visit p s' c (c :: after)).1
      ∧ (visit p s' c (c :: after)).2 = (visit p s c (c :: after)).2.map (Segment.exchange x new.text) := by
  have leaves := fun {a b : State} (both : a.Exchanged x new b) (marker : Text) =>
    both.leave (p := p) blank solid other marker (c :: after)
  have absent : x ∉ (Piece.one c).text := by simpa [Piece.text] using Ne.symm other
  have softened : State.Exchanged x new { s with skeleton := s.skeleton.softSpace }
      { s' with skeleton := s'.skeleton.softSpace } :=
    ⟨exchanged.mode, exchanged.skip, exchanged.fresh, exchanged.skeleton.softSpace blank solid⟩
  unfold Scan.visit
  rw [exchanged.mode]
  cases mode : s.mode with
  | outside =>
    simp only [Mode.exchange]
    by_cases full : (stands p.codeStartFull (c :: after) && Text.startsWith (c :: after) p.codeStart) = true
    · rw [if_pos full, if_pos full]
      exact ⟨⟨rfl, rfl, exchanged.fresh, exchanged.skeleton⟩, rfl⟩
    rw [if_neg full, if_neg full]
    by_cases starts : Text.startsWith (c :: after) p.codeStart = true
    · rw [if_pos starts, if_pos starts]
      exact ⟨⟨rfl, rfl, exchanged.fresh, exchanged.skeleton⟩, rfl⟩
    · rw [if_neg starts, if_neg starts]
      exact ⟨exchanged, rfl⟩
  | code => exact ⟨exchanged.codeStep blank solid other (c :: after), rfl⟩
  | string quote =>
    simp only [Mode.exchange]
    by_cases escape : p.escape = [c]
    · rw [if_pos escape, if_pos escape]
      cases after with
      | nil => exact ⟨⟨rfl, exchanged.skip, exchanged.fresh, .keep absent exchanged.skeleton⟩, rfl⟩
      | cons d after =>
        have pair : x ∉ (Piece.two c d).text := by
          simp only [Piece.text, List.mem_cons, List.not_mem_nil, or_false, not_or]
          exact ⟨Ne.symm other, fun same => next (by simp [same])⟩
        exact ⟨⟨rfl, rfl, exchanged.fresh, .keep pair exchanged.skeleton⟩, rfl⟩
    · rw [if_neg escape, if_neg escape]
      refine ⟨⟨?_, exchanged.skip, exchanged.fresh, .keep absent exchanged.skeleton⟩, rfl⟩
      by_cases closes : c = quote <;> simp [closes, Mode.exchange]
  | lineComment =>
    simp only [Mode.exchange]
    by_cases ends : Text.startsWith (c :: after) p.lineCommentEnd = true
    · rw [if_pos ends, if_pos ends]
      exact ⟨leaves softened p.lineCommentEnd, rfl⟩
    · rw [if_neg ends, if_neg ends]
      exact ⟨exchanged, rfl⟩
  | blockComment =>
    simp only [Mode.exchange]
    by_cases ends : Text.startsWith (c :: after) p.blockCommentEnd = true
    · rw [if_pos ends, if_pos ends]
      exact ⟨leaves softened p.blockCommentEnd, rfl⟩
    · rw [if_neg ends, if_neg ends]
      exact ⟨exchanged, rfl⟩
  | docComment before text =>
    simp only [Mode.exchange]
    by_cases ends : Text.startsWith (c :: after) p.blockCommentEnd = true
    · rw [if_pos ends, if_pos ends]
      exact ⟨leaves exchanged p.blockCommentEnd, rfl⟩
    · rw [if_neg ends, if_neg ends]
      exact ⟨⟨rfl, exchanged.skip, exchanged.fresh, exchanged.skeleton⟩, rfl⟩

theorem State.Exchanged.step (exchanged : s.Exchanged x new s') {c : Char} {after : Text} (other : c ≠ x)
    (next : x ∉ after.head?) :
    (step p s c after).1.Exchanged x new (step p s' c after).1
      ∧ (step p s' c after).2 = (step p s c after).2.map (Segment.exchange x new.text) := by
  unfold Scan.step
  rw [exchanged.skip]
  cases s.skip with
  | succ skip => exact ⟨⟨exchanged.mode, rfl, rfl, exchanged.skeleton⟩, rfl⟩
  | zero =>
    obtain ⟨both, segment⟩ := exchanged.visit (p := p) blank solid other next
    exact ⟨⟨both.mode, both.skip, rfl, both.skeleton⟩, segment⟩

/-- Two readers of the same text stay in step as long as they do not come to the character. -/
theorem State.Exchanged.through (exchanged : s.Exchanged x new s') {part r : Text} (absent : x ∉ part)
    (next : x ∉ r.head?) :
    (through p r s part).1.Exchanged x new (through p r s' part).1
      ∧ (through p r s' part).2 = (through p r s part).2.map (Segment.exchange x new.text) := by
  induction part generalizing s s' with
  | nil => exact ⟨exchanged, rfl⟩
  | cons c part ih =>
    rw [List.mem_cons, not_or] at absent
    have ahead : x ∉ (part ++ r).head? := by
      cases part with
      | nil => exact next
      | cons d part =>
        rintro ⟨⟩
        exact absent.2 List.mem_cons_self
    obtain ⟨both, segment⟩ := exchanged.step (p := p) blank solid (Ne.symm absent.1) ahead
    obtain ⟨last, segments⟩ := ih both absent.2
    refine ⟨last, ?_⟩
    simp only [Scan.through, segments, segment, List.map_append]
    cases (Scan.step p s c (part ++ r)).2 <;> rfl

theorem State.Exchanged.run (exchanged : s.Exchanged x new s') {t : Text} (absent : x ∉ t) :
    run p s' t = (run p s t).map (Segment.exchange x new.text) := by
  obtain ⟨last, segments⟩ := exchanged.through (p := p) blank solid absent (r := []) nofun
  rw [run_eq_through, run_eq_through, segments, last.finish, List.map_append]

end Simulation

/-! ## Through a string with escapes -/

section Literal

variable {p : Profile} {q : Char} {body : Text}

/-- A text that a string between two quotes can hold: neither the quote nor the escape stands in it alone, but a
    character of any kind may follow the escape. -/
inductive Enclosed (p : Profile) (q : Char) : Text → Prop where
  | nil : Enclosed p q []
  | plain {c : Char} {t : Text} (unquoted : c ≠ q) (unescaped : p.escape ≠ [c]) (rest : Enclosed p q t) :
    Enclosed p q (c :: t)
  | escaped {c : Char} (d : Char) {t : Text} (escape : p.escape = [c]) (rest : Enclosed p q t) :
    Enclosed p q (c :: d :: t)

theorem through_enclosed (enclosed : Enclosed p q body) (unescaped : p.escape ≠ [q]) (fresh : Bool)
    (skeleton : Skeleton) (rest : Text) :
    ∃ pieces : Skeleton, pieces.text = body ∧ through p rest ⟨.string q, 0, fresh, skeleton⟩ (body ++ [q])
      = (⟨.code, 0, isBlank q, .one q :: (pieces ++ skeleton)⟩, []) := by
  induction enclosed generalizing fresh skeleton with
  | nil => exact ⟨[], rfl, by simp [through, step, visit, unescaped]⟩
  | @plain c t unquoted plain inner ih =>
    have stepped : step p ⟨.string q, 0, fresh, skeleton⟩ c (t ++ [q] ++ rest)
        = (⟨.string q, 0, isBlank c, .one c :: skeleton⟩, none) := by
      simp [step, visit, plain, unquoted]
    obtain ⟨pieces, text, read⟩ := ih (isBlank c) (.one c :: skeleton)
    refine ⟨pieces ++ [.one c], ?_, ?_⟩
    · rw [Skeleton.text_append, text]
      rfl
    · rw [List.cons_append, through, stepped]
      simp [read]
  | @escaped c d t escape inner ih =>
    have stepped : step p ⟨.string q, 0, fresh, skeleton⟩ c (d :: (t ++ [q]) ++ rest)
        = (⟨.string q, 1, isBlank c, .two c d :: skeleton⟩, none) := by
      simp [step, visit, escape]
    obtain ⟨pieces, text, read⟩ := ih (isBlank d) (.two c d :: skeleton)
    refine ⟨pieces ++ [.two c d], ?_, ?_⟩
    · rw [Skeleton.text_append, text]
      rfl
    · rw [List.cons_append, List.cons_append, through, stepped]
      simp [through, step, read]

/-- A character that has no meaning of its own in code. -/
structure Neutral (p : Profile) (x : Char) : Prop where
  solid : isBlank x = false
  unmarked : ∀ marker ∈ p.markers, x ∉ marker
  unquoted : [x] ∉ p.quotes
  unseparated : [x] ∉ p.statementSeparators
  loose : [x] ∉ p.noSpaceBefore

theorem step_neutral {x : Char} (neutral : Neutral p x) (fresh : Bool) (skeleton : Skeleton) (after : Text) :
    step p ⟨.code, 0, fresh, skeleton⟩ x after = (⟨.code, 0, false, .one x :: skeleton⟩, none) := by
  have unseen : ∀ marker ∈ p.markers, stands marker (x :: after) = false := by
    intro marker member
    exact stands_of_not_mem (neutral.unmarked marker member) after
  simp only [Profile.markers, List.forall_mem_cons] at unseen
  obtain ⟨-, -, codeEnd, line, -, block, -, doc, -⟩ := unseen
  have plain : isPlain p (x :: after) = true := by
    simp [isPlain, codeEnd, line, block, doc, neutral.unquoted]
  have noReturn : x ≠ '\r' := by
    rintro rfl
    exact absurd neutral.solid (by decide)
  rw [step_plain plain]
  simp [codeChar, noReturn, neutral.solid, neutral.unseparated, neutral.loose]

/-- A source with a string has the segments of the source with a neutral character in place of the string, and the
    string stands in their code where the character stood. -/
theorem segments_exchange (regular : Regular p) (quote : [q] ∈ p.quotes) (absent : ∀ marker ∈ p.markers, q ∉ marker)
    (unescaped : p.escape ≠ [q]) (solid : isBlank q = false) (enclosed : Enclosed p q body) {x : Char}
    (neutral : Neutral p x) {before after : Text} (inCode : InCode p before (q :: (body ++ q :: after)))
    (unused : x ∉ before) (unusedToo : x ∉ after) :
    segments p (before ++ q :: (body ++ q :: after))
      = (segments p (before ++ x :: after)).map (Segment.exchange x (q :: (body ++ [q])))
    ∧ ∃ segment ∈ segments p (before ++ x :: after), x ∈ segment.code := by
  have other : q ≠ x := by
    rintro rfl
    exact neutral.unquoted quote
  have alike : isBlank x = isBlank q := neutral.solid.trans solid.symm
  have same := through_border (w := after) regular neutral.unmarked (.inl alike) inCode
  obtain ⟨fresh, skeleton, earlier, reached⟩ := inCode.exists_through
  rw [reached] at same
  -- the string as pieces
  obtain ⟨pieces, text, read⟩ := through_enclosed enclosed unescaped (isBlank q) (.one q :: skeleton) after
  have newText : Skeleton.text (.one q :: (pieces ++ [.one q])) = q :: (body ++ [q]) := by
    rw [Skeleton.text_cons, Skeleton.text_append, text]
    rfl
  have newSolid : Skeleton.Solid (.one q :: (pieces ++ [.one q])) := ⟨.one q, _, rfl, solid⟩
  -- before the string nothing is exchanged
  obtain ⟨both, kept⟩ := (exchanged_start p x (.one q :: (pieces ++ [.one q]))).through (p := p)
    neutral.solid newSolid unused (r := q :: (body ++ q :: after)) (by simpa using other)
  rw [reached] at both kept
  have withString : segments p (before ++ q :: (body ++ q :: after))
      = earlier ++ run p ⟨.code, 0, false, (.one q :: (pieces ++ [.one q])) ++ skeleton⟩ after := by
    have opened : through p after ⟨.code, 0, fresh, skeleton⟩ (q :: (body ++ [q]))
        = (⟨.code, 0, isBlank q, .one q :: (pieces ++ .one q :: skeleton)⟩, []) := by
      rw [through, step_quote quote absent]
      simp [read]
    have split : q :: (body ++ q :: after) = q :: (body ++ [q]) ++ after := by simp
    rw [segments, run_of_through reached, split, run_of_through opened, solid]
    simp
  have withCharacter : segments p (before ++ x :: after)
      = earlier ++ run p ⟨.code, 0, false, .one x :: skeleton⟩ after := by
    rw [segments, run_of_through same, run, step_neutral neutral]
  constructor
  · have exchanged : State.Exchanged x (.one q :: (pieces ++ [.one q])) ⟨.code, 0, false, .one x :: skeleton⟩
        ⟨.code, 0, false, (.one q :: (pieces ++ [.one q])) ++ skeleton⟩ :=
      ⟨rfl, rfl, rfl, .here both.skeleton⟩
    rw [withString, withCharacter, List.map_append, ← newText, ← kept,
      exchanged.run neutral.solid newSolid unusedToo]
  · have last : isBlank (Piece.one x).last = false := neutral.solid
    have rests : State.RestsOn (.one x) ⟨.code, 0, false, [.one x]⟩ := ⟨[], rfl⟩
    obtain ⟨segment, later, ⟨more, starts⟩, runs⟩ := run_over (p := p) last after rests
    refine ⟨segment.after skeleton.text, ?_, ?_⟩
    · have below := runs skeleton
      rw [withCharacter]
      exact List.mem_append_right _ (below ▸ List.mem_cons_self)
    · simp [Segment.after, ← starts, Piece.text]

end Literal

end Scan

namespace Placeholder

open Scan

/-- A string behaves as one neutral character, whatever it holds: the segments of a source with a string are those of
    the source with the character, with the string in place of the character in their code. -/
theorem segments_placeholder {p : Profile} (builtIn : Settings.phpProfile = .ok p) {q : Char} (quote : [q] ∈ p.quotes)
    {body : Text} (enclosed : Enclosed p q body) {before after : Text}
    (inCode : InCode p before (q :: (body ++ q :: after))) {x : Char} (neutral : Neutral p x)
    (unused : x ∉ before ∧ x ∉ after) :
    (segments p (before ++ q :: (body ++ q :: after))
      = (segments p (before ++ x :: after)).map fun segment =>
          { segment with code := Text.replace [x] (q :: (body ++ [q])) segment.code })
    ∧ ∃ segment ∈ segments p (before ++ x :: after), x ∈ segment.code := by
  obtain rfl : Profile.php = p := Except.ok.inj (Settings.phpProfile_eq.symm.trans builtIn)
  obtain ⟨absent, solid, -, unescaped⟩ := Literals.php_quote quote
  exact segments_exchange php_regular quote absent unescaped solid enclosed neutral inCode unused.1 unused.2

/-- A marker, an escaped quote, a space and a separator in a string. -/
theorem segments_placeholder_escaped :
    let body : Text := "/*\\\" ;"
    let after : Text := " , /* c */ 1) ; /** D. */ "
    segments .php ("<?php f( " ++ '#' :: after) = [⟨"f( #, 1)\n", some " D. "⟩, ⟨[], none⟩]
    ∧ segments .php ("<?php f( " ++ '"' :: (body ++ '"' :: after))
      = [⟨"f( \"/*\\\" ;\", 1)\n", some " D. "⟩, ⟨[], none⟩] := by
  intro body after
  have plain : ∀ {c : Char} {t : Text}, c ≠ '"' ∧ Profile.php.escape ≠ [c] → Enclosed .php '"' t →
      Enclosed .php '"' (c :: t) := fun apart rest => .plain apart.1 apart.2 rest
  have enclosed : Enclosed .php '"' body :=
    plain (by decide) (plain (by decide) (.escaped '"' rfl (plain (by decide) (plain (by decide) .nil))))
  have inCode : InCode .php "<?php f( " ('"' :: (body ++ '"' :: after)) := by decide +kernel
  have neutral : Neutral .php '#' := ⟨by decide, by decide, by decide, by decide, by decide⟩
  have character : segments .php ("<?php f( " ++ '#' :: after) = [⟨"f( #, 1)\n", some " D. "⟩, ⟨[], none⟩] := by
    decide +kernel
  obtain ⟨same, -⟩ := segments_placeholder Settings.phpProfile_eq (by decide) enclosed inCode neutral (by decide)
  refine ⟨character, same.trans ?_⟩
  rw [character]
  decide +kernel

end Placeholder

end Marginalia
