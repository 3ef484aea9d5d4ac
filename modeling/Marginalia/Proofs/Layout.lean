import Marginalia.Proofs.Border
import Marginalia.Proofs.Extraction

/-!
# Layout

Blanks and comments between two pieces of code are worth one space, in whatever number and order they stand. Each of
them leaves the reader in code with a soft space in the skeleton, and soft spaces merge. A carriage return alone leaves
nothing at all. Only where a comment stands right before a documentation comment does it make a difference that it is
not a blank.
-/

namespace Marginalia

/-- A blank or a comment that documents nothing. -/
inductive Filler where
  | blank (c : Char) (is : isBlank c = true)
  | lineComment (text : Text) (oneLine : '\n' ∉ text)
  /-- The text neither ends the comment nor makes it a documentation comment. -/
  | blockComment (text : Text) (unended : text.includes "*/" = false)
    (plain : ∀ c rest, text = '*' :: c :: rest → isBlank c = false)

namespace Filler

/-- What stands in the source. -/
def text : Filler → Text
  | blank c _ => [c]
  | lineComment text _ => "//" ++ (text ++ ['\n'])
  | blockComment text _ _ => "/*" ++ (text ++ "*/")

/-- A carriage return, which is left out of the code. -/
def isReturn : Filler → Bool
  | blank c _ => c == '\r'
  | _ => false

/-- A comment that does not end with a blank. -/
def isBlock : Filler → Bool
  | blockComment _ _ _ => true
  | _ => false

theorem isReturn_iff {f : Filler} : f.isReturn = true ↔ f.text = ['\r'] := by
  cases f with
  | blank c is => simp [isReturn, text]
  | lineComment t oneLine => simp [isReturn, text]
  | blockComment t unended plain => simp [isReturn, text]

/-- A filler starts with a blank or with a slash. -/
theorem exists_cons (f : Filler) : ∃ y more, f.text = y :: more ∧ (isBlank y = true ∨ y = '/') := by
  cases f with
  | blank c is => exact ⟨c, [], rfl, .inl is⟩
  | lineComment t oneLine => exact ⟨'/', _, rfl, .inr rfl⟩
  | blockComment t unended plain => exact ⟨'/', _, rfl, .inr rfl⟩

end Filler

theorem Skeleton.softSpace_softSpace (s : Skeleton) : s.softSpace.softSpace = s.softSpace := by
  cases s with
  | nil => rfl
  | cons piece s =>
    have space : isBlank (Piece.one ' ').last = true := rfl
    by_cases gap : isBlank piece.last = true
    · simp [softSpace, gap]
    · simp [softSpace, gap, space]

namespace Layout

open Scan

/-! ## Through one filler -/

section Comments

variable (fresh : Bool) (skeleton : Skeleton) (rest : Text)

/-- A line comment ends with its line. -/
theorem through_lineComment {t : Text} (oneLine : '\n' ∉ t) :
    through .php rest ⟨.lineComment, 0, fresh, skeleton⟩ (t ++ ['\n'])
      = (⟨.code, 0, true, skeleton.softSpace⟩, []) := by
  have feed : Profile.php.lineCommentEnd = ['\n'] := rfl
  have blank : isBlank '\n' = true := rfl
  induction t generalizing fresh with
  | nil => simp [through, step, visit, leave, State.past, feed, blank, Text.startsWith]
  | cons c t ih =>
    rw [List.mem_cons, not_or] at oneLine
    have stepped : step .php ⟨.lineComment, 0, fresh, skeleton⟩ c (t ++ ['\n'] ++ rest)
        = (⟨.lineComment, 0, isBlank c, skeleton⟩, none) := by
      simp [step, visit, feed, Text.startsWith, oneLine.1]
    rw [List.cons_append, through, stepped]
    simp [ih (isBlank c) oneLine.2]

/-- A block comment ends with its end marker. -/
theorem through_blockComment {t : Text} (unended : Unended .php ("*/" ++ rest) t) :
    through .php rest ⟨.blockComment, 0, fresh, skeleton⟩ (t ++ "*/")
      = (⟨.code, 0, false, skeleton.softSpace⟩, []) := by
  have slash : isBlank '/' = false := rfl
  induction t generalizing fresh with
  | nil => simp [through, step, visit, leave, State.past, slash, Text.startsWith]
  | cons c t ih =>
    obtain ⟨here, later⟩ := unended
    have stepped : step .php ⟨.blockComment, 0, fresh, skeleton⟩ c (t ++ "*/" ++ rest)
        = (⟨.blockComment, 0, isBlank c, skeleton⟩, none) := by
      simp only [step, visit, List.append_assoc, here, Bool.false_eq_true, if_false]
    rw [List.cons_append, through, stepped]
    simp only [ih (isBlank c) later, Option.toList_none, List.nil_append]

theorem step_blank {c : Char} (blank : isBlank c = true) :
    step .php ⟨.code, 0, fresh, skeleton⟩ c rest
      = (⟨.code, 0, true, if c = '\r' then skeleton else skeleton.softSpace⟩, none) := by
  have other : ∀ d : Char, isBlank d = false → c ≠ d := by
    rintro d solid rfl
    rw [blank] at solid
    cases solid
  have plain : isPlain .php (c :: rest) = true :=
    Php.isPlain_of_ne ⟨other '"' rfl, other '\'' rfl⟩ (other '?' rfl) (other '/' rfl) rest
  have separators : Profile.php.statementSeparators.contains [c] = false := by
    simp [other '\x7b' rfl, other '\x7d' rfl, other ';' rfl]
  rw [step_plain plain, blank]
  unfold codeChar
  rw [separators, blank]
  rfl

/-- The marker of a block comment opens a documentation comment only if a star and a blank follow it. -/
theorem opensDoc_blockComment {t : Text} (plain : ∀ c more, t = '*' :: c :: more → isBlank c = false) :
    opensDoc .php fresh ('/' :: '*' :: (t ++ ("*/" ++ rest))) = false := by
  have star : isBlank '*' = false := rfl
  have slash : isBlank '/' = false := rfl
  unfold opensDoc
  cases t with
  | nil => simp [Text.startsWith, slash]
  | cons c t =>
    by_cases stars : c = '*'
    · cases t with
      | nil => simp [Text.startsWith, stars, star]
      | cons d t => simp [Text.startsWith, stars, plain d t (by rw [stars])]
    · simp [Text.startsWith, Ne.symm stars]

end Comments

theorem through_filler (f : Filler) (rest : Text) (fresh : Bool) (skeleton : Skeleton) :
    through .php rest ⟨.code, 0, fresh, skeleton⟩ f.text
      = (⟨.code, 0, !f.isBlock, if f.isReturn then skeleton else skeleton.softSpace⟩, []) := by
  have slash : isBlank '/' = false := rfl
  have star : isBlank '*' = false := rfl
  cases f with
  | blank c is =>
    simp [Filler.text, through, step_blank fresh skeleton _ is, Filler.isBlock, Filler.isReturn]
  | lineComment t oneLine =>
    have opened : through .php ((t ++ ['\n']) ++ rest) ⟨.code, 0, fresh, skeleton⟩ "//"
        = (⟨.lineComment, 0, false, skeleton⟩, []) := by
      simp [through, step, visit, codeStep, stands, State.past, Text.startsWith, slash]
    exact through_append opened (through_lineComment false skeleton rest oneLine)
  | blockComment t unended plain =>
    have opened : through .php ((t ++ "*/") ++ rest) ⟨.code, 0, fresh, skeleton⟩ "/*"
        = (⟨.blockComment, 0, false, skeleton⟩, []) := by
      have noDoc := opensDoc_blockComment fresh rest plain
      have stepped : step .php ⟨.code, 0, fresh, skeleton⟩ '/' ('*' :: (t ++ ("*/" ++ rest)))
          = (⟨.blockComment, 1, false, skeleton⟩, none) := by
        simp only [step, visit, codeStep, noDoc]
        simp [stands, State.past, Text.startsWith, slash]
      have marker : "/*".toList = ['/', '*'] := rfl
      rw [marker, through, List.append_assoc, List.singleton_append, stepped]
      simp [through, step, star]
    exact through_append opened
      (through_blockComment false skeleton rest (Extraction.unended_of_includes unended rest))

/-! ## Through all of them -/

/-- The layout of a list of fillers. -/
def text (fillers : List Filler) : Text := fillers.flatMap Filler.text

theorem through_text (fillers : List Filler) (rest : Text) (fresh : Bool) (skeleton : Skeleton) :
    through .php rest ⟨.code, 0, fresh, skeleton⟩ (text fillers)
      = (⟨.code, 0, (fillers.getLast?.map (!·.isBlock)).getD fresh,
          if fillers.all Filler.isReturn then skeleton else skeleton.softSpace⟩, []) := by
  induction fillers generalizing fresh skeleton with
  | nil => rfl
  | cons f fillers ih =>
    have both := through_append (through_filler f (text fillers ++ rest) fresh skeleton)
      (ih (!f.isBlock) (if f.isReturn then skeleton else skeleton.softSpace))
    have last : (((f :: fillers).getLast?).map (!·.isBlock)).getD fresh
        = (fillers.getLast?.map (!·.isBlock)).getD (!f.isBlock) := by
      cases fillers with
      | nil => rfl
      | cons g fillers => simp [List.getLast?_cons]
    rw [text, List.flatMap_cons, last, List.all_cons]
    refine both.trans ?_
    cases f.isReturn with
    | true => rfl
    | false => simp [Skeleton.softSpace_softSpace]

/-- Whether a blank stands before it matters only to a text that opens a documentation comment. -/
theorem run_fresh {p : Profile} {t : Text} (noDoc : opensDoc p true t = false) (fresh : Bool) (skeleton : Skeleton) :
    run p ⟨.code, 0, fresh, skeleton⟩ t = run p ⟨.code, 0, true, skeleton⟩ t := by
  cases t with
  | nil => rfl
  | cons c after =>
    have closed : ∀ fresh, opensDoc p fresh (c :: after) = false := by
      intro fresh
      unfold opensDoc at noDoc ⊢
      cases fresh with
      | true => exact noDoc
      | false => simp
    have stepped : step p ⟨.code, 0, fresh, skeleton⟩ c after = step p ⟨.code, 0, true, skeleton⟩ c after := by
      simp only [step, visit, codeStep, closed]
      split_ifs <;> rfl
    rw [run, run, stepped]

theorem opensDoc_of_apart {t : Text}
    (apart : ∀ rest, t = "/**" ++ rest → ∃ c more, rest = c :: more ∧ isBlank c = false) :
    opensDoc .php true t = false := by
  unfold opensDoc
  by_cases starts : Text.startsWith t Profile.php.docCommentStart = true
  · obtain ⟨rest, rfl⟩ := List.isPrefixOf_iff_prefix.mp starts
    obtain ⟨c, more, rfl, solid⟩ := apart rest rfl
    rw [List.drop_left]
    simp [solid]
  · rw [Bool.eq_false_iff.mpr starts]
    rfl

/-- Before a slash, the marker of a documentation comment opens a block comment that the slash closes. -/
theorem through_docMarker (v : Text) (fresh : Bool) (skeleton : Skeleton) :
    ¬(through .php ('/' :: v) ⟨.code, 0, fresh, skeleton⟩ Profile.php.docCommentStart).1.Stands := by
  have slash : isBlank '/' = false := rfl
  have star : isBlank '*' = false := rfl
  rintro ⟨-, skip⟩
  simp [through, step, visit, codeStep, leave, stands, opensDoc, State.past, Text.startsWith, slash, star] at skip

/-- Only after a block comment does it matter what the rest starts with. -/
theorem segments_text {fillers : List Filler} (gap : ∃ f ∈ fillers, f.text ≠ ['\r']) {before after : Text}
    (inCode : InCode .php before (text fillers ++ after))
    (apart : (∀ f ∈ fillers.getLast?, f.isBlock = false) ∨ opensDoc .php true after = false) :
    segments .php (before ++ (text fillers ++ after)) = segments .php (before ++ ' ' :: after) := by
  have unmarked : ∀ marker ∈ Profile.php.markers, ' ' ∉ marker := by decide
  obtain ⟨f, member, notReturn⟩ := gap
  have content : fillers ≠ [] := List.ne_nil_of_mem member
  obtain ⟨y, v, starts, first⟩ : ∃ y v, text fillers ++ after = y :: v ∧ (isBlank y = true ∨ y = '/') := by
    obtain ⟨g, others, rfl⟩ := List.exists_cons_of_ne_nil content
    obtain ⟨y, more, here, kind⟩ := g.exists_cons
    exact ⟨y, more ++ (text others ++ after), by simp [text, here], kind⟩
  have same : through .php (' ' :: after) (start .php) before
      = through .php (text fillers ++ after) (start .php) before := by
    rw [starts] at inCode ⊢
    apply through_border php_regular unmarked ?_ inCode
    rcases first with blank | rfl
    · exact .inl blank.symm
    · exact .inr (through_docMarker v)
  obtain ⟨fresh, skeleton, earlier, reached⟩ := inCode.exists_through
  rw [reached] at same
  have kept : fillers.all Filler.isReturn = false := by
    rw [List.all_eq_false]
    exact ⟨f, member, fun isReturn => notReturn (Filler.isReturn_iff.mp isReturn)⟩
  have layout := through_text fillers after fresh skeleton
  rw [kept, if_neg Bool.false_ne_true] at layout
  calc segments .php (before ++ (text fillers ++ after))
      = earlier ++ run .php ⟨.code, 0, fresh, skeleton⟩ (text fillers ++ after) := run_of_through reached
    _ = earlier ++ run .php ⟨.code, 0, (fillers.getLast?.map (!·.isBlock)).getD fresh, skeleton.softSpace⟩ after := by
        rw [run_of_through layout, List.nil_append]
    _ = earlier ++ run .php ⟨.code, 0, true, skeleton.softSpace⟩ after := by
        rcases apart with loose | noDoc
        · have last := List.getLast?_eq_some_getLast content
          rw [last, Option.map_some, loose _ last]
          rfl
        · rw [run_fresh noDoc]
    _ = segments .php (before ++ ' ' :: after) := by
        rw [segments, run_of_through same, run, step_blank fresh skeleton after Php.isBlank_space]
        rfl

/-- Blanks and comments are worth one space, wherever they stand in code and whatever the comments hold. A block comment
    is not a blank, though, so no documentation comment may follow it at once; and a carriage return alone is worth
    nothing. -/
theorem segments_layout {p : Profile} (builtIn : Settings.phpProfile = .ok p) {fillers : List Filler}
    (gap : ∃ f ∈ fillers, f.text ≠ ['\r']) {before after : Text} (inCode : InCode p before (text fillers ++ after))
    (apart : ∀ f ∈ fillers.getLast?, f.isBlock = true → ∀ rest, after = "/**" ++ rest →
      ∃ c more, rest = c :: more ∧ isBlank c = false) :
    segments p (before ++ (text fillers ++ after)) = segments p (before ++ ' ' :: after) := by
  obtain rfl : Profile.php = p := Except.ok.inj (Settings.phpProfile_eq.symm.trans builtIn)
  apply segments_text gap inCode
  by_cases block : ∃ f ∈ fillers.getLast?, f.isBlock = true
  · obtain ⟨f, last, is⟩ := block
    exact .inr (opensDoc_of_apart (apart f last is))
  · left
    intro f last
    by_contra is
    exact block ⟨f, last, by simpa using is⟩

/-- Comments with markers in them around a carriage return, right before a name. -/
theorem segments_layout_dense :
    segments .php "<?php function/*?>\"*/\r// \x7b /*\n/***/f() ; /** D. */ "
      = segments .php "<?php function f() ; /** D. */ "
    ∧ segments .php "<?php function f() ; /** D. */ " = [⟨"function f()\n", some " D. "⟩, ⟨[], none⟩] := by
  let fillers : List Filler := [.blockComment ['?', '>', '"'] (by decide) nofun, .blank '\r' rfl,
    .lineComment " \x7b /*" (by decide), .blockComment ['*'] (by decide) nofun]
  have gap : ∃ f ∈ fillers, f.text ≠ ['\r'] := ⟨_, List.mem_cons_self, by decide⟩
  have inCode : InCode .php "<?php function" (text fillers ++ "f() ; /** D. */ ") := by decide +kernel
  have apart : ∀ rest : Text, "f() ; /** D. */ ".toList = "/**" ++ rest →
      ∃ c more, rest = c :: more ∧ isBlank c = false := nofun
  have same := segments_layout Settings.phpProfile_eq gap inCode fun _ _ _ => apart
  exact ⟨same, by decide +kernel⟩

end Layout

end Marginalia
