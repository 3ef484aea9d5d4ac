import Marginalia.Proofs.Placeholder
import Marginalia.Proofs.Slices

/-!
# Normal code

Skeleton code holds strings as they are written and everything else in a normal form. Each character of it belongs to
a string or to code; which one is read off the code itself. The reader only ever puts out skeletons of a small
grammar, `Written`: it has one rule for each way in which a piece is added, and taking spaces away from the end never
leaves it. What is true of the characters of skeleton code follows from the grammar.
-/

namespace Marginalia

namespace Skeleton

/-! ## Strings in code -/

/-- What the next character of skeleton code is within. -/
inductive Within where
  | code
  /-- In a string that the quote ends. -/
  | string (quote : Char)
  /-- After an escape in a string. -/
  | escaped (quote : Char)
  deriving DecidableEq, Repr

namespace Within

/-- The quote of the string that is open. -/
def quote? : Within → Option Char
  | .code => none
  | .string quote => some quote
  | .escaped quote => some quote

/-- What the character after `c` is within. -/
def next (p : Profile) : Within → Char → Within
  | .code, c => if p.quotes.contains [c] then .string c else .code
  | .string quote, c => if p.escape = [c] then .escaped quote else if c = quote then .code else .string quote
  | .escaped quote, _ => .string quote

theorem next_of_quote {p : Profile} {c : Char} (quote : [c] ∈ p.quotes) : code.next p c = .string c :=
  if_pos (List.contains_iff_mem.mpr quote)

theorem next_of_unquoted {p : Profile} {c : Char} (unquoted : [c] ∉ p.quotes) : code.next p c = .code :=
  if_neg fun quote => unquoted (List.contains_iff_mem.mp quote)

/-- What the character after a text is within. -/
def after (p : Profile) (within : Within) (t : Text) : Within := t.foldl (next p) within

theorem after_concat (p : Profile) (within : Within) (t : Text) (c : Char) :
    within.after p (t ++ [c]) = (within.after p t).next p c := by
  simp [after]

end Within

/-- A character that belongs to a string or to code. -/
structure Mark where
  char : Char
  inString : Bool
  deriving DecidableEq, Repr

/-- The character `c` with what it belongs to. A string reaches from its opening quote to its closing quote, so the
    character is part of one if a string is open before it or after it. -/
def Within.mark (p : Profile) (within : Within) (c : Char) : Mark :=
  ⟨c, within.quote?.isSome || (within.next p c).quote?.isSome⟩

/-- The characters of a text that starts within something, each with what it belongs to. -/
def marksFrom (p : Profile) : Within → Text → List Mark
  | _, [] => []
  | within, c :: t => within.mark p c :: marksFrom p (within.next p c) t

/-- The characters of skeleton code, each with what it belongs to. -/
def marks (p : Profile) (code : Text) : List Mark := marksFrom p .code code

theorem map_char_marks (p : Profile) (code : Text) : (marks p code).map Mark.char = code := by
  suffices same : ∀ within, (marksFrom p within code).map Mark.char = code from same .code
  induction code with
  | nil => exact fun _ => rfl
  | cons c t ih => exact fun within => congrArg (c :: ·) (ih (within.next p c))

theorem marks_concat (p : Profile) (t : Text) (c : Char) :
    marks p (t ++ [c]) = marks p t ++ [(Within.after p .code t).mark p c] := by
  suffices same : ∀ within, marksFrom p within (t ++ [c]) = marksFrom p within t ++ [(within.after p t).mark p c] from
    same .code
  induction t with
  | nil => exact fun _ => rfl
  | cons d t ih => exact fun within => congrArg (within.mark p d :: ·) (ih (within.next p d))

/-- Code that ends in a string ends with a character of the string. -/
theorem inString_of_getLast?_marks {p : Profile} {t : Text} {q : Char}
    (inside : (Within.after p .code t).quote? = some q) {m : Mark} (last : m ∈ (marks p t).getLast?) :
    m.inString = true := by
  induction t using List.reverseRecOn with
  | nil => cases last
  | append_singleton t c _ =>
    rw [marks_concat, List.getLast?_concat, Option.mem_some_iff] at last
    rw [Within.after_concat] at inside
    rw [← last, Within.mark, inside, Option.isSome_some, Bool.or_true]

/-! ## Skeletons that are written -/

/-- The skeletons that end within something. In code, a space follows something that is no blank, and neither a line
    feed nor punctuation that takes no space before it follows a space. -/
inductive Written (p : Profile) : Within → Skeleton → Prop where
  | empty : Written p .code []
  | plain {s : Skeleton} {c : Char} (below : Written p .code s) (solid : isBlank c = false)
    (kept : [c] ∉ p.statementSeparators) (unquoted : [c] ∉ p.quotes)
    (tight : [c] ∈ p.noSpaceBefore → s.head? ≠ some (.one ' ')) : Written p .code (.one c :: s)
  | space {s : Skeleton} (below : Written p .code s) (solid : s.Solid) : Written p .code (.one ' ' :: s)
  | newline {s : Skeleton} (below : Written p .code s) (tight : s.head? ≠ some (.one ' ')) :
    Written p .code (.one '\n' :: s)
  | opened {s : Skeleton} {q : Char} (below : Written p .code s) (quote : [q] ∈ p.quotes) :
    Written p (.string q) (.one q :: s)
  | inside {s : Skeleton} {q c : Char} (below : Written p (.string q) s) (unescaped : p.escape ≠ [c]) (other : c ≠ q) :
    Written p (.string q) (.one c :: s)
  | pair {s : Skeleton} {q c d : Char} (below : Written p (.string q) s) (escape : p.escape = [c]) :
    Written p (.string q) (.two c d :: s)
  | closed {s : Skeleton} {q : Char} (below : Written p (.string q) s) (unescaped : p.escape ≠ [q]) :
    Written p .code (.one q :: s)
  | cut {s : Skeleton} {q c : Char} (below : Written p (.string q) s) (escape : p.escape = [c]) :
    Written p (.escaped q) (.one c :: s)

/-- Neither a quote nor a separator of statements is blank. -/
structure Visible (p : Profile) : Prop where
  quotes : ∀ c, [c] ∈ p.quotes → isBlank c = false
  separators : ∀ c, [c] ∈ p.statementSeparators → isBlank c = false

section Written

variable {p : Profile} {within : Within} {s : Skeleton} {c q : Char}

theorem Visible.unquoted (visible : Visible p) (blank : isBlank c = true) : [c] ∉ p.quotes := by
  intro quote
  rw [visible.quotes c quote] at blank
  cases blank

theorem Visible.kept (visible : Visible p) (blank : isBlank c = true) : [c] ∉ p.statementSeparators := by
  intro separator
  rw [visible.separators c separator] at blank
  cases blank

/-- The string that is open was opened by a quote. -/
theorem Written.quote (written : Written p within s) (inside : within.quote? = some q) : [q] ∈ p.quotes := by
  induction written with
  | empty | plain | space | newline | closed => cases inside
  | opened _ quote => exact Option.some.inj inside ▸ quote
  | inside _ _ _ ih | pair _ _ ih | cut _ _ ih => exact ih inside

/-- What a written skeleton ends within can be read off its text. -/
theorem Written.after_text (visible : Visible p) (written : Written p within s) :
    Within.after p .code s.text = within := by
  have space : [' '] ∉ p.quotes := visible.unquoted (by decide)
  have newline : ['\n'] ∉ p.quotes := visible.unquoted (by decide)
  induction written with
  | empty => rfl
  | plain _ _ _ unquoted _ ih => rw [text_cons, Piece.text, Within.after_concat, ih, Within.next_of_unquoted unquoted]
  | space _ _ ih => rw [text_cons, Piece.text, Within.after_concat, ih, Within.next_of_unquoted space]
  | newline _ _ ih => rw [text_cons, Piece.text, Within.after_concat, ih, Within.next_of_unquoted newline]
  | opened _ quote ih => rw [text_cons, Piece.text, Within.after_concat, ih, Within.next_of_quote quote]
  | inside _ unescaped other ih =>
    rw [text_cons, Piece.text, Within.after_concat, ih, Within.next, if_neg unescaped, if_neg other]
  | @pair s q c d _ escape ih =>
    have two : s.text ++ (Piece.two c d).text = s.text ++ [c] ++ [d] := by simp [Piece.text]
    rw [text_cons, two, Within.after_concat, Within.after_concat, ih, Within.next, if_pos escape, Within.next]
  | closed _ unescaped ih =>
    rw [text_cons, Piece.text, Within.after_concat, ih, Within.next, if_neg unescaped, if_pos rfl]
  | cut _ escape ih => rw [text_cons, Piece.text, Within.after_concat, ih, Within.next, if_pos escape]

/-- In code a space at the end stands between words, since strings end with their quote. -/
theorem Written.of_space (visible : Visible p) (written : Written p .code (.one ' ' :: s)) : Written p .code s := by
  cases written with
  | plain _ solid => cases solid
  | space below => exact below
  | closed below => exact absurd (below.quote rfl) (visible.unquoted (by decide))

theorem Written.trim (visible : Visible p) (written : Written p .code s) :
    Written p .code s.trim ∧ s.trim.head? ≠ some (.one ' ') := by
  induction s with
  | nil => exact ⟨written, by simp [Skeleton.trim]⟩
  | cons piece s ih =>
    by_cases space : piece = .one ' '
    · subst space
      exact ih (written.of_space visible)
    · rw [trim_of_ne space]
      exact ⟨written, by simpa using space⟩

theorem Written.softSpace (written : Written p .code s) : Written p .code s.softSpace := by
  unfold Skeleton.softSpace
  split
  · exact written
  · next piece s =>
    split
    · exact written
    · next solid => exact .space written ⟨piece, s, rfl, Bool.eq_false_iff.mpr solid⟩

theorem Written.newlined (visible : Visible p) (written : Written p .code s) : Written p .code s.newline :=
  .newline (written.trim visible).1 (written.trim visible).2

theorem Written.codeChar (visible : Visible p) (written : Written p .code s) (unquoted : [c] ∉ p.quotes) :
    Written p .code (Scan.codeChar p s c) := by
  unfold Scan.codeChar
  split
  · exact written
  split
  · exact written.newlined visible
  next kept =>
  have kept : [c] ∉ p.statementSeparators := by simpa using kept
  split
  · exact written.softSpace
  next solid =>
  have solid : isBlank c = false := Bool.eq_false_iff.mpr solid
  split
  · exact .plain (written.trim visible).1 solid kept unquoted fun _ => (written.trim visible).2
  next loose =>
  have loose : [c] ∉ p.noSpaceBefore := by simpa using loose
  exact .plain written solid kept unquoted fun tight => absurd tight loose

end Written

/-! ## The characters of written code -/

/-- A character of code is no carriage return and no separator of statements, and only spaces and line feeds of it are
    blank. -/
def Mark.Clean (p : Profile) (m : Mark) : Prop :=
  m.inString = false →
    m.char ≠ '\r' ∧ [m.char] ∉ p.statementSeparators ∧ (isBlank m.char = true → m.char = ' ' ∨ m.char = '\n')

/-- What two neighbours have to do with each other. -/
structure Mark.Fits (p : Profile) (a b : Mark) : Prop where
  before_space : b = ⟨' ', false⟩ → isBlank a.char = false
  after_space : a = ⟨' ', false⟩ → b.char ≠ ' ' ∧ b.char ≠ '\n' ∧ (b.inString = false → [b.char] ∉ p.noSpaceBefore)
  after_newline : a = ⟨'\n', false⟩ → b.char ≠ ' '

/-- Characters of code in its normal form. -/
structure Tidy (p : Profile) (ms : List Mark) : Prop where
  clean : ∀ m ∈ ms, m.Clean p
  start : ∀ m ∈ ms.head?, m.char ≠ ' '
  fits : ms.IsChain (Mark.Fits p)

theorem ne_of_solid {c d : Char} (solid : isBlank c = false) (blank : isBlank d = true) : c ≠ d := by
  rintro rfl
  rw [solid] at blank
  cases blank

section Tidy

variable {p : Profile} {within : Within} {s : Skeleton} {ms : List Mark} {m : Mark} {c q : Char}

theorem Tidy.concat (tidy : Tidy p ms) (clean : m.Clean p) (start : ms = [] → m.char ≠ ' ')
    (fits : ∀ a ∈ ms.getLast?, a.Fits p m) : Tidy p (ms ++ [m]) where
  clean := by
    rw [List.forall_mem_append, List.forall_mem_singleton]
    exact ⟨tidy.clean, clean⟩
  start := by
    cases ms with
    | nil => simpa using start rfl
    | cons first rest => exact tidy.start
  fits := List.isChain_append.mpr ⟨tidy.fits, .singleton m, by simpa using fits⟩

/-- A character of a string after another one. -/
theorem Tidy.concat_inside {t : Text} (tidy : Tidy p (marks p t)) (inside : (Within.after p .code t).quote? = some q) :
    Tidy p (marks p (t ++ [c])) := by
  rw [marks_concat]
  have inString : ((Within.after p .code t).mark p c).inString = true := by
    rw [Within.mark, inside, Option.isSome_some, Bool.true_or]
  refine tidy.concat (fun outside => ?_) (fun empty => ?_) fun a last => ?_
  · rw [inString] at outside
    cases outside
  · have nothing : t = [] := by rw [← map_char_marks p t, empty, List.map_nil]
    rw [nothing] at inside
    cases inside
  · have before := inString_of_getLast?_marks inside last
    refine ⟨fun same => ?_, fun same => ?_, fun same => ?_⟩
    · rw [same] at inString
      cases inString
    all_goals
      rw [same] at before
      cases before

/-- In code the last character is a piece of its own. -/
theorem Written.head?_of_getLast? (written : Written p .code s) (last : m ∈ (marks p s.text).getLast?) :
    s.head? = some (.one m.char) := by
  have ends : s.text.getLast? = some m.char := by
    rw [← map_char_marks p s.text, List.getLast?_map, last, Option.map_some]
  cases written with
  | empty => cases ends
  | plain | space | newline | closed =>
    rw [text_cons, Piece.text, List.getLast?_concat] at ends
    rw [List.head?_cons, Option.some.inj ends]

/-- A character of code. Only a space needs something before it, and only after a space is not everything allowed. -/
theorem Tidy.concat_code (visible : Visible p) (tidy : Tidy p (marks p s.text)) (below : Written p .code s)
    (unquoted : [c] ∉ p.quotes) (clean : Mark.Clean p ⟨c, false⟩) (solid : c = ' ' → s.Solid)
    (tight : s.head? = some (.one ' ') → c ≠ '\n' ∧ [c] ∉ p.noSpaceBefore) : Tidy p (marks p (s.text ++ [c])) := by
  have mark : (Within.after p .code s.text).mark p c = ⟨c, false⟩ := by
    rw [below.after_text visible, Within.mark, Within.next_of_unquoted unquoted]
    rfl
  have lastSolid : c = ' ' → ∀ a ∈ (marks p s.text).getLast?, isBlank a.char = false := by
    intro space a last
    obtain ⟨piece, rest, rfl, ending⟩ := solid space
    rw [Option.some.inj (below.head?_of_getLast? last)] at ending
    exact ending
  rw [marks_concat, mark]
  refine tidy.concat clean (fun empty space => ?_) fun a last => ⟨fun same => ?_, fun same => ?_, fun same space => ?_⟩
  · obtain ⟨piece, rest, rfl, -⟩ := solid space
    have nothing : text (piece :: rest) = [] := by rw [← map_char_marks p (text _), empty, List.map_nil]
    rw [text_cons] at nothing
    cases piece <;> simp [Piece.text] at nothing
  · exact lastSolid (congrArg Mark.char same) a last
  · have top := below.head?_of_getLast? last
    rw [same] at top
    refine ⟨fun space => ?_, (tight top).1, fun _ => (tight top).2⟩
    have ending := lastSolid space a last
    rw [same] at ending
    cases ending
  · have ending := lastSolid space a last
    rw [same] at ending
    cases ending

/-- A quote that opens a string. -/
theorem Tidy.concat_opened (visible : Visible p) (tidy : Tidy p (marks p s.text)) (below : Written p .code s)
    (quote : [q] ∈ p.quotes) : Tidy p (marks p (s.text ++ [q])) := by
  have mark : (Within.after p .code s.text).mark p q = ⟨q, true⟩ := by
    rw [below.after_text visible, Within.mark, Within.next_of_quote quote]
    rfl
  have noSpace : q ≠ ' ' := ne_of_solid (visible.quotes q quote) (by decide)
  have noNewline : q ≠ '\n' := ne_of_solid (visible.quotes q quote) (by decide)
  rw [marks_concat, mark]
  refine tidy.concat (fun outside => ?_) (fun _ => noSpace) fun a _ => ⟨fun same => ?_, fun _ => ?_, fun _ => noSpace⟩
  · cases outside
  · cases same
  · exact ⟨noSpace, noNewline, fun outside => by cases outside⟩

theorem Written.tidy (visible : Visible p) (written : Written p within s) : Tidy p (marks p s.text) := by
  induction written with
  | empty => exact ⟨by simp [marks, marksFrom, text], by simp [marks, marksFrom, text], .nil⟩
  | @plain s c below solid kept unquoted tight ih =>
    have noSpace : c ≠ ' ' := ne_of_solid solid (by decide)
    have noNewline : c ≠ '\n' := ne_of_solid solid (by decide)
    have noReturn : c ≠ '\r' := ne_of_solid solid (by decide)
    rw [text_cons]
    exact ih.concat_code visible below unquoted
      (fun _ => ⟨noReturn, kept, fun blank => absurd rfl (ne_of_solid solid blank)⟩)
      (fun space => absurd space noSpace) fun top => ⟨noNewline, fun punctuation => tight punctuation top⟩
  | space below solid ih =>
    rw [text_cons]
    refine ih.concat_code visible below (visible.unquoted (by decide))
      (fun _ => ⟨by decide, visible.kept (by decide), fun _ => .inl rfl⟩) (fun _ => solid) fun top => ?_
    obtain ⟨piece, rest, rfl, ending⟩ := solid
    rw [Option.some.inj top] at ending
    cases ending
  | newline below tight ih =>
    rw [text_cons]
    exact ih.concat_code visible below (visible.unquoted (by decide))
      (fun _ => ⟨by decide, visible.kept (by decide), fun _ => .inr rfl⟩) (fun space => absurd space (by decide))
      fun top => absurd top tight
  | opened below quote ih =>
    rw [text_cons]
    exact ih.concat_opened visible below quote
  | @pair s q c d below escape ih =>
    have within := below.after_text visible
    have first : Tidy p (marks p (s.text ++ [c])) := ih.concat_inside (congrArg Within.quote? within)
    have two : s.text ++ (Piece.two c d).text = s.text ++ [c] ++ [d] := by simp [Piece.text]
    rw [text_cons, two]
    refine first.concat_inside (q := q) ?_
    rw [Within.after_concat, within, Within.next, if_pos escape, Within.quote?]
  | inside below _ _ ih | closed below _ ih | cut below _ ih =>
    rw [text_cons]
    exact ih.concat_inside (congrArg Within.quote? (below.after_text visible))

/-- The neighbours of a space of code. -/
theorem Tidy.space {before after : List Mark} (tidy : Tidy p (before ++ ⟨' ', false⟩ :: after)) :
    (∃ m, before.getLast? = some m ∧ isBlank m.char = false)
      ∧ ∀ m, after.head? = some m →
        m.char ≠ ' ' ∧ m.char ≠ '\n' ∧ (m.inString = false → [m.char] ∉ p.noSpaceBefore) := by
  obtain ⟨-, later, border⟩ := List.isChain_append.mp tidy.fits
  refine ⟨?_, fun m next => (later.rel_head? (Option.mem_def.mpr next)).after_space rfl⟩
  cases last : before.getLast? with
  | none =>
    rw [List.getLast?_eq_none_iff.mp last] at tidy
    exact absurd rfl (tidy.start _ rfl)
  | some m => exact ⟨m, rfl, (border m last _ rfl).before_space rfl⟩

theorem Tidy.newline {before after : List Mark} (tidy : Tidy p (before ++ ⟨'\n', false⟩ :: after)) (m : Mark)
    (next : after.head? = some m) : m.char ≠ ' ' := by
  obtain ⟨-, later, -⟩ := List.isChain_append.mp tidy.fits
  exact (later.rel_head? (Option.mem_def.mpr next)).after_newline rfl

end Tidy

end Skeleton

/-! ## What the reader writes -/

namespace Scan

open Skeleton

/-- What the code is within in a mode. -/
def Mode.within : Mode → Within
  | .string quote => .string quote
  | _ => .code

/-- The code of the reader is written and within what its mode says, and the code before the comment that the reader is
    in is written too. -/
structure State.Ready (p : Profile) (s : State) : Prop where
  written : Written p s.mode.within s.skeleton
  doc : ∀ code text, s.mode = .docComment code text →
    ∃ skeleton : Skeleton, Written p .code skeleton ∧ code = skeleton.text

/-- The source has ended after an escape in a string. -/
def State.CutOff (p : Profile) (s : State) : Prop := ∃ q, s.mode = .string q ∧ Written p (.escaped q) s.skeleton

section Step

variable {p : Profile} {s : State} {c : Char} {rest : Text}

/-- Nothing is to be known of a comment where there is none. -/
theorem State.Ready.of_written {s : State} (plain : s.mode.isDoc = false)
    (written : Written p s.mode.within s.skeleton) : s.Ready p := by
  refine ⟨written, fun code text mode => ?_⟩
  rw [mode] at plain
  cases plain

theorem ready_codeStep (visible : Visible p) (written : Written p .code s.skeleton) (here : Text) :
    (codeStep p s c here).Ready p := by
  unfold codeStep
  split
  · exact .of_written rfl (written.newlined visible)
  split
  · next quote =>
    have quote : [c] ∈ p.quotes := by simpa using quote
    exact .of_written rfl (.opened written quote)
  next unquoted =>
  have unquoted : [c] ∉ p.quotes := by simpa using unquoted
  split
  · exact .of_written rfl written
  split
  · refine ⟨.empty, fun code text mode => ⟨s.skeleton, written, ?_⟩⟩
    cases mode
    rfl
  split
  · exact .of_written rfl written
  · exact .of_written rfl (written.codeChar visible unquoted)

theorem ready_leave (visible : Visible p) (written : Written p .code s.skeleton) (marker here : Text) :
    (leave p s marker c here).Ready p := by
  unfold leave
  split
  · exact ready_codeStep visible written here
  · exact .of_written rfl written

/-- A step in a string. -/
theorem ready_visit_string {q : Char} (mode : s.mode = .string q) (written : Written p (.string q) s.skeleton) :
    (visit p s c (c :: rest)).1.Ready p ∨ rest = [] ∧ (visit p s c (c :: rest)).1.CutOff p := by
  unfold visit
  rw [mode]
  dsimp only
  split
  · next escape =>
    cases rest with
    | nil => exact .inr ⟨rfl, q, rfl, .cut written escape⟩
    | cons d rest => exact .inl (.of_written rfl (.pair written escape))
  · next unescaped =>
    left
    by_cases closes : c = q
    · subst closes
      rw [if_pos rfl]
      exact .of_written rfl (.closed written unescaped)
    · rw [if_neg closes]
      exact .of_written rfl (.inside written unescaped closes)

theorem ready_visit (visible : Visible p) (ready : s.Ready p) :
    (visit p s c (c :: rest)).1.Ready p ∨ rest = [] ∧ (visit p s c (c :: rest)).1.CutOff p := by
  have written := ready.written
  cases mode : s.mode with
  | string q =>
    rw [mode] at written
    exact ready_visit_string mode written
  | outside =>
    rw [mode] at written
    left
    unfold visit
    rw [mode]
    dsimp only
    split
    · exact .of_written rfl written
    split
    · exact .of_written rfl written
    · exact ready
  | code =>
    rw [mode] at written
    left
    unfold visit
    rw [mode]
    exact ready_codeStep visible written _
  | lineComment | blockComment =>
    rw [mode] at written
    left
    unfold visit
    rw [mode]
    dsimp only
    split
    · exact ready_leave visible written.softSpace _ _
    · exact ready
  | docComment code text =>
    rw [mode] at written
    left
    unfold visit
    rw [mode]
    dsimp only
    split
    · exact ready_leave visible written _ _
    · refine ⟨written, fun code' text' same => ?_⟩
      cases same
      exact ready.doc code text mode

theorem ready_step (visible : Visible p) (ready : s.Ready p) :
    (step p s c rest).1.Ready p ∨ rest = [] ∧ (step p s c rest).1.CutOff p := by
  unfold step
  split
  · exact .inl ⟨ready.written, ready.doc⟩
  · exact (ready_visit visible ready).imp (fun next => ⟨next.written, next.doc⟩) id

/-- A segment that is put out has the code that was written before its comment. -/
theorem written_step (ready : s.Ready p) {segment : Segment} (put : (step p s c rest).2 = some segment) :
    ∃ skeleton : Skeleton, Written p .code skeleton ∧ segment.code = skeleton.text := by
  obtain ⟨-, code, text, mode, -, rfl⟩ := step_eq_some put
  exact ready.doc code text mode

theorem ready_through (visible : Visible p) (ready : s.Ready p) (part rest : Text) :
    ((through p rest s part).1.Ready p ∨ rest = [] ∧ (through p rest s part).1.CutOff p)
      ∧ ∀ segment ∈ (through p rest s part).2,
        ∃ skeleton : Skeleton, Written p .code skeleton ∧ segment.code = skeleton.text := by
  induction part generalizing s with
  | nil => exact ⟨.inl ready, by simp [through]⟩
  | cons c part ih =>
    rw [through]
    have first : ∀ segment ∈ (step p s c (part ++ rest)).2.toList,
        ∃ skeleton : Skeleton, Written p .code skeleton ∧ segment.code = skeleton.text :=
      fun segment member => written_step ready (Option.mem_toList.mp member)
    rcases ready_step (c := c) visible ready with next | ⟨atEnd, cutOff⟩
    · obtain ⟨last, later⟩ := ih next
      exact ⟨last, List.forall_mem_append.mpr ⟨first, later⟩⟩
    · obtain ⟨rfl, rfl⟩ := List.append_eq_nil_iff.mp atEnd
      exact ⟨.inr ⟨rfl, cutOff⟩, by simpa [through] using first⟩

theorem ready_start (p : Profile) : (start p).Ready p := by
  unfold start
  split
  · exact .of_written rfl .empty
  · exact .of_written rfl .empty

theorem written_finish (last : s.Ready p ∨ s.CutOff p) {segment : Segment} (member : segment ∈ finish s) :
    ∃ within skeleton, Written p within skeleton ∧ segment.code = skeleton.text := by
  have written : ∃ within, Written p within s.skeleton := by
    rcases last with ready | ⟨q, -, written⟩
    · exact ⟨_, ready.written⟩
    · exact ⟨_, written⟩
  obtain ⟨within, written⟩ := written
  unfold finish at member
  split at member
  · next code text mode =>
    rcases List.mem_cons.mp member with rfl | rest
    · -- a source that ends in a comment does not end in a string
      rcases last with ready | ⟨q, string, -⟩
      · obtain ⟨skeleton, before, same⟩ := ready.doc code text mode
        exact ⟨.code, skeleton, before, same⟩
      · rw [mode] at string
        cases string
    · rw [List.mem_singleton.mp rest]
      exact ⟨within, s.skeleton, written, rfl⟩
  · rw [List.mem_singleton.mp member]
    exact ⟨within, s.skeleton, written, rfl⟩

/-- The code of every segment is written. -/
theorem exists_written (visible : Visible p) {source : Text} {segment : Segment}
    (member : segment ∈ segments p source) :
    ∃ within skeleton, Written p within skeleton ∧ segment.code = skeleton.text := by
  obtain ⟨last, before⟩ := ready_through visible (ready_start p) source []
  rw [segments, run_eq_through, List.mem_append] at member
  rcases member with put | left
  · obtain ⟨skeleton, written, code⟩ := before segment put
    exact ⟨.code, skeleton, written, code⟩
  · exact written_finish (last.imp_right And.right) left

end Step

/-- Code is normal in every segment. The characters of strings are those between quotes, and at any time these are the
    ones that the reader takes for a string. Of the other characters none is a carriage return or a separator of
    statements, and blank are spaces and line feeds only. A space has something before it that is not blank, and
    neither a blank nor punctuation that takes no space before it follows. So no segment and no line of code starts
    with a space. -/
theorem segments_normal {p : Profile} (quotes : ∀ c, [c] ∈ p.quotes → isBlank c = false)
    (separators : ∀ c, [c] ∈ p.statementSeparators → isBlank c = false) (source : Text) :
    (∀ read rest, read ++ rest = source →
      (Within.after p .code (through p rest (start p) read).1.skeleton.text).quote?
        = (through p rest (start p) read).1.mode.within.quote?)
    ∧ ∀ segment ∈ segments p source,
      (∀ m ∈ marks p segment.code, m.inString = false →
        m.char ≠ '\r' ∧ [m.char] ∉ p.statementSeparators ∧ (isBlank m.char = true → m.char = ' ' ∨ m.char = '\n'))
      ∧ (∀ before after, marks p segment.code = before ++ ⟨' ', false⟩ :: after →
        (∃ m, before.getLast? = some m ∧ isBlank m.char = false)
        ∧ ∀ m, after.head? = some m →
          m.char ≠ ' ' ∧ m.char ≠ '\n' ∧ (m.inString = false → [m.char] ∉ p.noSpaceBefore))
      ∧ segment.code.head? ≠ some ' '
      ∧ ∀ before after, marks p segment.code = before ++ ⟨'\n', false⟩ :: after →
        ∀ m, after.head? = some m → m.char ≠ ' ' := by
  have visible : Visible p := ⟨quotes, separators⟩
  refine ⟨fun read rest _ => ?_, fun segment member => ?_⟩
  · rcases (ready_through visible (ready_start p) read rest).1 with ready | ⟨-, q, mode, written⟩
    · rw [ready.written.after_text visible]
    · rw [written.after_text visible, mode]
      rfl
  · obtain ⟨within, skeleton, written, code⟩ := exists_written visible member
    have tidy : Tidy p (marks p segment.code) := code ▸ written.tidy visible
    refine ⟨tidy.clean, fun before after same => ?_, fun start => ?_, fun before after same => ?_⟩
    · rw [same] at tidy
      exact tidy.space
    · rw [← map_char_marks p segment.code, List.head?_map, Option.map_eq_some_iff] at start
      obtain ⟨m, first, space⟩ := start
      exact tidy.start m first space
    · rw [same] at tidy
      exact tidy.newline

/-- Blanks and punctuation around a string that holds all of them, and a string that is not closed. -/
theorem segments_normal_open :
    let source : Text := "<?php\n f ( 'a \\' ;\n (b' )\t\t, /* c */ ) ;\r\n ; $x  =  \"y  "
    let code : Text := "f( 'a \\' ;\n (b'),)\n\n$x = \"y  "
    segments .php source = [⟨code, none⟩]
    ∧ (∀ m ∈ marks .php code, m.inString = false → m.char ≠ '\r' ∧ [m.char] ∉ Profile.php.statementSeparators
        ∧ (isBlank m.char = true → m.char = ' ' ∨ m.char = '\n'))
    ∧ (marks .php code).countP (fun m => m.char == ';') = 1
    ∧ ∀ before after, marks .php code = before ++ ⟨' ', false⟩ :: after →
        (∃ m, before.getLast? = some m ∧ isBlank m.char = false)
        ∧ ∀ m, after.head? = some m →
          m.char ≠ ' ' ∧ m.char ≠ '\n' ∧ (m.inString = false → [m.char] ∉ Profile.php.noSpaceBefore) := by
  intro source code
  have read : segments .php source = [⟨code, none⟩] := by decide +kernel
  obtain ⟨-, normal⟩ := segments_normal (p := .php) (by simp; decide) (by simp; decide) source
  obtain ⟨clean, space, -⟩ := normal ⟨code, none⟩ (read ▸ List.mem_singleton_self _)
  exact ⟨read, clean, by decide +kernel, space⟩

end Scan

end Marginalia
