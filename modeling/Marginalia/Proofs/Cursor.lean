import Marginalia.Proofs.Slices
import Mathlib.Logic.Relation

/-!
# The reader as a loop over places

The reader of sources steps from character to character. Here it is a loop that holds a place in the source and moves
it on by whole markers, as long as the place is within the source, and that collects the skeleton as a list of texts,
the last of which it looks back at. Markers may be empty: an end marker without characters ends a comment where it
stands, and that turn of the loop takes nothing. The loop looks for characters that need not be there, so a turn may
fail. No turn does, every turn moves on or ends a comment, and the loop ends with the segments of the source.
-/

namespace Marginalia

/-- Where the loop stands. -/
inductive Zone where
  | outside
  | code
  | string
  | lineComment
  | blockComment
  deriving DecidableEq

/-- The zones that an end marker ends. -/
def Zone.isComment : Zone → Bool
  | .lineComment => true
  | .blockComment => true
  | _ => false

/-- What the loop keeps from turn to turn. -/
structure Cursor where
  zone : Zone
  /-- The next character to be looked at. -/
  place : Nat := 0
  /-- The parts of the skeleton, the last one first. -/
  parts : List Text := []
  /-- The quote that ends a string. -/
  quote : Text := []
  /-- The text of a documentation comment so far. -/
  doc : Option Text := none
  /-- The code before that comment. -/
  before : Text := []

namespace Cursor

open Scan

/-! ## The parts of the skeleton -/

/-- One space after the last part, unless it ends in a blank. A last part without characters is a failure. -/
def softSpace? : List Text → Option (List Text)
  | [] => some []
  | part :: rest => part.getLast?.map fun c => if isBlank c then part :: rest else [' '] :: part :: rest

/-- The parts without the spaces at their end. -/
def trimSpaces : List Text → List Text
  | [] => []
  | part :: rest => if part = [' '] then trimSpaces rest else part :: rest

/-- The parts with one more character of plain code. -/
def codeChar? (p : Profile) (parts : List Text) (c : Char) : Option (List Text) :=
  if c = '\r' then some parts
  else if p.statementSeparators.contains [c] then some (['\n'] :: trimSpaces parts)
  else if isBlank c then softSpace? parts
  else if p.noSpaceBefore.contains [c] then some ([c] :: trimSpaces parts)
  else some ([c] :: parts)

/-- The parts as one text. -/
def joined (parts : List Text) : Text := parts.reverse.flatten

/-! ## The loop -/

section Loop

variable (p : Profile) (source : Text)

/-- The start of the source or a blank is before a place. -/
def freshAt (place : Nat) : Bool := place == 0 || source[place - 1]?.any isBlank

/-- The loop before its first turn. -/
def start : Cursor where
  zone := if p.codeStart.isEmpty then .code else .outside

/-- A turn in code at the character `ch`. -/
def codeTurn (c : Cursor) (ch : Char) (here : Text) : Option Cursor :=
  match branch p (freshAt source c.place) ch here with
  | .codeEnd =>
    some { c with zone := .outside, parts := ['\n'] :: trimSpaces c.parts, place := c.place + p.codeEnd.length }
  | .quote => some { c with zone := .string, parts := [ch] :: c.parts, quote := [ch], place := c.place + 1 }
  | .lineComment => some { c with zone := .lineComment, place := c.place + p.lineComment.length }
  | .docComment =>
    some { c with
      zone := .blockComment
      parts := []
      doc := some []
      before := joined c.parts
      place := c.place + p.docCommentStart.length }
  | .blockComment => some { c with zone := .blockComment, place := c.place + p.blockCommentStart.length }
  | .plain => (codeChar? p c.parts ch).map fun parts => { c with parts, place := c.place + 1 }

/-- The end marker of a comment without documentation. -/
def endComment (c : Cursor) (marker : Text) : Option Cursor :=
  (softSpace? c.parts).map fun parts => { c with zone := .code, parts, place := c.place + marker.length }

/-- One turn of the loop, and the segment that it puts out. It fails where a character is missing. -/
def turn (c : Cursor) : Option (Cursor × Option Segment) :=
  source[c.place]?.bind fun ch =>
    let here : Text := source.drop c.place
    let next : Cursor := { c with place := c.place + 1 }
    match c.zone with
    | .outside =>
      let marker := if stands p.codeStartFull here then p.codeStartFull else p.codeStart
      if here.startsWith p.codeStart then some ({ c with zone := .code, place := c.place + marker.length }, none)
      else some (next, none)
    | .code => (codeTurn p source c ch here).map (·, none)
    | .string =>
      if !p.escape.isEmpty && p.escape = [ch] then
        some ({ c with parts := here.take 2 :: c.parts, place := c.place + 2 }, none)
      else
        some ({ next with zone := if c.quote = [ch] then .code else .string, parts := [ch] :: c.parts }, none)
    | .lineComment =>
      if here.startsWith p.lineCommentEnd then (endComment c p.lineCommentEnd).map (·, none) else some (next, none)
    | .blockComment =>
      match c.doc with
      | none =>
        if here.startsWith p.blockCommentEnd then (endComment c p.blockCommentEnd).map (·, none) else some (next, none)
      | some text =>
        if here.startsWith p.blockCommentEnd then
          some ({ c with zone := .code, doc := none, place := c.place + p.blockCommentEnd.length },
            some ⟨c.before, some text⟩)
        else some ({ next with doc := some (text ++ [ch]) }, none)

/-- The loop takes a turn. -/
def Turn (c c' : Cursor) : Prop := c.place < source.length ∧ ∃ put, turn p source c = some (c', put)

/-- At most `n` turns of the loop, which ends with the source. -/
def turns : Nat → Cursor → Option (Cursor × List Segment)
  | 0, c => some (c, [])
  | n + 1, c =>
    if c.place < source.length then
      (turn p source c).bind fun done => (turns n done.1).map fun rest => (rest.1, done.2.toList ++ rest.2)
    else some (c, [])

/-- The segments put out after the loop. -/
def finish (c : Cursor) : List Segment :=
  (c.doc.map fun text => (⟨c.before, some text⟩ : Segment)).toList ++ [⟨joined c.parts, none⟩]

/-- A turn moves on, or ends a comment where it stands. -/
def Advances (c c' : Cursor) : Prop :=
  c.place < c'.place ∨ c.zone.isComment = true ∧ c'.zone = .code ∧ c'.place = c.place

/-- How many turns there can still be. -/
def turnsLeft (c : Cursor) : Nat := 2 * (source.length - c.place) + c.zone.isComment.toNat

end Loop

/-! ## Parts and pieces -/

theorem softSpace?_map (skeleton : Skeleton) :
    softSpace? (skeleton.map Piece.text) = some (skeleton.softSpace.map Piece.text) := by
  cases skeleton with
  | nil => rfl
  | cons piece rest =>
    have last : piece.text.getLast? = some piece.last := by cases piece <;> rfl
    simp only [List.map_cons, softSpace?, last, Option.map_some, Skeleton.softSpace]
    split <;> rfl

theorem trimSpaces_map (skeleton : Skeleton) :
    trimSpaces (skeleton.map Piece.text) = skeleton.trim.map Piece.text := by
  induction skeleton with
  | nil => rfl
  | cons piece rest ih =>
    rw [List.map_cons, trimSpaces]
    split
    · next space =>
      obtain rfl : piece = .one ' ' := by
        cases piece with
        | one c => exact congrArg Piece.one (List.singleton_inj.mp space)
        | two c d => cases space
      rw [ih, Skeleton.trim]
    · next other =>
      rw [Skeleton.trim]
      · rfl
      · intro rest' same
        cases same
        exact other rfl

theorem codeChar?_map (p : Profile) (skeleton : Skeleton) (c : Char) :
    codeChar? p (skeleton.map Piece.text) c = some ((codeChar p skeleton c).map Piece.text) := by
  unfold codeChar? codeChar
  split
  · rfl
  · split
    · rw [trimSpaces_map]
      rfl
    · split
      · exact softSpace?_map skeleton
      · split
        · rw [trimSpaces_map]
          rfl
        · rfl

theorem joined_map (skeleton : Skeleton) : joined (skeleton.map Piece.text) = skeleton.text := by
  rw [joined, ← List.map_reverse, ← List.flatMap_def]
  rfl

/-! ## The loop and the reader -/

/-- The loop stands where the reader stands. -/
def Zoned (p : Profile) (c : Cursor) : Mode → Prop
  | .outside => c.zone = .outside ∧ c.doc = none ∧ p.codeStart ≠ []
  | .code => c.zone = .code ∧ c.doc = none
  | .string quote => c.zone = .string ∧ c.doc = none ∧ c.quote = [quote]
  | .lineComment => c.zone = .lineComment ∧ c.doc = none
  | .blockComment => c.zone = .blockComment ∧ c.doc = none
  | .docComment code text => c.zone = .blockComment ∧ c.doc = some text.reverse ∧ c.before = code

/-- The loop before a turn and the reader before a character that belongs to no marker. -/
structure Fits (p : Profile) (source : Text) (c : Cursor) (s : State) : Prop where
  zone : Zoned p c s.mode
  skip : s.skip = 0
  fresh : s.fresh = freshAt source c.place
  parts : c.parts = s.skeleton.map Piece.text

section Fits

variable {p : Profile} {source : Text} {c c' : Cursor} {s : State}

theorem fits_start (p : Profile) (source : Text) : Fits p source (start p) (Scan.start p) where
  zone := by
    unfold Scan.start start
    cases content : p.codeStart with
    | nil => exact ⟨rfl, rfl⟩
    | cons c rest => exact ⟨rfl, rfl, by simp [content]⟩
  skip := rfl
  fresh := rfl
  parts := rfl

theorem finish_eq (fits : Fits p source c s) : c.finish = Scan.finish s := by
  obtain ⟨mode, skip, fresh, skeleton⟩ := s
  obtain ⟨zoned, -, -, parts⟩ := fits
  dsimp only at zoned parts
  unfold finish Scan.finish
  rw [parts, joined_map]
  cases mode with
  | docComment code text =>
    obtain ⟨-, doc, before⟩ := zoned
    rw [doc, before]
    rfl
  | outside => rw [zoned.2.1]; rfl
  | code => rw [zoned.2]; rfl
  | string quote => rw [zoned.2.1]; rfl
  | lineComment => rw [zoned.2]; rfl
  | blockComment => rw [zoned.2]; rfl

theorem getElem?_place {ch : Char} {after : Text} {place : Nat} (here : source.drop place = ch :: after) :
    source[place]? = some ch := by
  rw [← List.head?_drop, here]
  rfl

theorem place_lt {ch : Char} {after : Text} {place : Nat} (here : source.drop place = ch :: after) :
    place < source.length :=
  (List.getElem?_eq_some_iff.mp (getElem?_place here)).1

theorem freshAt_succ {ch : Char} {after : Text} {place : Nat} (here : source.drop place = ch :: after) :
    freshAt source (place + 1) = isBlank ch := by
  simp [freshAt, getElem?_place here]

/-- The reader skips the rest of a marker. -/
theorem run_skip {n place : Nat} (skip : s.skip = n) (fresh : s.fresh = freshAt source place)
    (inside : place + n ≤ source.length) :
    run p s (source.drop place)
      = run p { s with skip := 0, fresh := freshAt source (place + n) } (source.drop (place + n)) := by
  induction n generalizing s place with
  | zero =>
    obtain ⟨mode, _, _, skeleton⟩ := s
    cases skip
    cases fresh
    rfl
  | succ n ih =>
    obtain ⟨ch, after, here⟩ : ∃ ch after, source.drop place = ch :: after :=
      List.exists_cons_of_ne_nil (by simp only [ne_eq, List.drop_eq_nil_iff]; omega)
    have next : source.drop (place + 1) = after := by rw [← List.drop_drop, here]; rfl
    have stepped : step p s ch after = ({ s with skip := n, fresh := isBlank ch }, none) := by
      rw [step, skip]
    rw [here, run, stepped, ← next]
    dsimp only
    rw [ih rfl (freshAt_succ here).symm (by omega), Nat.add_right_comm, Nat.add_assoc]

/-- A character that the reader visits, and the rest of the marker that starts there. -/
theorem run_visit {ch : Char} {after : Text} {place : Nat} {t : State} {put : Option Segment}
    (here : source.drop place = ch :: after) (skip : s.skip = 0)
    (visited : visit p s ch (ch :: after) = (t, put)) (inside : place + 1 + t.skip ≤ source.length) :
    run p s (source.drop place) = put.toList ++ run p { t with skip := 0, fresh := freshAt source (place + 1 + t.skip) }
      (source.drop (place + 1 + t.skip)) := by
  have next : source.drop (place + 1) = after := by rw [← List.drop_drop, here]; rfl
  have stepped : step p s ch after = ({ t with fresh := isBlank ch }, put) := by
    rw [step, skip]
    dsimp only
    rw [visited]
  have rest := run_skip (p := p) (s := { t with fresh := isBlank ch }) rfl (freshAt_succ here).symm inside
  rw [here, run, stepped, ← next]
  cases put with
  | none => exact rest
  | some segment => exact congrArg (segment :: ·) rest

/-- A character that counts for nothing: the reader might as well have been in another state. -/
theorem run_of_visit {ch : Char} {after : Text} {t : State} {put : Option Segment} (skip : s.skip = 0)
    (skip' : t.skip = 0) (silent : (visit p t ch (ch :: after)).2 = none)
    (visited : visit p s ch (ch :: after) = ((visit p t ch (ch :: after)).1, put)) :
    run p s (ch :: after) = put.toList ++ run p t (ch :: after) := by
  have stepped : step p s ch after = ((step p t ch after).1, put) := by
    rw [step, skip, step, skip']
    dsimp only
    rw [visited]
  have quiet : (step p t ch after).2 = none := by
    rw [step, skip']
    exact silent
  rw [run_of_none quiet, run, stepped]
  cases put with
  | none => rfl
  | some segment => rfl

/-- The next turn does not fail, moves on, and keeps the loop where the reader is. -/
def Follows (p : Profile) (source : Text) (c : Cursor) (s : State) : Prop :=
  ∃ c' put s', turn p source c = some (c', put) ∧ c.Advances c' ∧ Fits p source c' s'
    ∧ run p s (source.drop c.place) = put.toList ++ run p s' (source.drop c'.place)

variable {ch : Char} {after : Text} {put : Option Segment}

/-- A turn that takes what the reader takes with one character and the rest of its marker. -/
theorem follows_of_visit {t : State} (fits : Fits p source c s) (here : source.drop c.place = ch :: after)
    (turned : turn p source c = some (c', put)) (visited : visit p s ch (ch :: after) = (t, put))
    (place : c'.place = c.place + 1 + t.skip) (inside : c'.place ≤ source.length) (zone : Zoned p c' t.mode)
    (parts : c'.parts = t.skeleton.map Piece.text) : Follows p source c s := by
  refine ⟨c', put, { t with skip := 0, fresh := freshAt source c'.place }, turned, .inl (by omega), ?_, ?_⟩
  · exact ⟨zone, rfl, rfl, parts⟩
  · rw [place]
    exact run_visit here fits.skip visited (by omega)

/-- A turn that takes a marker. -/
theorem follows_of_marker {t : State} {mode : Mode} {marker : Text} (fits : Fits p source c s)
    (here : source.drop c.place = ch :: after) (turned : turn p source c = some (c', put))
    (visited : visit p s ch (ch :: after) = (t.past mode marker, put)) (there : stands marker (ch :: after) = true)
    (place : c'.place = c.place + marker.length) (zone : Zoned p c' mode)
    (parts : c'.parts = t.skeleton.map Piece.text) : Follows p source c s := by
  simp only [stands, Bool.and_eq_true, Bool.not_eq_true', List.isEmpty_eq_false_iff] at there
  have some := List.length_pos_iff.mpr there.1
  have short := (List.isPrefixOf_iff_prefix.mp there.2).length_le
  rw [← here, List.length_drop] at short
  have inside := place_lt here
  refine follows_of_visit fits here turned visited ?_ ?_ zone parts
  · show c'.place = c.place + 1 + (marker.length - 1)
    omega
  · omega

/-- A turn that ends a comment. If the end marker is empty, the reader takes the character as code at once. -/
theorem follows_of_leave {t : State} {marker : Text} (fits : Fits p source c s)
    (here : source.drop c.place = ch :: after) (turned : turn p source c = some (c', put))
    (visited : visit p s ch (ch :: after) = (leave p t marker ch (ch :: after), put))
    (starts : Text.startsWith (ch :: after) marker = true) (comment : c.zone.isComment = true) (zone : Zoned p c' .code)
    (place : c'.place = c.place + marker.length) (skip : t.skip = 0) (fresh : t.fresh = s.fresh)
    (parts : c'.parts = t.skeleton.map Piece.text) : Follows p source c s := by
  cases marker with
  | nil =>
    have same : c'.place = c.place := place
    refine ⟨c', put, { t with mode := .code }, turned, .inr ⟨comment, zone.1, same⟩, ?_, ?_⟩
    · exact ⟨zone, skip, by rw [same, ← fits.fresh, ← fresh], parts⟩
    · rw [same, here]
      exact run_of_visit fits.skip skip rfl visited
  | cons m rest => exact follows_of_marker fits here turned visited starts place zone parts

/-- A turn that passes a character. -/
theorem follows_of_pass (fits : Fits p source c s) (here : source.drop c.place = ch :: after)
    (turned : turn p source c = some ({ c with place := c.place + 1 }, none))
    (visited : visit p s ch (ch :: after) = (s, none)) : Follows p source c s := by
  refine follows_of_visit fits here turned visited ?_ ?_ fits.zone fits.parts
  · rw [fits.skip]
  · exact place_lt here

/-- A comment without documentation, which lasts up to its end marker. -/
theorem follows_of_comment (marker : Text) (fits : Fits p source c s) (here : source.drop c.place = ch :: after)
    (comment : c.zone.isComment = true) (doc : c.doc = none)
    (turned : turn p source c = if Text.startsWith (ch :: after) marker then (endComment c marker).map (·, none)
      else some ({ c with place := c.place + 1 }, none))
    (visited : visit p s ch (ch :: after) = if Text.startsWith (ch :: after) marker then
      (leave p { s with skeleton := s.skeleton.softSpace } marker ch (ch :: after), none) else (s, none)) :
    Follows p source c s := by
  cases starts : Text.startsWith (ch :: after) marker with
  | false =>
    rw [starts] at turned visited
    exact follows_of_pass fits here turned visited
  | true =>
    rw [starts] at turned visited
    rw [endComment, fits.parts, softSpace?_map] at turned
    exact follows_of_leave fits here turned visited starts comment ⟨rfl, doc⟩ rfl fits.skip rfl rfl

/-- What stands where the reader comes upon something in code. -/
def Comes (p : Profile) (here : Text) : Branch → Prop
  | .codeEnd => p.codeStart ≠ [] ∧ stands p.codeEnd here = true
  | .lineComment => stands p.lineComment here = true
  | .docComment => stands p.docCommentStart here = true
  | .blockComment => stands p.blockCommentStart here = true
  | .quote => True
  | .plain => True

theorem comes_branch (p : Profile) (fresh : Bool) (ch : Char) (here : Text) :
    Comes p here (branch p fresh ch here) := by
  unfold branch
  split
  · next found =>
    rw [Bool.and_eq_true, Bool.not_eq_true', List.isEmpty_eq_false_iff] at found
    exact found
  · split
    · trivial
    · split
      · next found => exact found
      · split
        · next found =>
          simp only [opensDoc, Bool.and_eq_true] at found
          exact Bool.and_eq_true_iff.mpr found.1.1
        · split
          · next found => exact found
          · trivial

theorem follows_code (fits : Fits p source c s) (here : source.drop c.place = ch :: after) (mode : s.mode = .code) :
    Follows p source c s := by
  obtain ⟨zone, doc⟩ : Zoned p c .code := mode ▸ fits.zone
  have visited : visit p s ch (ch :: after) = (s.follow p ch (branch p s.fresh ch (ch :: after)), none) := by
    simp only [visit, mode, codeStep_eq_follow]
  have turned : turn p source c = (codeTurn p source c ch (ch :: after)).map (·, none) := by
    simp only [turn, getElem?_place here, Option.bind_some, zone, here]
  have there := comes_branch p s.fresh ch (ch :: after)
  unfold codeTurn at turned
  rw [← fits.fresh] at turned
  cases found : branch p s.fresh ch (ch :: after) with
  | codeEnd =>
    rw [found] at visited turned there
    apply follows_of_marker fits here turned visited there.2 rfl ⟨rfl, doc, there.1⟩
    rw [fits.parts, trimSpaces_map]
    rfl
  | quote =>
    rw [found] at visited turned
    refine follows_of_visit fits here turned visited ?_ (place_lt here) ⟨rfl, doc, rfl⟩ ?_
    · simp [State.follow, fits.skip]
    · rw [fits.parts]
      rfl
  | lineComment =>
    rw [found] at visited turned there
    exact follows_of_marker fits here turned visited there rfl ⟨rfl, doc⟩ fits.parts
  | docComment =>
    rw [found] at visited turned there
    have before : joined c.parts = s.skeleton.text := by rw [fits.parts, joined_map]
    exact follows_of_marker fits here turned visited there rfl ⟨rfl, rfl, before⟩ rfl
  | blockComment =>
    rw [found] at visited turned there
    exact follows_of_marker fits here turned visited there rfl ⟨rfl, doc⟩ fits.parts
  | plain =>
    rw [found] at visited turned
    dsimp only at turned
    rw [fits.parts, codeChar?_map] at turned
    refine follows_of_visit fits here turned visited ?_ (place_lt here) ⟨zone, doc⟩ rfl
    simp [State.follow, fits.skip]

theorem follows_outside (fits : Fits p source c s) (here : source.drop c.place = ch :: after)
    (mode : s.mode = .outside) : Follows p source c s := by
  obtain ⟨zone, doc, content⟩ : Zoned p c .outside := mode ▸ fits.zone
  cases starts : Text.startsWith (ch :: after) p.codeStart with
  | false =>
    have turned : turn p source c = some ({ c with place := c.place + 1 }, none) := by
      simp [turn, getElem?_place here, zone, here, starts]
    have visited : visit p s ch (ch :: after) = (s, none) := by simp [visit, mode, starts]
    exact follows_of_pass fits here turned visited
  | true =>
    cases full : stands p.codeStartFull (ch :: after) with
    | false =>
      have turned : turn p source c = some ({ c with zone := .code, place := c.place + p.codeStart.length }, none) := by
        simp [turn, getElem?_place here, zone, here, starts, full]
      have visited : visit p s ch (ch :: after) = (s.past .code p.codeStart, none) := by
        simp [visit, mode, starts, full]
      have there : stands p.codeStart (ch :: after) = true := by simp [stands, starts, content]
      exact follows_of_marker fits here turned visited there rfl ⟨rfl, doc⟩ fits.parts
    | true =>
      have turned : turn p source c
          = some ({ c with zone := .code, place := c.place + p.codeStartFull.length }, none) := by
        simp [turn, getElem?_place here, zone, here, starts, full]
      have visited : visit p s ch (ch :: after) = (s.past .code p.codeStartFull, none) := by
        simp [visit, mode, starts, full]
      exact follows_of_marker fits here turned visited full rfl ⟨rfl, doc⟩ fits.parts

/-- An escape takes the next character with it, whatever it is. -/
theorem follows_escape {quote : Char} (fits : Fits p source c s) (here : source.drop c.place = ch :: after)
    (mode : s.mode = .string quote) (escaped : p.escape = [ch]) : Follows p source c s := by
  obtain ⟨zone, doc, ends⟩ : Zoned p c (.string quote) := mode ▸ fits.zone
  have turned : turn p source c
      = some ({ c with parts := (ch :: after).take 2 :: c.parts, place := c.place + 2 }, none) := by
    simp [turn, getElem?_place here, zone, here, escaped]
  have length := congrArg List.length here
  rw [List.length_drop, List.length_cons] at length
  cases after with
  | nil =>
    -- the source ends with the escape, and the place is one past its end
    have visited : visit p s ch [ch] = ({ s with skeleton := .one ch :: s.skeleton }, none) := by
      simp [visit, mode, escaped]
    have read := run_visit here fits.skip visited (by simp [fits.skip]; omega)
    have nothingLeft (n : Nat) : source.drop (c.place + 1 + n) = [] := by
      rw [List.drop_eq_nil_iff]
      rw [List.length_nil] at length
      omega
    refine ⟨_, none, { s with
      skip := 0, fresh := freshAt source (c.place + 2), skeleton := .one ch :: s.skeleton }, turned, .inl ?_, ?_, ?_⟩
    · show c.place < c.place + 2
      omega
    · exact ⟨mode ▸ ⟨zone, doc, ends⟩, rfl, rfl, by rw [fits.parts]; rfl⟩
    · rw [read, nothingLeft, nothingLeft 1]
      rfl
  | cons d rest =>
    have visited : visit p s ch (ch :: d :: rest)
        = ({ s with skip := 1, skeleton := .two ch d :: s.skeleton }, none) := by
      simp [visit, mode, escaped]
    refine follows_of_visit fits here turned visited rfl ?_ (mode ▸ ⟨zone, doc, ends⟩) ?_
    · show c.place + 2 ≤ source.length
      rw [List.length_cons] at length
      omega
    · rw [fits.parts]
      rfl

theorem follows_string {quote : Char} (fits : Fits p source c s) (here : source.drop c.place = ch :: after)
    (mode : s.mode = .string quote) : Follows p source c s := by
  by_cases escaped : p.escape = [ch]
  · exact follows_escape fits here mode escaped
  · obtain ⟨zone, doc, ends⟩ : Zoned p c (.string quote) := mode ▸ fits.zone
    have turned : turn p source c = some ({ c with
        place := c.place + 1, zone := if c.quote = [ch] then .code else .string, parts := [ch] :: c.parts }, none) := by
      simp [turn, getElem?_place here, zone, here, escaped]
    have visited : visit p s ch (ch :: after)
        = ({ s with mode := if ch = quote then .code else s.mode, skeleton := .one ch :: s.skeleton }, none) := by
      simp [visit, mode, escaped]
    refine follows_of_visit fits here turned visited ?_ (place_lt here) ?_ ?_
    · simp [fits.skip]
    · by_cases last : ch = quote
      · simp [Zoned, last, ends, doc]
      · simp [Zoned, last, ends, doc, mode, eq_comm]
    · rw [fits.parts]
      rfl

theorem follows_lineComment (fits : Fits p source c s) (here : source.drop c.place = ch :: after)
    (mode : s.mode = .lineComment) : Follows p source c s := by
  obtain ⟨zone, doc⟩ : Zoned p c .lineComment := mode ▸ fits.zone
  have comment : c.zone.isComment = true := by rw [zone]; rfl
  apply follows_of_comment p.lineCommentEnd fits here comment doc
  · simp only [turn, getElem?_place here, Option.bind_some, zone, here]
  · simp only [visit, mode]

theorem follows_blockComment (fits : Fits p source c s) (here : source.drop c.place = ch :: after)
    (mode : s.mode = .blockComment) : Follows p source c s := by
  obtain ⟨zone, doc⟩ : Zoned p c .blockComment := mode ▸ fits.zone
  have comment : c.zone.isComment = true := by rw [zone]; rfl
  apply follows_of_comment p.blockCommentEnd fits here comment doc
  · simp only [turn, getElem?_place here, Option.bind_some, zone, here, doc]
  · simp only [visit, mode]

theorem follows_docComment {code text : Text} (fits : Fits p source c s) (here : source.drop c.place = ch :: after)
    (mode : s.mode = .docComment code text) : Follows p source c s := by
  obtain ⟨zone, doc, before⟩ : Zoned p c (.docComment code text) := mode ▸ fits.zone
  cases starts : Text.startsWith (ch :: after) p.blockCommentEnd with
  | false =>
    have turned : turn p source c
        = some ({ c with place := c.place + 1, doc := some (text.reverse ++ [ch]) }, none) := by
      simp [turn, getElem?_place here, zone, here, starts, doc]
    have visited : visit p s ch (ch :: after) = ({ s with mode := .docComment code (ch :: text) }, none) := by
      simp [visit, mode, starts]
    refine follows_of_visit fits here turned visited ?_ ?_ ⟨zone, by simp, before⟩ fits.parts
    · simp [fits.skip]
    · exact place_lt here
  | true =>
    have turned : turn p source c = some ({ c with
        zone := .code, doc := none, place := c.place + p.blockCommentEnd.length }, some ⟨code, some text.reverse⟩) := by
      simp [turn, getElem?_place here, zone, here, starts, doc, before]
    have visited : visit p s ch (ch :: after)
        = (leave p s p.blockCommentEnd ch (ch :: after), some ⟨code, some text.reverse⟩) := by
      simp [visit, mode, starts]
    exact follows_of_leave fits here turned visited starts (by rw [zone]; rfl) ⟨rfl, rfl⟩ rfl fits.skip rfl fits.parts

/-- No turn within the source fails. -/
theorem follows (fits : Fits p source c s) (inside : c.place < source.length) : Follows p source c s := by
  obtain ⟨ch, after, here⟩ : ∃ ch after, source.drop c.place = ch :: after :=
    List.exists_cons_of_ne_nil (by simpa using inside)
  cases mode : s.mode with
  | outside => exact follows_outside fits here mode
  | code => exact follows_code fits here mode
  | string quote => exact follows_string fits here mode
  | lineComment => exact follows_lineComment fits here mode
  | blockComment => exact follows_blockComment fits here mode
  | docComment code text => exact follows_docComment fits here mode

theorem turnsLeft_lt (inside : c.place < source.length) (advances : c.Advances c') :
    turnsLeft source c' < turnsLeft source c := by
  unfold turnsLeft
  rcases advances with further | ⟨comment, code, same⟩
  · have := Bool.toNat_le c'.zone.isComment
    omega
  · rw [comment, code, same]
    simp [Zone.isComment]

/-- With a turn for each that may be left, the loop ends, and has put out what the reader puts out. -/
theorem exists_turns {n : Nat} (fits : Fits p source c s) (enough : turnsLeft source c ≤ n) :
    ∃ last segs, turns p source n c = some (last, segs) ∧ source.length ≤ last.place
      ∧ segs ++ last.finish = run p s (source.drop c.place) := by
  induction n generalizing c s with
  | zero =>
    have ended : source.length ≤ c.place := by
      unfold turnsLeft at enough
      omega
    refine ⟨c, [], rfl, ended, ?_⟩
    rw [List.drop_eq_nil_iff.mpr ended, List.nil_append, finish_eq fits]
    rfl
  | succ n ih =>
    by_cases inside : c.place < source.length
    · obtain ⟨c', put, s', turned, advances, fits', read⟩ := follows fits inside
      have fewer := turnsLeft_lt inside advances
      obtain ⟨last, segs, rest, ended, same⟩ := ih fits' (by omega)
      refine ⟨last, put.toList ++ segs, ?_, ended, ?_⟩
      · simp only [turns, inside, if_true, turned, Option.bind_some, rest, Option.map_some]
      · rw [List.append_assoc, same, read]
    · have ended : source.length ≤ c.place := not_lt.mp inside
      refine ⟨c, [], by rw [turns, if_neg inside], ended, ?_⟩
      rw [List.drop_eq_nil_iff.mpr ended, List.nil_append, finish_eq fits]
      rfl

/-- Wherever the loop comes, it stands where the reader stands. -/
theorem exists_fits (reached : Relation.ReflTransGen (Turn p source) (start p) c) : ∃ s, Fits p source c s := by
  induction reached with
  | refl => exact ⟨Scan.start p, fits_start p source⟩
  | tail _ turn ih =>
    obtain ⟨s, fits⟩ := ih
    obtain ⟨inside, put, turned⟩ := turn
    obtain ⟨c', put', s', turned', -, fits', -⟩ := follows fits inside
    cases turned.symm.trans turned'
    exact ⟨s', fits'⟩

end Fits

end Cursor

end Marginalia
