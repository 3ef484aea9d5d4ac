import Marginalia.Proofs.Php

/-!
# Documentation comments as slices of the source

The text of a documentation comment is put together character by character while the reader steps over the source.
It is a slice of the source nevertheless: from after the marker that opened the comment up to the one that ends it, or
up to the end of the source. The slices of a source follow each other in order and do not overlap.
-/

namespace Marginalia.Scan

/-- A text stands in the source from after the marker `opener` at the place `a` up to the place `b`. A blank is before
    the marker and at the start of the text, and the marker `closer` is nowhere but at the end of the text, unless the
    source ends there. -/
structure Slice (opener closer source : Text) (a b : Nat) (text : Text) : Prop where
  after_blank : ∃ n c, a = n + 1 ∧ source[n]? = some c ∧ isBlank c = true
  opened : source.extract a (a + opener.length) = opener
  text_eq : source.extract (a + opener.length) b = text
  ordered : a + opener.length ≤ b
  starts_blank : ∀ c ∈ text.head?, isBlank c = true
  unended : text.includes closer = false
  ended : source.extract b (b + closer.length) = closer ∨ b = source.length

/-- Segments with slices of the source, one after the other from the place `n` on. -/
inductive Cut (opener closer source : Text) : Nat → List Segment → Prop where
  | last {n : Nat} {code : Text} : Cut opener closer source n [⟨code, none⟩]
  | doc {n a b : Nat} {code text : Text} {rest : List Segment} (start : n ≤ a)
    (slice : Slice opener closer source a b text) (later : Cut opener closer source (b + 1) rest) :
    Cut opener closer source n (⟨code, some text⟩ :: rest)

section Cut

variable {opener closer source : Text} {m n : Nat} {segs : List Segment}

theorem Cut.of_le (cut : Cut opener closer source n segs) (before : m ≤ n) : Cut opener closer source m segs := by
  cases cut with
  | last => exact .last
  | doc start slice later => exact .doc (before.trans start) slice later

theorem Slice.le_length {a b : Nat} {text : Text} (slice : Slice opener closer source a b text) :
    a ≤ source.length := by
  obtain ⟨n, c, rfl, found, -⟩ := slice.after_blank
  exact (List.getElem?_eq_some_iff.mp found).1

/-- The places of the slices. Each ends before the next one starts, so only the last one can end with the source. -/
theorem Cut.exists_spans (cut : Cut opener closer source n segs) :
    ∃ (docs : List (Text × Text)) (last : Text) (spans : List (Nat × Nat)),
      segs = docs.map (fun doc => ⟨doc.1, some doc.2⟩) ++ [⟨last, none⟩]
      ∧ List.Forall₂ (fun doc span => Slice opener closer source span.1 span.2 doc.2) docs spans
      ∧ spans.IsChain (fun x y => x.2 < y.1)
      ∧ (∀ span ∈ spans.dropLast, source.extract span.2 (span.2 + closer.length) = closer)
      ∧ ∀ span ∈ spans.head?, n ≤ span.1 := by
  induction cut with
  | @last n code => exact ⟨[], code, [], rfl, .nil, .nil, by simp, by simp⟩
  | @doc n a b code text rest start slice later ih =>
    obtain ⟨docs, last, spans, rfl, slices, chain, ended, first⟩ := ih
    refine ⟨(code, text) :: docs, last, (a, b) :: spans, rfl, .cons slice slices, ?_, ?_, ?_⟩
    · exact chain.cons fun span member => first span member
    · cases slices with
      | nil => simp
      | @cons doc span docs spans next others =>
        -- another slice follows, so the source does not end here
        rw [List.dropLast_cons_cons, List.forall_mem_cons]
        refine ⟨slice.ended.resolve_right fun atEnd => ?_, ended⟩
        have follows : b + 1 ≤ span.1 := first span rfl
        have inside := next.le_length
        omega
    · rintro span ⟨⟩
      exact start

end Cut

/-! ## One step -/

/-- The reader is in a documentation comment. -/
def Mode.isDoc : Mode → Bool
  | .docComment _ _ => true
  | _ => false

theorem step_fresh (p : Profile) (s : State) (c : Char) (after : Text) : (step p s c after).1.fresh = isBlank c := by
  unfold step
  split <;> rfl

section Step

variable {p : Profile} {s : State} {c : Char} {after : Text}

/-- A comment is opened by its marker, and nothing of it has been read yet. -/
structure Opens (p : Profile) (fresh : Bool) (here : Text) (next : State) : Prop where
  opensDoc : opensDoc p fresh here = true
  mode : ∃ code, next.mode = .docComment code []
  skip : next.skip = p.docCommentStart.length - 1

theorem codeStep_cases (p : Profile) (s : State) (c : Char) (here : Text) :
    (codeStep p s c here).mode.isDoc = false ∨ Opens p s.fresh here (codeStep p s c here) := by
  rw [codeStep_eq_follow]
  cases found : branch p s.fresh c here with
  | docComment =>
    right
    refine ⟨?_, ⟨_, rfl⟩, rfl⟩
    by_contra closed
    unfold branch at found
    rw [if_neg closed] at found
    repeat' split at found
    all_goals cases found
  | _ => exact .inl rfl

theorem leave_cases (p : Profile) (s : State) (marker : Text) (c : Char) (here : Text) :
    (leave p s marker c here).mode.isDoc = false ∨ Opens p s.fresh here (leave p s marker c here) := by
  unfold leave
  split
  · exact codeStep_cases p { s with mode := .code } c here
  · exact .inl rfl

/-- A step that starts in no documentation comment goes on without one, or opens one. -/
theorem visit_cases (plain : s.mode.isDoc = false) (here : Text) :
    (visit p s c here).1.mode.isDoc = false ∨ s.mode ≠ .outside ∧ Opens p s.fresh here (visit p s c here).1 := by
  unfold visit
  cases mode : s.mode with
  | outside =>
    left
    dsimp only
    split
    · rfl
    · split
      · rfl
      · exact plain
  | code => exact (codeStep_cases p s c here).imp_right fun opens => ⟨by simp, opens⟩
  | string quote =>
    left
    dsimp only
    split
    · split
      · rfl
      · rfl
    · dsimp only
      split
      · rfl
      · rfl
  | lineComment =>
    dsimp only
    split
    · exact (leave_cases p _ _ c here).imp_right fun opens => ⟨by simp, opens⟩
    · exact .inl plain
  | blockComment =>
    dsimp only
    split
    · exact (leave_cases p _ _ c here).imp_right fun opens => ⟨by simp, opens⟩
    · exact .inl plain
  | docComment code text =>
    rw [mode] at plain
    cases plain

theorem step_cases (plain : s.mode.isDoc = false) :
    (step p s c after).1.mode.isDoc = false
      ∨ s.mode ≠ .outside ∧ Opens p s.fresh (c :: after) (step p s c after).1 := by
  unfold step
  split
  · exact .inl plain
  · rcases visit_cases (p := p) (c := c) plain (c :: after) with plain | ⟨inside, opens⟩
    · exact .inl plain
    · exact .inr ⟨inside, opens.opensDoc, opens.mode, opens.skip⟩

theorem run_of_none (none : (step p s c after).2 = none) : run p s (c :: after) = run p (step p s c after).1 after := by
  rw [run]
  split
  · next put =>
    rw [put] at none
    cases none
  · next stepped => rw [stepped]

theorem run_of_some {segment : Segment} (put : (step p s c after).2 = some segment) :
    run p s (c :: after) = segment :: run p (step p s c after).1 after := by
  rw [run]
  split
  · next stepped =>
    rw [stepped] at put ⊢
    cases put
    rfl
  · next stepped =>
    rw [stepped] at put
    cases put

theorem step_none (plain : s.mode.isDoc = false) : (step p s c after).2 = none := by
  rw [Option.eq_none_iff_forall_ne_some]
  intro segment put
  obtain ⟨-, code, text, mode, -, -⟩ := step_eq_some put
  rw [mode] at plain
  cases plain

end Step

/-! ## The reader in a comment -/

/-- The reader has read `before`, of which `front` stands before the marker of a comment, and the text of the comment
    so far. Of the text that follows, `skip` characters belong to the marker. -/
structure Reads (p : Profile) (front before after : Text) (skip : Nat) (text : Text) : Prop where
  after_blank : ∃ t c, front = t ++ [c] ∧ isBlank c = true
  read : before ++ after.take skip = front ++ (p.docCommentStart ++ text.reverse)
  starts_blank : ∀ c ∈ (text.reverse ++ after.drop skip).head?, isBlank c = true
  unended : Unended p (after.drop skip) text.reverse

section Reads

variable {p : Profile} {front before after text : Text} {c : Char} {skip : Nat}

theorem unended_concat {rest part : Text} (unended : Unended p (c :: rest) part)
    (here : Text.startsWith (c :: rest) p.blockCommentEnd = false) : Unended p rest (part ++ [c]) := by
  induction part with
  | nil => exact ⟨here, trivial⟩
  | cons d part ih =>
    obtain ⟨first, later⟩ := unended
    rw [List.cons_append]
    refine ⟨?_, ih later⟩
    rw [List.append_assoc]
    exact first

theorem includes_of_unended (content : p.blockCommentEnd ≠ []) {rest part : Text} (unended : Unended p rest part) :
    part.includes p.blockCommentEnd = false := by
  induction part with
  | nil =>
    rw [Bool.eq_false_iff, Ne, Text.includes_iff_infix, List.infix_nil]
    exact content
  | cons c part ih =>
    obtain ⟨here, later⟩ := unended
    rw [Text.includes_cons, ih later, Bool.or_false, Bool.eq_false_iff, Ne, List.isPrefixOf_iff_prefix]
    intro start
    rw [Text.startsWith, Bool.eq_false_iff, Ne, List.isPrefixOf_iff_prefix] at here
    exact here (start.trans (List.prefix_append (c :: part) rest))

theorem Reads.pass (reads : Reads p front before (c :: after) (skip + 1) text) :
    Reads p front (before ++ [c]) after skip text where
  after_blank := reads.after_blank
  read := by simpa using reads.read
  starts_blank := reads.starts_blank
  unended := reads.unended

theorem Reads.take (reads : Reads p front before (c :: after) 0 text)
    (here : Text.startsWith (c :: after) p.blockCommentEnd = false) :
    Reads p front (before ++ [c]) after 0 (c :: text) where
  after_blank := reads.after_blank
  read := by
    have read := reads.read
    rw [List.take_zero, List.append_nil] at read
    simp [read]
  starts_blank := by simpa using reads.starts_blank
  unended := by
    rw [List.reverse_cons]
    exact unended_concat reads.unended here

theorem extract_middle (x y z : Text) : (x ++ (y ++ z)).extract x.length (x.length + y.length) = y := by
  simp [List.extract_eq_take_drop]

/-- The text read is a slice if the comment ends here. -/
theorem Reads.slice (content : p.blockCommentEnd ≠ []) (reads : Reads p front before after 0 text)
    (ended : after = [] ∨ Text.startsWith after p.blockCommentEnd = true) :
    Slice p.docCommentStart p.blockCommentEnd (before ++ after) front.length before.length text.reverse := by
  have read : before = front ++ (p.docCommentStart ++ text.reverse) := by simpa using reads.read
  refine ⟨?_, ?_, ?_, ?_, ?_, includes_of_unended content reads.unended, ?_⟩
  · obtain ⟨t, c, rfl, blank⟩ := reads.after_blank
    refine ⟨t.length, c, by simp, ?_, blank⟩
    rw [read]
    simp
  · rw [read, List.append_assoc, List.append_assoc]
    exact extract_middle front _ _
  · have middle := extract_middle (front ++ p.docCommentStart) text.reverse after
    rw [read]
    simpa [Nat.add_assoc] using middle
  · rw [read]
    simp
  · intro c first
    apply reads.starts_blank
    rw [List.head?_append, first]
    rfl
  · rcases ended with rfl | ended
    · exact .inr (by rw [List.append_nil])
    · obtain ⟨rest, rfl⟩ := List.isPrefixOf_iff_prefix.mp ended
      exact .inl (extract_middle before _ rest)

theorem reads_of_opens {fresh : Bool} {next : State} (opens : Opens p fresh (c :: after) next)
    (blank : fresh = true → ∀ d ∈ before.getLast?, isBlank d = true) (begun : before ≠ []) :
    Reads p before (before ++ [c]) after next.skip [] := by
  have opensDoc := opens.opensDoc
  unfold Scan.opensDoc at opensDoc
  simp only [Bool.and_eq_true, Bool.not_eq_true', List.isEmpty_eq_false_iff] at opensDoc
  obtain ⟨⟨⟨content, starts⟩, isFresh⟩, apart⟩ := opensDoc
  obtain ⟨d, marker, whole⟩ := List.exists_cons_of_ne_nil content
  have skip : next.skip = marker.length := by simp [opens.skip, whole]
  rw [whole] at starts apart
  obtain ⟨rest, same⟩ := List.isPrefixOf_iff_prefix.mp starts
  rw [List.cons_append] at same
  obtain ⟨rfl, rfl⟩ := List.cons.inj same
  refine ⟨⟨before.dropLast, before.getLast begun, (List.dropLast_append_getLast begun).symm, ?_⟩, ?_, ?_, trivial⟩
  · exact blank isFresh _ (List.getLast?_eq_some_getLast begun)
  · simp [skip, whole]
  · rw [skip, List.drop_left, List.reverse_nil, List.nil_append]
    have follows : (d :: (marker ++ rest)).drop (d :: marker).length = rest := List.drop_left
    rw [follows] at apart
    intro e first
    cases rest with
    | nil => cases first
    | cons x rest =>
      cases first
      exact apart

end Reads

/-! ## The whole source -/

/-- What the reader remembers of what it has read: whether the last character is a blank, and that it is outside of
    the code at first. -/
structure After (before : Text) (s : State) : Prop where
  blank : s.fresh = true → ∀ c ∈ before.getLast?, isBlank c = true
  begun : s.mode = .outside ∨ before ≠ []

theorem after_step (p : Profile) (before : Text) (s : State) (c : Char) (rest : Text) :
    After (before ++ [c]) (step p s c rest).1 := by
  refine ⟨fun fresh d last => ?_, .inr (by simp)⟩
  rw [step_fresh] at fresh
  rw [List.getLast?_concat] at last
  cases last
  exact fresh

/-- What a run puts out after `before`: slices that start later, but for one of a comment that is being read, which
    starts at the end of what stands before its marker. -/
structure Cuts (p : Profile) (before : Text) (s : State) (rest : Text) : Prop where
  plain : s.mode.isDoc = false →
    Cut p.docCommentStart p.blockCommentEnd (before ++ rest) before.length (run p s rest)
  doc : ∀ front code text, s.mode = .docComment code text → Reads p front before rest s.skip text →
    Cut p.docCommentStart p.blockCommentEnd (before ++ rest) front.length (run p s rest)

section Run

variable {p : Profile} (content : p.blockCommentEnd ≠ []) {s : State} {c : Char} {before rest : Text}
include content

theorem cuts_nil : Cuts p before s [] where
  plain plain := by
    rw [run, finish]
    split
    · next mode =>
      rw [mode] at plain
      cases plain
    · exact .last
  doc front code text mode reads := by
    have reads : Reads p front before [] 0 text := by
      refine ⟨reads.after_blank, ?_, ?_, ?_⟩
      · simpa using reads.read
      · simpa using reads.starts_blank
      · simpa using reads.unended
    rw [run, finish, mode]
    exact .doc le_rfl (reads.slice content (.inl rfl)) .last

/-- A step in a documentation comment passes a character of the marker, ends the comment, or takes a character. -/
theorem step_doc {code text : Text} (mode : s.mode = .docComment code text) :
    (∃ skip, s.skip = skip + 1 ∧ step p s c rest = ({ s with skip, fresh := isBlank c }, none))
    ∨ s.skip = 0 ∧ Text.startsWith (c :: rest) p.blockCommentEnd = true
      ∧ (step p s c rest).1.mode = .code ∧ (step p s c rest).2 = some ⟨code, some text.reverse⟩
    ∨ s.skip = 0 ∧ Text.startsWith (c :: rest) p.blockCommentEnd = false
      ∧ step p s c rest = ({ s with mode := .docComment code (c :: text), fresh := isBlank c }, none) := by
  cases skip : s.skip with
  | succ others => exact .inl ⟨others, rfl, by rw [step, skip]⟩
  | zero =>
    right
    cases ends : Text.startsWith (c :: rest) p.blockCommentEnd with
    | true =>
      refine .inl ⟨rfl, rfl, ?_, ?_⟩
      · simp [step, skip, visit, mode, ends, leave, content, State.past]
      · simp [step, skip, visit, mode, ends]
    | false => exact .inr ⟨rfl, rfl, by simp [step, skip, visit, mode, ends]⟩

theorem Cuts.cons (cuts : Cuts p (before ++ [c]) (step p s c rest).1 rest) (after : After before s) :
    Cuts p before s (c :: rest) := by
  have whole : (before ++ [c]) ++ rest = before ++ c :: rest := by simp
  have longer : (before ++ [c]).length = before.length + 1 := by simp
  obtain ⟨plainNext, docNext⟩ := cuts
  rw [whole, longer] at plainNext
  rw [whole] at docNext
  refine ⟨fun plain => ?_, fun front code text mode reads => ?_⟩
  · rw [run_of_none (step_none plain)]
    rcases step_cases plain with still | ⟨inside, opens⟩
    · exact (plainNext still).of_le (Nat.le_succ _)
    · obtain ⟨code, mode⟩ := opens.mode
      exact docNext before code [] mode (reads_of_opens opens after.blank (after.begun.resolve_left inside))
  · rcases step_doc content mode with ⟨skip, same, stepped⟩ | ⟨same, ends, left, put⟩ | ⟨same, goes, stepped⟩
    · rw [same] at reads
      rw [run_of_none (by rw [stepped])]
      apply docNext front code text
      · rw [stepped]
        exact mode
      · rw [stepped]
        exact reads.pass
    · -- the slice is complete, and whatever follows starts behind its first end character
      rw [same] at reads
      rw [run_of_some put]
      exact .doc le_rfl (reads.slice content (.inr ends)) (plainNext (by rw [left]; rfl))
    · rw [same] at reads
      rw [run_of_none (by rw [stepped])]
      apply docNext front code (c :: text)
      · rw [stepped]
      · rw [stepped]
        exact same ▸ reads.take goes

/-- From any place the reader puts out slices of the source. -/
theorem cuts_run (after : After before s) : Cuts p before s rest := by
  induction rest generalizing s before with
  | nil => exact cuts_nil content
  | cons c rest ih => exact (ih (after_step p before s c rest)).cons content after

end Run

theorem cut_segments {p : Profile} (marked : p.codeStart ≠ []) (content : p.blockCommentEnd ≠ []) (source : Text) :
    Cut p.docCommentStart p.blockCommentEnd source 0 (segments p source) := by
  have mode : (start p).mode = .outside := by
    rw [start, if_neg (by simpa using marked)]
  have after : After [] (start p) := ⟨fun _ c last => (by cases last), .inl mode⟩
  exact (cuts_run content after).plain (by rw [mode]; rfl)

/-- The documentation comments of a source are slices of it, in order and apart from each other. All but the last one
    are ended by a marker; the last one may end with the source. -/
theorem segments_slices {p : Profile} (builtIn : Settings.phpProfile = .ok p) (source : Text) :
    ∃ (docs : List (Text × Text)) (last : Text) (spans : List (Nat × Nat)),
      segments p source = docs.map (fun doc => ⟨doc.1, some doc.2⟩) ++ [⟨last, none⟩]
      ∧ List.Forall₂ (fun doc span => Slice "/**" "*/" source span.1 span.2 doc.2) docs spans
      ∧ spans.IsChain (fun x y => x.2 < y.1)
      ∧ ∀ span ∈ spans.dropLast, source.extract span.2 (span.2 + 2) = "*/".toList := by
  obtain rfl : Profile.php = p := Except.ok.inj (Settings.phpProfile_eq.symm.trans builtIn)
  have cut : Cut "/**" "*/" source 0 (segments .php source) := cut_segments (p := .php) (by decide) (by decide) source
  obtain ⟨docs, last, spans, same, slices, chain, ended, -⟩ := cut.exists_spans
  exact ⟨docs, last, spans, same, slices, chain, ended⟩

/-- An empty comment at the end of the source after a closed one; a banner and the text of a string are no comments. -/
theorem segments_slices_open :
    let source : Text := "<? /***/ /** A * / */ f(' /** x */'); /**"
    segments .php source = [⟨"", some " A * / "⟩, ⟨"f(' /** x */')\n", some []⟩, ⟨[], none⟩]
    ∧ ∃ (docs : List (Text × Text)) (last : Text) (spans : List (Nat × Nat)),
      segments .php source = docs.map (fun doc => ⟨doc.1, some doc.2⟩) ++ [⟨last, none⟩]
      ∧ List.Forall₂ (fun doc span => Slice "/**" "*/" source span.1 span.2 doc.2) docs spans
      ∧ spans.IsChain (fun x y => x.2 < y.1)
      ∧ ∀ span ∈ spans.dropLast, source.extract span.2 (span.2 + 2) = "*/".toList :=
  ⟨by decide +kernel, segments_slices Settings.phpProfile_eq _⟩

end Marginalia.Scan
