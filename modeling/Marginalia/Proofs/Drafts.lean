import Marginalia.Block.Reader
import Marginalia.Proofs.Lines

/-!
# What a draft holds

The lines of a comment are sorted one by one. Whatever the comment is, the sorted lines have a form of their own: the
summary and the lines that continue a tag are prose, a description without a summary starts with a fence, and each line
of a description stands where a line like it would be put again. One line added keeps this form, so every comment is
sorted into it.
-/

namespace Marginalia

namespace Text

theorem Tight.of_append {s t : Text} (tight : (s ++ t).Tight) :
    ∀ c ∈ t.getLast?, isBlank c = false := by
  intro c h
  apply tight.stop
  rw [List.getLast?_append, Option.mem_def.mp h]
  rfl

theorem Tight.join {s t : Text} (between : Text) (first : s.Tight) (second : t.Tight) (content : s ≠ [])
    (contentToo : t ≠ []) : (s ++ (between ++ t)).Tight where
  start c h := by
    obtain ⟨d, rest, rfl⟩ := List.exists_cons_of_ne_nil content
    exact first.start c h
  stop c h := by
    obtain ⟨front, d, rfl⟩ := (List.eq_nil_or_concat t).resolve_left contentToo
    apply second.stop
    simpa [List.getLast?_append] using h

end Text

namespace Block

/-- A line without its marker: one line that is not empty and does not end with a blank. -/
structure Cleaned (line : Text) : Prop where
  one : '\n' ∉ line
  content : line ≠ []
  stop : ∀ c ∈ line.getLast?, isBlank c = false

/-- A line of text without the blanks around it: not empty, no fence and no tag. -/
structure Prose (t : Text) : Prop where
  one : '\n' ∉ t
  tight : t.Tight
  content : t ≠ []
  noFence : t ≠ fence
  noTag : t.head? ≠ some '@'

theorem startsWith_at {t : Text} : t.startsWith "@" = true ↔ t.head? = some '@' := by
  cases t with
  | nil => simp [Text.startsWith]
  | cons c t =>
    simp only [Text.startsWith, List.isPrefixOf_iff_prefix, List.head?_cons, Option.some.injEq]
    exact List.cons_prefix_cons.trans ((and_iff_left List.nil_prefix).trans eq_comm)

theorem Cleaned.trim {line : Text} (cleaned : Cleaned line) :
    '\n' ∉ line.trim ∧ line.trim.Tight ∧ line.trim ≠ [] := by
  obtain ⟨before, after, whole, blank⟩ := Text.exists_trim line
  refine ⟨fun feed => cleaned.one ?_, Text.tight_trim line, fun none => ?_⟩
  · rw [whole]
    simp [feed]
  · rw [none, List.append_nil] at whole
    obtain ⟨front, c, rfl⟩ := (List.eq_nil_or_concat line).resolve_left cleaned.content
    have solid := cleaned.stop c (by simp)
    rw [blank c (by rw [← whole]; simp)] at solid
    cases solid

theorem Cleaned.prose {line : Text} (cleaned : Cleaned line) (noFence : line.trim ≠ fence)
    (noTag : ¬ Text.startsWith line.trim "@" = true) : Prose line.trim where
  one := cleaned.trim.1
  tight := cleaned.trim.2.1
  content := cleaned.trim.2.2
  noFence := noFence
  noTag := startsWith_at.not.mp noTag

theorem Prose.cleaned {t : Text} (prose : Prose t) : Cleaned t := ⟨prose.one, prose.content, prose.tight.stop⟩

theorem isIndented_of_tight {t : Text} (tight : t.Tight) : isIndented t = false := by
  cases t with
  | nil => rfl
  | cons c t =>
    have solid : isBlank c = false := tight.start c rfl
    have noTab : c ≠ '\t' := by
      rintro rfl
      cases solid
    have noSpace : c ≠ ' ' := by
      rintro rfl
      cases solid
    simp [isIndented, Text.startsWith, List.isPrefixOf, Ne.symm noTab, Ne.symm noSpace]

theorem cleaned_of_cleanLine {line content : Text} (one : '\n' ∉ line)
    (found : cleanLine "*" line = some (some content)) : Cleaned content := by
  have tight := Text.tight_trim line
  have stillOne : '\n' ∉ line.trim := by
    obtain ⟨before, after, whole, -⟩ := Text.exists_trim line
    exact fun feed => one (by rw [whole]; simp [feed])
  have rest : ∀ rest : Text, rest ≠ [] → rest <:+ line.trim → Cleaned (Text.trimRight rest) := by
    rintro rest content ⟨before, whole⟩
    rw [← whole] at tight stillOne
    rw [Text.trimRight_of_last tight.of_append]
    exact ⟨fun feed => stillOne (List.mem_append_right _ feed), content, tight.of_append⟩
  unfold cleanLine at found
  dsimp only at found
  split at found
  · cases found
  · next marked =>
    split at found
    · next content start =>
      rw [Text.afterStart?_eq_some] at start
      obtain rfl := Option.some.inj (Option.some.inj found)
      apply rest
      · rintro rfl
        have solid := tight.stop ' ' (by rw [start]; rfl)
        cases solid
      · exact ⟨"* ".toList, by rw [start]; rfl⟩
    · next content _ start =>
      rw [Text.afterStart?_eq_some] at start
      obtain rfl := Option.some.inj (Option.some.inj found)
      apply rest
      · rintro rfl
        exact marked (by rw [start, List.append_nil])
      · exact ⟨_, start.symm⟩
    · cases found

theorem cleaned_of_mem {raw line : Text} (member : some line ∈ cleanLines "*" raw) : Cleaned line := by
  unfold cleanLines at member
  dsimp only at member
  split at member
  · cases member
  · next content =>
    split at member
    · next single =>
      obtain rfl := Option.some.inj (List.mem_singleton.mp member)
      simp only [Bool.and_eq_true, Bool.not_eq_true', List.contains_eq_mem, decide_eq_false_iff_not] at single
      exact ⟨single.1, by simpa using content, (Text.tight_trim raw).stop⟩
    · obtain ⟨written, inside, found⟩ := List.mem_filterMap.mp member
      exact cleaned_of_cleanLine (Text.not_mem_of_mem_lines inside) found

/-! ## Texts of tags -/

/-- A text that a tag can hold: its first line has no blanks around it, and all other lines are prose. -/
structure Note (t : Text) : Prop where
  first : ∀ line ∈ t.lines.head?, line.Tight
  start : t.lines.tail ≠ [] → t.lines.head? ≠ some []
  later : ∀ line ∈ t.lines.tail, Prose line

theorem Note.of_lines {t first : Text} {rest : List Text} (whole : t.lines = first :: rest) (tight : first.Tight)
    (start : rest ≠ [] → first ≠ []) (later : ∀ line ∈ rest, Prose line) : Note t := by
  constructor
  · rintro line h
    rw [whole] at h
    obtain rfl := Option.some.inj h
    exact tight
  · intro more none
    rw [whole] at more none
    exact start more (Option.some.inj none)
  · rw [whole]
    exact later

theorem eq_nil_of_lines {t : Text} (blank : t.lines = [[]]) : t = [] := by
  cases t with
  | nil => rfl
  | cons c t =>
    rw [Text.lines, Text.splitOn] at blank
    split at blank
    · exact absurd (List.cons.inj blank).2 (Text.splitOn_ne_nil _ t)
    · split at blank <;> cases blank

theorem Note.cases {t : Text} (note : Note t) : ∃ first rest, t.lines = first :: rest ∧ first.Tight
    ∧ (t ≠ [] → first ≠ []) ∧ ∀ line ∈ rest, Prose line := by
  obtain ⟨tight, start, later⟩ := note
  cases whole : t.lines with
  | nil => exact absurd whole (Text.splitOn_ne_nil _ t)
  | cons first rest =>
    rw [whole] at tight start later
    refine ⟨first, rest, rfl, tight first rfl, ?_, later⟩
    rintro content rfl
    cases rest with
    | nil => exact content (eq_nil_of_lines whole)
    | cons more rest => exact start (by simp) rfl

theorem Note.of_one {t : Text} (one : '\n' ∉ t) (tight : t.Tight) : Note t :=
  .of_lines (Text.lines_of_not_mem one) tight (by simp) (by simp)

theorem note_nil : Note [] := .of_one (by simp) ⟨by simp, by simp⟩

theorem Note.addLine {t line : Text} (note : Note t) (content : t ≠ []) (prose : Prose line) :
    Note (t ++ "\n" ++ line) := by
  obtain ⟨first, rest, whole, tight, start, later⟩ := note.cases
  have added : Text.lines (t ++ "\n" ++ line) = first :: (rest ++ [line]) := by
    rw [List.append_assoc]
    show Text.lines (t ++ '\n' :: line) = _
    rw [Text.lines_append_cons, whole, Text.lines_of_not_mem prose.one]
    rfl
  refine .of_lines added tight (fun _ => start content) ?_
  simpa [or_imp, forall_and] using ⟨later, prose⟩

theorem Note.tight {t : Text} (note : Note t) : t.Tight := by
  obtain ⟨first, rest, whole, tight, start, later⟩ := note.cases
  constructor
  · intro c h
    cases t with
    | nil => cases h
    | cons d t =>
      obtain rfl := Option.some.inj h
      obtain ⟨line, more, parts⟩ := List.exists_cons_of_ne_nil (Text.splitOn_ne_nil (· == '\n') t)
      rw [Text.lines, Text.splitOn] at whole
      split at whole
      · obtain ⟨rfl, rfl⟩ := List.cons.inj whole
        exact absurd rfl (start (by simp))
      · rw [parts] at whole
        obtain ⟨rfl, -⟩ := List.cons.inj whole
        exact tight.start d rfl
  · intro c h
    obtain ⟨t, rfl⟩ : ∃ front, t = front ++ [c] := by
      obtain ⟨front, d, rfl⟩ := (List.eq_nil_or_concat t).resolve_left (by rintro rfl; cases h)
      obtain rfl : d = c := by simpa using h
      exact ⟨front, by simp⟩
    obtain ⟨front, last, parts⟩ := Text.exists_splitOn_concat (· == '\n') t
    by_cases feed : c = '\n'
    · -- the last line would be empty, and it is not the first one
      subst feed
      rw [Text.lines_append_cons, Text.lines, parts] at whole
      have blank : [] ∈ rest := by
        cases front with
        | nil => simp [Text.lines, Text.splitOn] at whole; simp [← whole.2]
        | cons line front => simp [Text.lines, Text.splitOn] at whole; simp [← whole.2]
      exact absurd rfl (later [] blank).content
    · have alone : Text.splitOn (· == '\n') [c] = [[c]] := Text.splitOn_of_forall (by simpa using feed)
      rw [Text.lines, Text.splitOn_append parts alone] at whole
      have ends : (last ++ [c]).Tight := by
        cases front with
        | nil => exact (List.cons.inj whole).1 ▸ tight
        | cons line front => exact (later _ (by simp [← (List.cons.inj whole).2])).tight
      exact ends.stop c (by simp)

/-- What is left of a note is a note, if it starts with no blank. -/
theorem Note.suffix {s t : Text} (note : Note t) (suffix : s <:+ t) (start : ∀ c ∈ s.head?, isBlank c = false) :
    Note s := by
  obtain ⟨before, rfl⟩ := suffix
  obtain ⟨first, rest, whole, tight, -, later⟩ := note.cases
  cases s with
  | nil => exact note_nil
  | cons c s =>
    have noFeed : (c == '\n') = false := by
      rw [beq_eq_false_iff_ne]
      rintro rfl
      cases start '\n' rfl
    obtain ⟨line, more, parts⟩ := List.exists_cons_of_ne_nil (Text.splitOn_ne_nil (· == '\n') s)
    have cut : Text.splitOn (· == '\n') (c :: s) = (c :: line) :: more := by
      simp [Text.splitOn, noFeed, parts]
    obtain ⟨front, last, earlier⟩ := Text.exists_splitOn_concat (· == '\n') before
    rw [Text.lines, Text.splitOn_append earlier cut] at whole
    have ends : (last ++ c :: line).Tight := by
      cases front with
      | nil => exact (List.cons.inj whole).1 ▸ tight
      | cons first front => exact (later _ (by simp [← (List.cons.inj whole).2])).tight
    refine .of_lines cut ⟨fun d h => start d (by simpa using h), ends.of_append⟩ (by simp) ?_
    intro other member
    apply later
    cases front with
    | nil => rw [← (List.cons.inj whole).2]; exact member
    | cons first front => rw [← (List.cons.inj whole).2]; simp [member]

theorem Note.trim {s t : Text} (note : Note t) (suffix : s <:+ t) : Note s.trim := by
  have left : s.trimLeft <:+ s := List.dropWhile_suffix _
  have start := Text.head?_trimLeft s
  have noted := note.suffix (left.trans suffix) start
  rw [Text.trim, Text.trimRight_of_last noted.tight.stop]
  exact noted

/-- A line of prose that goes on after a space is prose. -/
theorem Prose.append {line more : Text} (prose : Prose line) (one : '\n' ∉ more) (tight : more.Tight)
    (content : more ≠ []) : Prose (line ++ ' ' :: more) where
  one := by simp [prose.one, one]
  tight := Text.Tight.join [' '] prose.tight tight prose.content content
  content := by simp
  noFence same := by
    have space : ' ' ∈ fence := by simp [← same]
    exact absurd space (by decide)
  noTag := by
    obtain ⟨c, rest, rfl⟩ := List.exists_cons_of_ne_nil prose.content
    exact prose.noTag

theorem note_appendNote {t more : Text} (note : Note t) (noteToo : Note more) : Note (appendNote t more) := by
  unfold appendNote
  split
  · exact note
  · next given =>
    have content : more ≠ [] := by simpa using given
    obtain ⟨first, rest, whole, tight, start, later⟩ := note.cases
    obtain ⟨next, others, wholeToo, tightToo, startToo, laterToo⟩ := noteToo.cases
    cases t with
    | nil =>
      have same : Text.trim (([] : Text) ++ " " ++ more) = more := by
        show Text.trim (' ' :: more) = more
        rw [Text.trim_cons_of_blank rfl, Text.trim_of_tight noteToo.tight]
      rw [same]
      exact noteToo
    | cons c t =>
      have wide : Text.Tight ((c :: t) ++ " " ++ more) := by
        rw [List.append_assoc]
        exact note.tight.join _ noteToo.tight (by simp) content
      rw [Text.trim_of_tight wide, List.append_assoc]
      have spaced : Text.lines (' ' :: more) = (' ' :: next) :: others := by
        rw [Text.lines] at wholeToo ⊢
        simp [Text.splitOn, wholeToo]
      have one : '\n' ∉ next := Text.not_mem_of_mem_lines (t := more) (by simp [wholeToo])
      obtain ⟨front, last, parts⟩ := Text.exists_splitOn_concat (· == '\n') (c :: t)
      have joined : Text.lines ((c :: t) ++ ' ' :: more) = front ++ (last ++ ' ' :: next) :: others :=
        Text.splitOn_append parts spaced
      rw [Text.lines, parts] at whole
      cases front with
      | nil =>
        obtain ⟨rfl, rfl⟩ := List.cons.inj whole
        refine .of_lines joined ?_ (by simp) laterToo
        exact tight.join [' '] tightToo (start (by simp)) (startToo content)
      | cons line front =>
        obtain ⟨rfl, rfl⟩ := List.cons.inj whole
        obtain ⟨earlier, proseLast⟩ := List.forall_mem_append.mp later
        have proseLast : Prose last := proseLast last (by simp)
        refine .of_lines joined tight (fun _ => start (by simp)) (List.forall_mem_append.mpr ⟨earlier, ?_⟩)
        rw [List.forall_mem_cons]
        exact ⟨proseLast.append one tightToo (startToo content), laterToo⟩

/-- The text of a tag. -/
structure TagText (t : Text) : Prop where
  note : Note t
  marked : t.head? = some '@'

/-! ## Descriptions -/

namespace Draft

/-- The lines of a description in the form that sorting gives them, last line first, and whether a fence is open: a
    line of prose does not go on with the line before it, and outside of fences no two blank lines stand together. -/
inductive Flow : List Text → Bool → Prop where
  | nil : Flow [] false
  | fence {rest : List Text} {inFence : Bool} (before : Flow rest inFence) : Flow (Marginalia.fence :: rest) (!inFence)
  | blank {last : Text} {rest : List Text} {inFence : Bool} (before : Flow (last :: rest) inFence)
    (apart : inFence = true ∨ last ≠ []) : Flow ([] :: last :: rest) inFence
  | fenced {rest : List Text} {line : Text} (before : Flow rest true) (cleaned : Cleaned line)
    (noFence : line.trim ≠ Marginalia.fence) : Flow (line :: rest) true
  | prose {rest : List Text} {line : Text} (before : Flow rest false) (prose : Prose line)
    (apart : continues rest line line = false) : Flow (line :: rest) false

theorem continues_eq_false {description : List Text} {line line' text text' : Text}
    (apart : continues description line text = false) (same : startsStructure text' = startsStructure text)
    (flush : isIndented line' = false) : continues description line' text' = false := by
  cases description with
  | nil => rfl
  | cons last rest =>
    unfold continues at apart ⊢
    rw [same, flush]
    dsimp only at apart ⊢
    split
    · rfl
    · next h =>
      rw [if_neg h] at apart
      split
      · rfl
      · next quoted =>
        rw [if_neg quoted] at apart
        split
        · rfl
        · next plain =>
          rw [if_neg plain] at apart
          cases apart

theorem Flow.ne_nil {lines : List Text} (flow : Flow lines true) : lines ≠ [] := by
  rintro rfl
  cases flow

/-- A line that goes on with the last one keeps the form. -/
theorem Flow.goOn {last text : Text} {rest : List Text} (flow : Flow (last :: rest) false) (prose : Prose text)
    {line : Text} (goes : continues (last :: rest) line text = true) : Flow ((last ++ " " ++ text) :: rest) false := by
  have kept : last ≠ [] ∧ last ≠ Marginalia.fence := by
    constructor
    · rintro rfl
      simp [continues] at goes
    · rintro rfl
      simp [continues] at goes
  generalize whole : last :: rest = lines at flow
  generalize closed : false = inFence at flow
  cases flow with
  | nil => cases whole
  | fence before => exact absurd (List.cons.inj whole).1 kept.2
  | blank before apart => exact absurd (List.cons.inj whole).1 kept.1
  | fenced before cleaned noFence => cases closed
  | prose before proseLast apart =>
    obtain ⟨rfl, rfl⟩ := List.cons.inj whole
    rw [List.append_assoc]
    have longer : Prose (last ++ ' ' :: text) := proseLast.append prose.one prose.tight prose.content
    refine .prose before longer (continues_eq_false apart ?_ (isIndented_of_tight longer.tight))
    obtain ⟨c, more, rfl⟩ := List.exists_cons_of_ne_nil kept.1
    rfl

/-! ## Drafts -/

/-- The form of the lines sorted so far. -/
structure Settled (d : Draft) : Prop where
  summary : ∀ t ∈ d.summary, Prose t
  opened : d.summaryOpen = true → d.description = []
  started : d.summary = [] → d.summaryOpen = false → d.description.getLast? = some Marginalia.fence
  flow : Flow d.description d.inFence
  tags : ∀ t ∈ d.tags, TagText t
  openTag : ∀ t ∈ d.openTag, TagText t

theorem closeTag_eq (d : Draft) : d.closeTag = { d with tags := d.openTag.toList ++ d.tags, openTag := none } := by
  obtain ⟨summary, summaryOpen, description, tags, openTag, inFence⟩ := d
  cases openTag <;> rfl

variable {d : Draft}

theorem settled_empty : Settled {} where
  summary := by simp
  opened _ := rfl
  started := by simp
  flow := .nil
  tags := by simp
  openTag := by simp

theorem Settled.closeTag (settled : d.Settled) : d.closeTag.Settled := by
  unfold Draft.closeTag
  split
  · next t found =>
    refine { settled with tags := ?_, openTag := by simp }
    rw [List.forall_mem_cons]
    exact ⟨settled.openTag t found, settled.tags⟩
  · exact settled

theorem Settled.closeSummary (settled : d.Settled) : d.closeSummary.Settled := by
  unfold Draft.closeSummary
  split
  · exact settled
  · next given => exact { settled with opened := by simp, started := fun none => absurd none (by simpa using given) }

/-- The lines of a description start with a fence if there is no summary. -/
theorem Settled.fence_first (settled : d.Settled) (none : d.summary = []) (content : d.description ≠ []) :
    d.description.getLast? = some Marginalia.fence := by
  apply settled.started none
  by_contra opened
  exact content (settled.opened (by simpa using opened))

theorem Settled.addDescription (settled : d.Settled) (unfenced : d.inFence = false) (closed : d.summaryOpen = false)
    {line : Text} (prose : Prose line.trim) : (d.addDescription line line.trim).Settled := by
  have flow := settled.flow
  have started := fun none => settled.started none closed
  rw [unfenced] at flow
  unfold Draft.addDescription
  split
  · next last rest same =>
    rw [same] at flow started
    split
    · next goes =>
      rw [same] at goes
      refine { settled with opened := by simp [closed], started := fun none _ => ?_, flow := ?_ }
      · cases rest with
        | nil =>
          -- the only line is a fence, and nothing goes on with a fence
          obtain rfl := Option.some.inj (started none)
          simp [continues] at goes
        | cons other rest => exact started none
      · show Flow _ d.inFence
        rw [unfenced]
        exact flow.goOn prose goes
    · next apart =>
      rw [same] at apart
      refine { settled with opened := by simp [closed], started := fun none _ => ?_, flow := ?_ }
      · rw [List.getLast?_cons_cons]
        exact started none
      · show Flow _ d.inFence
        rw [unfenced]
        exact .prose flow prose (continues_eq_false (by simpa using apart) rfl (isIndented_of_tight prose.tight))
  · next none =>
    rw [none] at flow started
    refine { settled with opened := by simp [closed], started := fun noSummary _ => ?_, flow := ?_ }
    · cases started noSummary
    · show Flow _ d.inFence
      rw [unfenced]
      exact .prose flow prose rfl

theorem Settled.addText (settled : d.Settled) (unfenced : d.inFence = false) {line : Text} (prose : Prose line.trim) :
    (d.addText line line.trim).Settled := by
  unfold Draft.addText
  split
  · next opened =>
    simp only [Bool.and_eq_true, List.isEmpty_iff] at opened
    refine { settled with summary := ?_, opened := fun _ => opened.2, started := by simp }
    rw [List.forall_mem_cons]
    exact ⟨prose, settled.summary⟩
  · next past =>
    have closed : d.summaryOpen = false := by
      by_contra opened
      have opened : d.summaryOpen = true := by simpa using opened
      exact past (by simp [opened, settled.opened opened])
    have same : { d with summaryOpen := false } = d := by rw [← closed]
    rw [same]
    exact settled.addDescription unfenced closed prose

theorem Settled.addFence (settled : d.Settled) :
    Settled { d with
      inFence := !d.inFence
      summaryOpen := false
      description := Marginalia.fence :: d.description } := by
  refine { settled with opened := by simp, started := fun none _ => ?_, flow := settled.flow.fence }
  dsimp only at none ⊢
  cases lines : d.description with
  | nil => rfl
  | cons last rest =>
    rw [List.getLast?_cons_cons, ← lines]
    exact settled.fence_first none (by simp [lines])

theorem Settled.addFenced (settled : d.Settled) (fenced : d.inFence = true) {line : Text} (cleaned : Cleaned line)
    (noFence : line.trim ≠ Marginalia.fence) : Settled { d with description := line :: d.description } := by
  have flow := settled.flow
  rw [fenced] at flow
  have content := flow.ne_nil
  refine { settled with opened := fun opened => ?_, started := fun none _ => ?_, flow := ?_ }
  · exact absurd (settled.opened opened) content
  · dsimp only
    rw [List.getLast?_cons_of_ne_nil content]
    exact settled.fence_first none content
  · show Flow _ d.inFence
    rw [fenced]
    exact .fenced flow cleaned noFence

theorem Settled.addLine (settled : d.Settled) {line : Text} (cleaned : Cleaned line) :
    (d.addLine "@" line).Settled := by
  unfold Draft.addLine
  dsimp only
  split
  · exact settled.closeTag.addFence
  · next noFence =>
    split
    · next fenced => exact settled.addFenced fenced cleaned noFence
    · next unfenced =>
      have unfenced : d.inFence = false := by simpa using unfenced
      split
      · next tag =>
        have text : TagText line.trim := ⟨.of_one cleaned.trim.1 cleaned.trim.2.1, startsWith_at.mp tag⟩
        refine { settled.closeTag.closeSummary with openTag := ?_ }
        rintro t ⟨⟩
        exact text
      · next noTag =>
        have prose := cleaned.prose noFence noTag
        split
        · next tag found =>
          have text := settled.openTag tag found
          split
          · refine { settled with openTag := ?_ }
            rintro t ⟨⟩
            obtain ⟨c, rest, rfl⟩ := List.exists_cons_of_ne_nil (l := tag) (by rintro rfl; cases text.marked)
            exact ⟨text.note.addLine (by simp) prose, text.marked⟩
          · apply settled.closeTag.addText _ prose
            unfold Draft.closeTag
            split <;> exact unfenced
        · exact settled.addText unfenced prose

theorem Settled.addBlank (settled : d.Settled) : d.addBlank.Settled := by
  have closed := settled.closeTag.closeSummary
  unfold Draft.addBlank
  dsimp only
  generalize d.closeTag.closeSummary = e at closed ⊢
  split
  · next none =>
    split
    · next fenced =>
      have flow := closed.flow
      rw [fenced, none] at flow
      exact absurd rfl flow.ne_nil
    · exact closed
  · next last rest lines =>
    split
    · next apart =>
      have flow := closed.flow
      rw [lines] at flow
      refine { closed with opened := fun opened => ?_, started := fun none _ => ?_, flow := ?_ }
      · exact absurd (closed.opened opened) (by simp [lines])
      · dsimp only
        rw [List.getLast?_cons_cons, ← lines]
        exact closed.fence_first none (by simp [lines])
      · exact .blank flow (by simpa using apart)
    · exact closed

/-- One line more keeps the form. -/
theorem Settled.add (settled : d.Settled) {line : Option Text} (cleaned : ∀ t ∈ line, Cleaned t) :
    (d.add "@" line).Settled := by
  cases line with
  | none => exact settled.addBlank
  | some t => exact settled.addLine (cleaned t rfl)

theorem settled_foldl {lines : List (Option Text)} (cleaned : ∀ line ∈ lines, ∀ t ∈ line, Cleaned t)
    (settled : d.Settled) : (lines.foldl (Draft.add "@") d).Settled := by
  induction lines generalizing d with
  | nil => exact settled
  | cons line rest ih =>
    rw [List.forall_mem_cons] at cleaned
    exact ih cleaned.2 (settled.add cleaned.1)

/-- Every comment is sorted into this form. -/
theorem settled_ofLines (raw : Text) : (ofLines "@" (cleanLines "*" raw)).Settled := by
  apply Settled.closeTag
  apply settled_foldl _ settled_empty
  rintro line member t rfl
  exact cleaned_of_mem member

end Draft

end Block

end Marginalia
