import Marginalia.Proofs.Elements
import Marginalia.Proofs.Links
import Marginalia.Proofs.Words

/-!
# The words of prose

Whoever reads the markup of prose sees the words of the text and nothing else, each of them once and in order. What is
put out for a line ends where no word can go on, with a tag or a line feed, so the words of the markup are those of its
parts. A paragraph is put out later than its lines are read; until then its words are owed.
-/

namespace Marginalia

namespace Markup

/-! ## What is seen of markup -/

/-- Markup with a space in the place of each tag. The first argument says whether a tag is open. -/
def untaggedFrom : (inside : Bool) → Text → Text
  | _, [] => []
  | false, c :: t => if c = '<' then untaggedFrom true t else c :: untaggedFrom false t
  | true, c :: t => if c = '>' then ' ' :: untaggedFrom false t else untaggedFrom true t

/-- Markup with a space in the place of each tag. -/
def untagged (t : Text) : Text := untaggedFrom false t

/-- The words that a reader of markup sees. -/
def seenWords (t : Text) : List Text := (unescape (untagged t)).words

theorem untagged_plain {s : Text} (plain : Plain s) (t : Text) : untagged (s ++ t) = s ++ untagged t := by
  induction s with
  | nil => rfl
  | cons c s ih =>
    rw [Plain, List.forall_mem_cons] at plain
    rw [List.cons_append, untagged, untaggedFrom, if_neg plain.1.1, List.cons_append]
    exact congrArg (c :: ·) (ih plain.2)

theorem untaggedFrom_inside {inside : Text} (noClosing : '>' ∉ inside) (t : Text) :
    untaggedFrom true (inside ++ '>' :: t) = ' ' :: untagged t := by
  induction inside with
  | nil => rfl
  | cons c inside ih =>
    rw [List.mem_cons, not_or] at noClosing
    rw [List.cons_append, untaggedFrom, if_neg (Ne.symm noClosing.1), ih noClosing.2]

theorem escape_of_blank {c : Char} (blank : isBlank c = true) : escape [c] = [c] := by
  have other : ∀ d, isBlank d = false → c ≠ d := by
    rintro d solid rfl
    rw [blank] at solid
    cases solid
  simp [escape, escapeChar, other '&' rfl, other '<' rfl, other '>' rfl, other '"' rfl, other '\'' rfl]

theorem unescape_cons_of_blank {c : Char} (blank : isBlank c = true) (t : Text) :
    unescape (c :: t) = c :: unescape t := by
  have alone := unescape_escape_append [c] t
  rwa [escape_of_blank blank] at alone

/-! ## Markup that ends between words -/

/-- Markup in which the given words are seen, whatever follows it. -/
def Shows (t : Text) (seen : List Text) : Prop := ∀ rest, seenWords (t ++ rest) = seen ++ seenWords rest

/-- Markup that is seen as a blank. -/
def Breaks (t : Text) : Prop := ∃ c, isBlank c = true ∧ ∀ rest, untagged (t ++ rest) = c :: untagged rest

theorem Bracketed.breaks {tag : Text} (bracketed : Bracketed tag) : Breaks tag := by
  obtain ⟨inside, rfl, -, noClosing⟩ := bracketed
  refine ⟨' ', rfl, fun rest => ?_⟩
  rw [List.cons_append, List.append_assoc, untagged, untaggedFrom, if_pos rfl]
  exact untaggedFrom_inside noClosing rest

theorem breaks_lineFeed : Breaks "\n" := ⟨'\n', rfl, fun _ => rfl⟩

theorem shows_nil : Shows [] [] := fun _ => rfl

theorem Shows.append {s t : Text} {seen more : List Text} (first : Shows s seen) (second : Shows t more) :
    Shows (s ++ t) (seen ++ more) := by
  intro rest
  rw [List.append_assoc, first, second, List.append_assoc]

theorem Shows.seenWords_eq {t : Text} {seen : List Text} (shows : Shows t seen) : seenWords t = seen := by
  have alone := shows []
  rwa [List.append_nil, show seenWords [] = [] from rfl, List.append_nil] at alone

/-- The words of escaped text are seen as they are, if they end there. -/
theorem Breaks.shows_escape {stop : Text} (breaks : Breaks stop) (t : Text) : Shows (escape t ++ stop) t.words := by
  obtain ⟨c, blank, cut⟩ := breaks
  intro rest
  rw [seenWords, List.append_assoc, untagged_plain (plain_escape t), cut, unescape_escape_append,
    unescape_cons_of_blank blank, Text.words_append_cons blank]
  rfl

theorem Breaks.shows {t : Text} (breaks : Breaks t) : Shows t [] := breaks.shows_escape []

theorem shows_flatMap {α : Type} {f : α → Text} {xs : List α} (each : ∀ x ∈ xs, Shows (f x) []) :
    Shows (xs.flatMap f) [] := by
  induction xs with
  | nil => exact shows_nil
  | cons x xs ih =>
    rw [List.forall_mem_cons] at each
    rw [List.flatMap_cons]
    exact each.1.append (ih each.2)

/-- In an element with text, the words of the text are seen. -/
theorem shows_element {name : Text} (start : Bracketed (startTag name)) (stop : Bracketed (endTag name)) (t : Text) :
    Shows (startTag name ++ escape t ++ endTag name) t.words := by
  rw [List.append_assoc]
  exact start.breaks.shows.append (stop.breaks.shows_escape t)

end Markup

namespace Prose

open Markup

/-! ## The words of a text -/

/-- What follows one to six number signs and a space. -/
def afterHeadingMark? (line : Text) : Option Text :=
  (List.range 6).findSome? fun n => Text.afterStart? (List.replicate (n + 1) '#' ++ [' ']) line

/-- A line without the mark of an item, of a quotation or of a heading. -/
def unmarked : Text → Text
  | [] => []
  | c :: rest =>
    if c = '-' ∨ c = '*' ∨ c = '>' then rest else (afterHeadingMark? (c :: rest)).getD (c :: rest)

/-- The words of lines that the given number of fences comes before. Fences have no words, and where as many fences have
    been closed as opened, lines have marks. -/
def wordsFrom : (fences : Nat) → List Text → List Text
  | _, [] => []
  | fences, raw :: rest =>
    if raw.trim = fence then wordsFrom (fences + 1) rest
    else (if fences % 2 = 0 then unmarked raw.trim else raw).words ++ wordsFrom fences rest

/-- The words of a text, without fences and marks. -/
def sourceWords (t : Text) : List Text := wordsFrom 0 t.lines

/-! ## Headings -/

theorem heading?_eq_some {line title : Text} {level : Nat} : heading? line = some (level, title)
    ↔ (1 ≤ level ∧ level ≤ 6) ∧ line = List.replicate level '#' ++ ' ' :: title := by
  have run : List.replicate (line.takeWhile (· == '#')).length '#' = line.takeWhile (· == '#') := by
    refine (List.eq_replicate_of_mem fun c member => ?_).symm
    simpa using List.mem_takeWhile_imp member
  constructor
  · intro found
    unfold heading? at found
    dsimp only at found
    split at found
    · next rest follows =>
      split at found
      · next bounds =>
        obtain ⟨rfl, rfl⟩ := Prod.mk.inj (Option.some.inj found)
        simp only [Bool.and_eq_true, decide_eq_true_eq] at bounds
        refine ⟨bounds, ?_⟩
        rw [run, ← follows, Text.drop_length_takeWhile, List.takeWhile_append_dropWhile]
      · cases found
    · cases found
  · rintro ⟨bounds, rfl⟩
    have marks : (List.replicate level '#' ++ ' ' :: title).takeWhile (· == '#') = List.replicate level '#' := by
      rw [List.takeWhile_append_of_pos (by simp)]
      simp
    simp [heading?, marks, bounds]

/-- A mark of a heading is found exactly where there is a heading. -/
theorem afterHeadingMark?_eq (line : Text) : afterHeadingMark? line = (heading? line).map Prod.snd := by
  cases found : afterHeadingMark? line with
  | some title =>
    obtain ⟨n, inside, start⟩ := List.exists_of_findSome?_eq_some found
    rw [Text.afterStart?_eq_some, List.append_assoc, List.singleton_append] at start
    rw [heading?_eq_some.mpr ⟨⟨Nat.le_add_left 1 n, List.mem_range.mp inside⟩, start⟩, Option.map_some]
  | none =>
    cases heading : heading? line with
    | none => rfl
    | some entry =>
      obtain ⟨level, title⟩ := entry
      obtain ⟨⟨positive, bound⟩, whole⟩ := heading?_eq_some.mp heading
      obtain ⟨n, rfl⟩ := Nat.exists_eq_add_of_le' positive
      have start : Text.afterStart? (List.replicate (n + 1) '#' ++ [' ']) line = some title := by
        rw [Text.afterStart?_eq_some, whole, List.append_assoc, List.singleton_append]
      rw [List.findSome?_eq_none_iff.mp found n (List.mem_range.mpr bound)] at start
      cases start

/-- A line that a paragraph can go on with has no mark. -/
theorem unmarked_of_not_special {line : Text} (plain : isSpecial line = false) : unmarked line = line := by
  cases line with
  | nil => rfl
  | cons c rest =>
    simp only [isSpecial, Bool.or_eq_false_iff, beq_eq_false_iff_ne] at plain
    obtain ⟨-, ⟨⟨dash, star⟩, quote⟩, sign⟩ := plain
    have none : heading? (c :: rest) = none := by
      rw [Option.eq_none_iff_forall_ne_some]
      rintro ⟨level, title⟩ found
      obtain ⟨⟨positive, -⟩, whole⟩ := heading?_eq_some.mp found
      obtain ⟨n, rfl⟩ := Nat.exists_eq_add_of_le' positive
      exact sign (List.cons.inj whole).1
    rw [unmarked, if_neg (by simp [dash, star, quote]), afterHeadingMark?_eq, none]
    rfl

/-! ## Lines -/

/-- The words of the paragraph that is not put out yet. -/
def owed (s : State) : List Text := (s.paragraph.getD []).words

theorem owed_of_settled {s : State} (settled : s.paragraph = none) : owed s = [] := by
  rw [owed, settled]
  rfl

/-- What is put out shows words that were owed before or are those of the line, and what it does not show of them is
    owed after it. -/
def Pays (s : State) (line : List Text) (r : Text × State) : Prop :=
  ∃ seen, Shows r.1 seen ∧ seen ++ owed r.2 = owed s ++ line

theorem Pays.trans {s : State} {a b : Text × State} {line more : List Text} (first : Pays s line a)
    (second : Pays a.2 more b) : Pays s (line ++ more) (a.1 ++ b.1, b.2) := by
  obtain ⟨seen, shows, left⟩ := first
  obtain ⟨others, showsToo, leftToo⟩ := second
  refine ⟨seen ++ others, shows.append showsToo, ?_⟩
  rw [List.append_assoc, leftToo, ← List.append_assoc, left, List.append_assoc]

theorem bracketed_tags {name : Text} (known : name ∈ elements) :
    Bracketed (startTag name) ∧ Bracketed (endTag name) := by
  obtain ⟨start, stop⟩ := tags_of_mem_elements known
  exact ⟨bracketed_of_mem_tags _ start, bracketed_of_mem_tags _ stop⟩

theorem StandsIn.known {s : State} {o : Opened} (stands : StandsIn s o) : Known s.containers := by
  cases o with
  | nothing =>
    rw [stands.1]
    exact fun _ member => absurd member List.not_mem_nil
  | container kind =>
    rw [stands.1]
    intro name member
    rw [List.mem_singleton.mp member]
    cases kind <;> decide
  | fence =>
    rw [stands.1]
    intro name member
    rw [List.mem_singleton.mp member]
    decide

section Lines

variable {s : State} (known : Known s.containers)
include known

theorem shows_closeAll : Shows s.containers.closeAll [] :=
  shows_flatMap fun name member => (bracketed_tags (known name member)).2.breaks.shows

theorem shows_openTag {name : Text} (element : name ∈ elements) : Shows (s.containers.openTag name).1 [] := by
  unfold Containers.openTag
  by_cases already : s.containers.head? = some name
  · rw [if_pos already]
    exact shows_nil
  · rw [if_neg already]
    exact (shows_closeAll known).append (bracketed_tags element).1.breaks.shows

theorem pays_flush : Pays s [] (flush s) := by
  unfold flush
  cases waiting : s.paragraph with
  | none => exact ⟨[], shows_nil, (List.append_nil _).symm⟩
  | some t =>
    refine ⟨t.words, ?_, ?_⟩
    · have tag : "p".toList ∈ elements := by decide
      have paragraph := shows_element (bracketed_tags tag).1 (bracketed_tags tag).2 t
      have whole := ((shows_closeAll known).append paragraph).append breaks_lineFeed.shows
      simpa [startTag, endTag] using whole
    · simp [owed, waiting]

theorem pays_item (settled : s.paragraph = none) {container tag : Text} (outer : container ∈ elements)
    (inner : tag ∈ elements) (content : Text) : Pays s content.words (item s container tag content) := by
  refine ⟨content.words, ?_, ?_⟩
  · have element := shows_element (bracketed_tags inner).1 (bracketed_tags inner).2 content.trim
    rw [Text.words_trim] at element
    have whole := (shows_openTag known outer).append element
    simpa [item] using whole
  · simp [owed, item, settled]

theorem pays_startLine (settled : s.paragraph = none) (line : Text) :
    Pays s (if line = fence then [] else (unmarked line).words) (startLine s line) := by
  unfold startLine
  by_cases isFence : line = fence
  · rw [if_pos isFence, if_pos isFence]
    exact ⟨[], shows_openTag known (by decide), by simp [owed]⟩
  · rw [if_neg isFence, if_neg isFence]
    cases line with
    | nil => exact ⟨[], shows_nil, (List.append_nil _).symm⟩
    | cons c rest =>
      dsimp only
      by_cases listed : (decide (c = '-') || decide (c = '*')) = true
      · have mark : c = '-' ∨ c = '*' ∨ c = '>' := by
          simp only [Bool.or_eq_true, decide_eq_true_eq] at listed
          exact listed.imp_right .inl
        rw [if_pos listed, unmarked, if_pos mark]
        exact pays_item known settled (by decide) (by decide) rest
      · rw [if_neg listed]
        by_cases quoted : c = '>'
        · rw [if_pos quoted, unmarked, if_pos (.inr (.inr quoted))]
          exact pays_item known settled (by decide) (by decide) rest
        · have unlisted : ¬ (c = '-' ∨ c = '*' ∨ c = '>') := by simp_all
          rw [if_neg quoted, unmarked, if_neg unlisted, afterHeadingMark?_eq]
          cases found : heading? (c :: rest) with
          | none =>
            refine ⟨[], shows_nil, ?_⟩
            rw [owed_of_settled settled]
            rfl
          | some heading =>
            obtain ⟨level, title⟩ := heading
            have element := mem_elements_of_heading found
            refine ⟨title.words, ?_, by simp [owed, settled]⟩
            have shown := shows_element (bracketed_tags element).1 (bracketed_tags element).2 (Text.trim title)
            rw [Text.words_trim] at shown
            have whole := ((shows_closeAll known).append shown).append breaks_lineFeed.shows
            simpa using whole

end Lines

theorem inFence_startLine {s : State} (free : s.inFence = false) (line : Text) :
    (startLine s line).2.inFence = decide (line = fence) := by
  unfold startLine item
  by_cases isFence : line = fence
  · rw [if_pos isFence, decide_eq_true isFence]
  · rw [if_neg isFence, decide_eq_false isFence]
    cases line with
    | nil => exact free
    | cons c rest =>
      dsimp only
      split_ifs
      · exact free
      · exact free
      · cases heading? (c :: rest) <;> exact free

section Steps

variable {s : State} {o : Opened} (stands : StandsIn s o)
include stands

theorem pays_fencedLine (inside : s.inFence = true) (raw : Text) :
    Pays s (if raw.trim = fence then [] else raw.words) (fencedLine s raw)
      ∧ (fencedLine s raw).2.inFence = !decide (raw.trim = fence) := by
  obtain rfl := stands.eq_fence inside
  obtain ⟨containers, -, settled⟩ := stands
  unfold fencedLine
  by_cases isFence : raw.trim = fence
  · rw [if_pos isFence, if_pos isFence, decide_eq_true isFence, containers]
    refine ⟨⟨[], ?_, by simp [owed]⟩, rfl⟩
    have tag : "pre".toList ∈ elements := by decide
    have pre := (bracketed_tags tag).2.breaks.shows.append breaks_lineFeed.shows
    simpa [Containers.close] using pre
  · rw [if_neg isFence, if_neg isFence, decide_eq_false isFence]
    refine ⟨⟨raw.words, breaks_lineFeed.shows_escape raw, ?_⟩, inside⟩
    simp [owed, settled]

/-- One line: its words are shown after those that were owed, or are owed themselves. -/
theorem pays_step (raw : Text) :
    Pays s (if raw.trim = fence then [] else (if s.inFence then raw else unmarked raw.trim).words) (step s raw)
      ∧ (step s raw).2.inFence = (s.inFence ^^ decide (raw.trim = fence)) := by
  unfold step
  by_cases inside : s.inFence = true
  · rw [if_pos inside, if_pos inside, inside, Bool.true_xor]
    exact pays_fencedLine stands inside raw
  · have free : s.inFence = false := by simpa using inside
    rw [if_neg inside, if_neg inside, free, Bool.false_xor]
    dsimp only
    cases waiting : s.paragraph with
    | none => exact ⟨pays_startLine stands.known waiting raw.trim, inFence_startLine free raw.trim⟩
    | some t =>
      dsimp only
      have flushed := pays_flush stands.known
      obtain ⟨settled, still⟩ := flush_settled s
      by_cases ends : (endsSentence t || isSpecial raw.trim) = true
      · rw [if_pos ends]
        have started := pays_startLine (tagged_flush stands.known).2 settled raw.trim
        exact ⟨flushed.trans started, inFence_startLine (still.trans free) raw.trim⟩
      · rw [if_neg ends]
        have plain : isSpecial raw.trim = false := by
          rw [Bool.not_eq_true, Bool.or_eq_false_iff] at ends
          exact ends.2
        have noFence : raw.trim ≠ fence := by
          intro isFence
          rw [isFence] at plain
          cases plain
        rw [if_neg noFence, decide_eq_false noFence, unmarked_of_not_special plain]
        by_cases blank : raw.trim.isEmpty = true
        · rw [if_pos blank, List.isEmpty_iff.mp blank]
          exact ⟨flushed, still.trans free⟩
        · rw [if_neg blank]
          refine ⟨⟨[], shows_nil, ?_⟩, rfl⟩
          have joined := Text.words_append_cons (c := ' ') rfl t raw.trim
          simpa [owed, waiting] using joined

/-- From any line on, the words that are owed are seen first, and then the words of the lines. -/
theorem seenWords_run {fences : Nat} (parity : s.inFence = decide (fences % 2 = 1)) (lines : List Text) :
    seenWords (run s lines) = owed s ++ wordsFrom fences lines := by
  induction lines generalizing s o fences with
  | nil =>
    obtain ⟨seen, shows, left⟩ := pays_flush stands.known
    rw [owed_of_settled (flush_settled s).1, List.append_nil] at left
    have whole := shows.append (shows_closeAll (tagged_flush stands.known).2)
    rw [List.append_nil, left] at whole
    exact whole.seenWords_eq
  | cons raw rest ih =>
    obtain ⟨⟨seen, shows, left⟩, inFence⟩ := pays_step stands raw
    obtain ⟨next, standsThere, -⟩ := leads_step stands raw
    rw [run, shows, wordsFrom]
    by_cases isFence : raw.trim = fence
    · rw [if_pos isFence] at left ⊢
      have odd : (step s raw).2.inFence = decide ((fences + 1) % 2 = 1) := by
        rw [inFence, parity, decide_eq_true isFence, Bool.xor_true, ← decide_not, decide_eq_decide]
        omega
      rw [ih standsThere odd, ← List.append_assoc, left, List.append_nil]
    · rw [if_neg isFence] at left ⊢
      have same : (step s raw).2.inFence = decide (fences % 2 = 1) := by
        rw [inFence, parity, decide_eq_false isFence, Bool.xor_false]
      have even : (if s.inFence then raw else unmarked raw.trim)
          = if fences % 2 = 0 then unmarked raw.trim else raw := by
        rw [parity]
        rcases Nat.mod_two_eq_zero_or_one fences with zero | one
        · simp [zero]
        · simp [one]
      rw [ih standsThere same, ← List.append_assoc, left, List.append_assoc, even]

end Steps

/-- Prose loses no word, adds none and changes no order: the words that are seen of the markup are those of the text. -/
theorem seenWords_render (t : Text) : seenWords (render t) = sourceWords t := by
  have start : StandsIn {} .nothing := ⟨rfl, rfl⟩
  exact seenWords_run start rfl t.lines

end Prose

end Marginalia
