import Marginalia.Proofs.Collected
import Marginalia.Proofs.Lines
import Marginalia.Proofs.Php

/-!
# Extraction gives back what was written

A source is written from a main text and a list of documented declarations. Reading it gives the main block and
exactly these declarations in order, each with its own documentation. The argument goes through the stages of
the reader: each written declaration is one chunk of the source, a chunk closes one segment, the code of the
segment is the line of the declaration, and that line is recognised as the declaration it was written from.
-/

namespace Marginalia

namespace Extraction

/-- A documented declaration to be written. -/
structure Item where
  kind : Kind
  keyword : Text
  name : Text
  /-- Arguments, or inheritance text after the name of a container. -/
  tail : Text
  /-- The text between the delimiters of the documentation comment. -/
  doc : Text
  deriving DecidableEq, Repr

namespace Item

/-- What stands after the name. -/
def ending (i : Item) : Text :=
  if i.kind.isContainer then if i.tail.isEmpty then [] else ' ' :: i.tail
  else '(' :: (i.tail ++ [')'])

/-- The line of the declaration. -/
def line (i : Item) : Text := i.keyword ++ ' ' :: (i.name ++ i.ending)

/-- The documentation comment and the line, with an empty body. -/
def text (i : Item) : Text := "/**" ++ (i.doc ++ ("*/\n" ++ (i.line ++ " \x7b\x7d\n")))

/-- The declaration that is written. -/
def declaration (p : Profile) (i : Item) : Declaration :=
  ⟨⟨i.kind, i.keyword, i.name, i.tail⟩, Block.read p i.doc⟩

end Item

/-- A source with a main text and documented declarations. -/
def source (main : Text) (items : List Item) : Text :=
  "<?php\n" ++ ("/**" ++ (main ++ ("*/" ++ '\n' :: items.flatMap Item.text)))

/-- A text that a documentation comment can hold: it starts with a blank and does not end the comment. -/
structure Commentable (t : Text) : Prop where
  blank : ∃ c rest, t = c :: rest ∧ isBlank c = true
  unended : t.includes "*/" = false

/-- A character of a name. -/
def isNameChar (c : Char) : Bool := c.isAlphanum || c == '_' || c == '\\'

/-- A text that may follow a name: nothing in it starts a string, a statement or a comment or ends the code,
    and its only blanks are single spaces inside, none of them before a parenthesis or a comma. -/
structure Tidy (t : Text) : Prop where
  noQuote : '"' ∉ t ∧ '\'' ∉ t
  noSeparator : '\x7b' ∉ t ∧ '\x7d' ∉ t ∧ ';' ∉ t
  noMarker : t.includes "?>" = false ∧ t.includes "//" = false ∧ t.includes "/*" = false
  onlySpaces : ∀ c ∈ t, isBlank c = true → c = ' '
  tight : t.Tight
  spaced : t.IsChain Php.Spaced

/-- A declaration that can be written: the keyword is one of the profile, and neither the name, what follows it
    nor the documentation breaks out of its place. -/
structure Item.Writable (p : Profile) (i : Item) : Prop where
  keyword : (i.keyword, i.kind) ∈ p.declarations.entries
  named : i.name ≠ []
  nameChars : ∀ c ∈ i.name, isNameChar c = true
  tidy : Tidy i.tail
  /-- The space before the inheritance text of a container is kept. -/
  apart : i.kind.isContainer = true → ∀ c ∈ i.tail.head?, c ≠ '(' ∧ c ≠ ')' ∧ c ≠ ','
  doc : Commentable i.doc

/-! ## Names and what follows them -/

end Extraction

namespace Signature

theorem containerParts_name {name : Text} (absent : ' ' ∉ name) : containerParts name = (name, []) := by
  have all : ∀ c ∈ name, (c != ' ') = true := fun c h => by simpa using ne_of_mem_of_not_mem h absent
  rw [containerParts, List.takeWhile_eq_self_iff.mpr all, List.dropWhile_eq_nil_iff.mpr all]
  rfl

theorem containerParts_append {name tail : Text} (absent : ' ' ∉ name) (tight : tail.Tight) :
    containerParts (name ++ ' ' :: tail) = (name, tail) := by
  have all : ∀ c ∈ name, (c != ' ') = true := fun c h => by simpa using ne_of_mem_of_not_mem h absent
  rw [containerParts, List.takeWhile_append_of_pos all, List.dropWhile_append_of_pos all]
  simp [Text.trim_of_tight tight]

theorem functionParts_append {name tail : Text} (absent : '(' ∉ name) (nameTight : name.Tight)
    (tailTight : tail.Tight) : functionParts "(" ")" (name ++ '(' :: (tail ++ [')'])) = (name, tail) := by
  have whole : name ++ '(' :: (tail ++ [')']) = name ++ "(" ++ tail ++ ")" := by simp
  have first : Text.indexOf? "(" (name ++ "(" ++ tail ++ ")") = some name.length := by
    rw [← whole]
    exact Text.indexOf?_append_of_not_mem absent
  have parts : functionParts "(" ")" (name ++ "(" ++ tail ++ ")") = (name.trim, tail.trim) :=
    functionParts_delimited (by decide) (by decide) first
  rw [Text.trim_of_tight nameTight, Text.trim_of_tight tailTight] at parts
  rw [whole, parts]

end Signature

namespace Extraction

/-! ## Lines in the normal form -/

open Php

theorem Tidy.apart {t before after : Text} {c d : Char} (tidy : Tidy t) (at_ : t = before ++ c :: d :: after) :
    Apart c d := by
  obtain ⟨noEnd, noLine, noBlock⟩ := tidy.noMarker
  have absent : ∀ part : Text, t.includes part = false → part ≠ [c, d] := by
    rintro part missing rfl
    have found : t.includes [c, d] = true := by
      rw [Text.includes_iff_infix, at_]
      exact ⟨before, after, by simp⟩
    rw [missing] at found
    cases found
  refine ⟨?_, ?_⟩
  · rintro rfl rfl
    exact absent _ noEnd rfl
  · rintro rfl
    refine ⟨?_, ?_⟩
    · rintro rfl
      exact absent _ noLine rfl
    · rintro rfl
      exact absent _ noBlock rfl

theorem Tidy.normal {t : Text} (tidy : Tidy t) : Normal t where
  settled c h := by
    obtain ⟨noOpen, noClose, noSemicolon⟩ := tidy.noSeparator
    refine ⟨⟨?_, ?_⟩, ⟨?_, ?_, ?_⟩, tidy.onlySpaces c h⟩
    · exact ne_of_mem_of_not_mem h tidy.noQuote.1
    · exact ne_of_mem_of_not_mem h tidy.noQuote.2
    · exact ne_of_mem_of_not_mem h noOpen
    · exact ne_of_mem_of_not_mem h noClose
    · exact ne_of_mem_of_not_mem h noSemicolon
  adjacent := by
    have spaced := tidy.spaced
    rw [List.isChain_iff_forall_rel_of_append_cons_cons] at spaced ⊢
    intro c d before after split
    exact ⟨tidy.apart split, spaced split⟩

theorem nameChar_ne {c d : Char} (h : isNameChar c = true) (other : isNameChar d = false) : c ≠ d := by
  rintro rfl
  rw [h] at other
  cases other

theorem nameChar_solid {c : Char} (h : isNameChar c = true) : isBlank c = false := by
  apply isBlank_of_visible
  simp only [isNameChar, Char.isAlphanum, Bool.or_eq_true, beq_iff_eq] at h
  rcases h with ((letter | digit) | rfl) | rfl
  · have ranges : ('A'.val ≤ c.val ∧ c.val ≤ 'Z'.val) ∨ ('a'.val ≤ c.val ∧ c.val ≤ 'z'.val) := by
      rcases Bool.or_eq_true_iff.mp letter with upper | lower
      · exact .inl (of_decide_eq_true upper)
      · exact .inr ((Bool.and_eq_true_iff.mp lower).imp of_decide_eq_true of_decide_eq_true)
    simp only [UInt32.le_iff_toNat_le, Char.toNat_val, Char.reduceToNat] at ranges
    omega
  · simp only [Char.isDigit, Bool.and_eq_true, decide_eq_true_eq, ge_iff_le, UInt32.le_iff_toNat_le, Char.toNat_val,
      Char.reduceToNat] at digit
    omega
  · decide
  · decide

theorem name_normal {name : Text} (chars : ∀ c ∈ name, isNameChar c = true) : Normal name where
  settled c h := by
    have ne : ∀ d, isNameChar d = false → c ≠ d := fun d => nameChar_ne (chars c h)
    refine ⟨⟨?_, ?_⟩, ⟨?_, ?_, ?_⟩, fun blank => ?_⟩
    all_goals try exact ne _ (by decide)
    rw [nameChar_solid (chars c h)] at blank
    cases blank
  adjacent := by
    rw [List.isChain_iff_forall_rel_of_append_cons_cons]
    intro c d before after split
    have char : isNameChar c = true := chars c (by rw [split]; simp)
    apply Adjacent.of_ne <;> exact nameChar_ne char (by decide)

/-- A keyword, with the space after it. -/
theorem keyword_normal {keyword : Text} {kind : Kind} (h : (keyword, kind) ∈ phpKeywords.entries) :
    Normal (keyword ++ [' ']) ∧ (keyword ++ [' ']).head?.any (!isBlank ·) = true := by
  have all : ∀ entry ∈ phpKeywords.entries, ((∀ c ∈ entry.1 ++ [' '], Settled c) ∧
      (entry.1 ++ [' ']).IsChain Adjacent) ∧ (entry.1 ++ [' ']).head?.any (!isBlank ·) = true := by
    decide
  obtain ⟨⟨settled, adjacent⟩, start⟩ := all _ h
  exact ⟨⟨settled, adjacent⟩, start⟩

namespace Item.Writable

variable {i : Item} (writable : i.Writable .php)
include writable

theorem name_solid : ∀ c ∈ i.name, isBlank c = false :=
  fun c h => nameChar_solid (writable.nameChars c h)

theorem name_head {c : Char} (h : c ∈ (i.name ++ i.ending).head?) : isNameChar c = true := by
  obtain ⟨d, rest, split⟩ := List.exists_cons_of_ne_nil writable.named
  rw [split] at h
  cases h
  exact writable.nameChars c (by simp [split])

theorem name_joined {c : Char} (h : c ∈ i.name.getLast?) (d : Char) : Adjacent c d := by
  have char := writable.nameChars c (List.mem_of_mem_getLast? h)
  apply Adjacent.of_ne <;> exact nameChar_ne char (by decide)

/-- What follows the name is in the normal form and does not end with a blank. -/
theorem ending_normal : Normal i.ending ∧ ∀ c ∈ i.ending.getLast?, isBlank c = false := by
  have tail := writable.tidy.normal
  have tight := writable.tidy.tight
  have one : ∀ c : Char, Settled c → Normal [c] := fun c h => ⟨by simpa using h, .singleton c⟩
  unfold ending
  split
  case isTrue container =>
    cases content : i.tail with
    | nil => exact ⟨⟨by simp, .nil⟩, by simp⟩
    | cons c rest =>
      rw [content] at tail tight
      refine ⟨Normal.append (one ' ' (by decide)) tail ?_, ?_⟩
      · intro space hs d hd
        cases hs
        refine ⟨.of_ne (by decide) (by decide) d, fun _ => ⟨tight.start d hd, ?_⟩⟩
        exact writable.apart container d (by rw [content]; exact hd)
      · intro d h
        exact tight.stop d (by simpa [List.getLast?_cons] using h)
  case isFalse =>
    refine ⟨Normal.append (one '(' (by decide)) (tail.append (one ')' (by decide)) ?_) ?_, ?_⟩
    · intro c hc d hd
      cases hd
      have solid : c ≠ ' ' := by
        rintro rfl
        exact absurd (tight.stop ' ' hc) (by decide)
      exact ⟨⟨fun _ => by decide, fun _ => by decide⟩, fun space => absurd space solid⟩
    · intro c hc d hd
      cases hc
      exact .of_ne (by decide) (by decide) (by decide) d
    · intro c h
      have last : c = ')' := by simpa [List.getLast?_cons] using h.symm
      rw [last]
      decide

theorem line_normal : Normal i.line := by
  obtain ⟨keyword, -⟩ := keyword_normal writable.keyword
  have name : Normal (i.name ++ i.ending) :=
    (name_normal writable.nameChars).append writable.ending_normal.1
      fun c hc d _ => writable.name_joined hc d
  have joined := keyword.append name (by
    intro c hc d hd
    have char := writable.name_head hd
    refine ⟨?_, fun _ => ⟨nameChar_solid char, ?_, ?_, ?_⟩⟩
    · have space : c = ' ' := by simpa using hc.symm
      subst space
      exact .of_ne (by decide) (by decide) d
    all_goals exact nameChar_ne char (by decide))
  simpa [line] using joined

theorem line_tight : i.line.Tight where
  start c h := by
    obtain ⟨-, start⟩ := keyword_normal writable.keyword
    have first : i.line.head? = (i.keyword ++ [' ']).head? := by
      unfold line
      cases i.keyword <;> rfl
    rw [first] at h
    rw [h] at start
    simpa using start
  stop c h := by
    have name : ∀ c ∈ i.name.getLast?, isBlank c = false :=
      fun c h => writable.name_solid c (List.mem_of_mem_getLast? h)
    apply Text.forall_getLast?_append name writable.ending_normal.2 c
    rw [line, List.getLast?_append, List.getLast?_cons] at h
    obtain ⟨d, rest, split⟩ := List.exists_cons_of_ne_nil writable.named
    simpa [split, List.getLast?_cons] using h

/-! ## Lines recognised -/

theorem keywordOf?_line :
    Signature.keywordOf? phpKeywords.entries i.line = some (i.keyword, i.kind, i.name ++ i.ending) := by
  have start : Text.trimLeft (i.name ++ i.ending) = i.name ++ i.ending :=
    Text.trimLeft_of_head fun c h => nameChar_solid (writable.name_head h)
  have oneLine : '\n' ∉ i.name ++ i.ending := by
    have absent := writable.line_normal.not_mem (c := '\n') rfl (by decide)
    exact fun h => absent (by simp only [line, List.mem_append, List.mem_cons] at h ⊢; tauto)
  have member := writable.keyword
  unfold line
  generalize i.name ++ i.ending = after at start oneLine
  simp only [Profile.php_declarations, phpKeywords, List.mem_cons, Prod.mk.injEq, List.not_mem_nil, or_false] at member
  -- one case a keyword: no other keyword starts the line
  rcases member with ⟨keyword, kind⟩ | ⟨keyword, kind⟩ | ⟨keyword, kind⟩ | ⟨keyword, kind⟩ | ⟨keyword, kind⟩ |
    ⟨keyword, kind⟩
  all_goals
    simp [keyword, kind, phpKeywords, Signature.keywordOf?, Signature.afterKeyword?, Text.afterStart?, start,
      oneLine, isBlank_space]

theorem ofLine?_line : Signature.ofLine? .php i.line = some ⟨i.kind, i.keyword, i.name, i.tail⟩ := by
  have tight : Text.Tight (i.name ++ i.ending) :=
    ⟨fun c h => nameChar_solid (writable.name_head h), Text.forall_getLast?_append
      (fun c h => writable.name_solid c (List.mem_of_mem_getLast? h)) writable.ending_normal.2⟩
  have name : Text.Tight i.name := Text.tight_of_forall writable.name_solid
  have absent : ∀ d, isNameChar d = false → d ∉ i.name := by
    intro d other h
    rw [writable.nameChars d h] at other
    cases other
  rw [Signature.ofLine?, Text.trim_of_tight writable.line_tight,
    Profile.php_declarations, writable.keywordOf?_line]
  simp only [Text.trim_of_tight tight]
  unfold ending
  cases i.kind.isContainer with
  | true =>
    cases content : i.tail with
    | nil => simp [Signature.containerParts_name (absent ' ' (by decide))]
    | cons c rest =>
      have parts := Signature.containerParts_append (absent ' ' (by decide)) writable.tidy.tight
      rw [content] at parts
      simp [parts]
  | false =>
    have parts := Signature.functionParts_append (absent '(' (by decide)) name writable.tidy.tight
    rw [show Profile.php.argsStart = "(".toList from rfl, show Profile.php.argsEnd = ")".toList from rfl]
    simp only [Bool.false_eq_true, if_false, parts]

end Item.Writable

/-! ## One chunk of the source -/

theorem unended_of_includes {t : Text} (h : t.includes "*/" = false) (rest : Text) :
    Scan.Unended .php ("*/" ++ rest) t := by
  induction t with
  | nil => exact True.intro
  | cons c t ih =>
    rw [Text.includes_cons, Bool.or_eq_false_iff] at h
    refine ⟨?_, ih h.2⟩
    cases t with
    | nil => simp [Text.startsWith, List.isPrefixOf]
    | cons d t => simpa [Text.startsWith, List.isPrefixOf] using h.1

theorem through_docStart {rest : Text} {c : Char} (blank : isBlank c = true) (skeleton : Skeleton) :
    Scan.through .php (c :: rest) ⟨.code, 0, true, skeleton⟩ "/**" =
      (⟨.docComment skeleton.text [], 0, false, []⟩, []) := by
  have opened : Scan.codeStep .php ⟨.code, 0, true, skeleton⟩ '/' ('/' :: '*' :: '*' :: c :: rest) =
      ⟨.docComment skeleton.text [], 2, true, []⟩ := by
    simp [Scan.codeStep, Scan.stands, Scan.opensDoc, Scan.State.past, Text.startsWith, blank]
  have star : isBlank '*' = false := rfl
  simp [Scan.through, Scan.step, Scan.visit, opened, star]

theorem through_docEnd (rest code text : Text) (fresh : Bool) (skeleton : Skeleton) :
    Scan.through .php rest ⟨.docComment code text, 0, fresh, skeleton⟩ "*/" =
      (⟨.code, 0, false, skeleton⟩, [⟨code, some text.reverse⟩]) := by
  have slash : isBlank '/' = false := rfl
  simp [Scan.through, Scan.step, Scan.visit, Scan.leave, Scan.State.past, Text.startsWith, slash]

/-- A documentation comment closes a segment and leaves the reader at the start of fresh code. -/
theorem through_doc {doc : Text} (commentable : Commentable doc) (rest : Text) (skeleton : Skeleton) :
    Scan.through .php rest ⟨.code, 0, true, skeleton⟩ ("/**" ++ (doc ++ "*/")) =
      (⟨.code, 0, false, []⟩, [⟨skeleton.text, some doc⟩]) := by
  obtain ⟨c, more, start, blank⟩ := commentable.blank
  have opened : Scan.through .php ((doc ++ "*/") ++ rest) ⟨.code, 0, true, skeleton⟩ "/**" =
      (⟨.docComment skeleton.text [], 0, false, []⟩, []) := by
    rw [start]
    exact through_docStart blank skeleton
  have read := Scan.through_docText (unended_of_includes commentable.unended rest) false [] skeleton.text []
  have closed := through_docEnd rest skeleton.text (doc.reverse ++ []) ((doc.getLast?.map isBlank).getD false) []
  simpa using Scan.through_append opened (Scan.through_append read closed)

/-- After the line of a declaration, an empty body adds two line feeds to the skeleton and nothing else. -/
theorem foldl_emptyBody {t : Text} (content : t ≠ []) (tight : t.Tight) :
    [' ', '\x7b', '\x7d', '\n'].foldl (Scan.codeChar .php) (t.reverse.map .one) =
      .one '\n' :: .one '\n' :: t.reverse.map .one := by
  obtain ⟨before, last, rfl⟩ := (List.eq_nil_or_concat t).resolve_left content
  have solid : isBlank last = false := tight.stop last (by simp)
  have noSpace : last ≠ ' ' := by
    rintro rfl
    exact absurd solid (by decide)
  have pieces : (before.concat last).reverse.map Piece.one = .one last :: before.reverse.map .one := by
    simp
  have feed : isBlank '\n' = true := rfl
  rw [pieces]
  simp [Scan.codeChar, Skeleton.softSpace, Skeleton.newline, Skeleton.trim, Piece.last, solid,
    trim_of_solid noSpace, isBlank_space, feed]

/-- A line with an empty body leaves its code and two line feeds. -/
theorem through_line {i : Item} (writable : i.Writable .php) (rest : Text) :
    Scan.through .php rest ⟨.code, 0, false, []⟩ ('\n' :: (i.line ++ [' ', '\x7b', '\x7d', '\n'])) =
      (⟨.code, 0, true, .one '\n' :: .one '\n' :: i.line.reverse.map .one⟩, []) := by
  have normal := writable.line_normal
  have tight := writable.line_tight
  have noMarker : ∀ (c : Char) (after : Text), c ∈ [' ', '\n', '\x7b', '\x7d'] →
      Scan.isPlain .php (c :: after) = true := by
    intro c after h
    simp only [List.mem_cons, List.not_mem_nil, or_false] at h
    rcases h with rfl | rfl | rfl | rfl <;>
      exact isPlain_of_ne (by decide) (by decide) (by decide) after
  have line : Scan.Plain .php ([' ', '\x7b', '\x7d', '\n'] ++ rest) i.line := by
    apply plain_of_normal normal.settled
    apply normal.adjacent.append (.singleton ' ')
    intro c hc d hd
    cases hd
    have solid : c ≠ ' ' := by
      rintro rfl
      exact absurd (tight.stop ' ' hc) (by decide)
    exact ⟨⟨fun _ => by decide, fun _ => by decide⟩, fun space => absurd space solid⟩
  have plain : Scan.Plain .php rest ('\n' :: (i.line ++ [' ', '\x7b', '\x7d', '\n'])) := by
    refine ⟨noMarker _ _ (by simp), Scan.plain_append.mpr ⟨line, ?_⟩⟩
    exact ⟨noMarker _ _ (by simp), noMarker _ _ (by simp), noMarker _ _ (by simp), noMarker _ _ (by simp),
      True.intro⟩
  have start : Scan.codeChar .php [] '\n' = [] := rfl
  have fresh : ((('\n' :: (i.line ++ [' ', '\x7b', '\x7d', '\n'])).getLast?).map isBlank).getD false = true := by
    simp [List.getLast?_cons]
    rfl
  rw [Scan.through_plain plain, fresh, List.foldl_cons, start, List.foldl_append,
    foldl_codeChar normal tight.start, foldl_emptyBody (by simp [Item.line]) tight]

/-- The chunk of a declaration closes the segment before it and leaves the code of its line. -/
theorem through_item {i : Item} (writable : i.Writable .php) (rest : Text) (skeleton : Skeleton) :
    Scan.through .php rest ⟨.code, 0, true, skeleton⟩ i.text =
      (⟨.code, 0, true, .one '\n' :: .one '\n' :: i.line.reverse.map .one⟩, [⟨skeleton.text, some i.doc⟩]) := by
  have doc := through_doc writable.doc (('\n' :: (i.line ++ [' ', '\x7b', '\x7d', '\n'])) ++ rest) skeleton
  have both := Scan.through_append doc (through_line writable rest)
  simpa [Item.text] using both

/-! ## The whole source -/

/-- The segments of declarations after some code. -/
def segmentsFrom (code : Text) : List Item → List Segment
  | [] => [⟨code, none⟩]
  | i :: rest => ⟨code, some i.doc⟩ :: segmentsFrom (i.line ++ ['\n', '\n']) rest

theorem run_items {items : List Item} (writable : ∀ i ∈ items, i.Writable .php) (skeleton : Skeleton) :
    Scan.run .php ⟨.code, 0, true, skeleton⟩ (items.flatMap Item.text) = segmentsFrom skeleton.text items := by
  induction items generalizing skeleton with
  | nil => rfl
  | cons i items ih =>
    rw [List.forall_mem_cons] at writable
    have code : Skeleton.text (.one '\n' :: .one '\n' :: i.line.reverse.map .one) = i.line ++ ['\n', '\n'] := by
      rw [← text_map_one (i.line ++ ['\n', '\n'])]
      simp
    rw [List.flatMap_cons, Scan.run_of_through (through_item writable.1 _ skeleton), ih writable.2, code]
    rfl

theorem through_feed (rest : Text) (fresh : Bool) :
    Scan.through .php rest ⟨.code, 0, fresh, []⟩ ['\n'] = (⟨.code, 0, true, []⟩, []) := by
  have plain : Scan.Plain .php rest ['\n'] :=
    ⟨isPlain_of_ne (by decide) (by decide) (by decide) _, True.intro⟩
  rw [Scan.through_plain plain]
  rfl

theorem through_start (rest : Text) :
    Scan.through .php rest (Scan.start .php) "<?php\n" = (⟨.code, 0, true, []⟩, []) := by
  have opened : Scan.through .php ('\n' :: rest) (Scan.start .php) "<?php" = (⟨.code, 0, false, []⟩, []) := by
    have letter : isBlank 'p' = false := rfl
    simp [Scan.through, Scan.start, Scan.step, Scan.visit, Scan.stands, Scan.State.past, Text.startsWith, letter]
  exact Scan.through_append opened (through_feed rest false)

theorem segments_source {main : Text} {items : List Item} (commentable : Commentable main)
    (writable : ∀ i ∈ items, i.Writable .php) :
    segments .php (source main items) = ⟨[], some main⟩ :: segmentsFrom [] items := by
  have opening := Scan.through_append (through_start _)
    (Scan.through_append (through_doc commentable (['\n'] ++ items.flatMap Item.text) []) (through_feed _ false))
  have read := (Scan.run_of_through opening).trans (congrArg (_ ++ ·) (run_items writable []))
  unfold segments source
  simpa only [List.append_assoc, List.nil_append, List.singleton_append, Skeleton.text, List.reverse_nil,
    List.flatMap_nil] using read

theorem ofCode_line {i : Item} (writable : i.Writable .php) (pending : Block) :
    Declaration.ofCode .php (i.line ++ ['\n', '\n']) pending =
      [⟨⟨i.kind, i.keyword, i.name, i.tail⟩, pending⟩] := by
  have trimmed : Text.trim (i.line ++ ['\n', '\n']) = i.line :=
    Text.trim_append_blanks writable.line_tight (by simp [Item.line]) (by decide)
  have oneLine := Text.lines_of_not_mem (writable.line_normal.not_mem (c := '\n') rfl (by decide))
  rw [Declaration.ofCode, trimmed, oneLine]
  simp [writable.ofLine?_line, Declaration.documented]

/-! ## Blocks and declarations paired -/

theorem addCode_nil {c : Collected} (idle : c.waiting = false) : c.addCode .php [] = c := by
  have none : Declaration.ofCode .php [] c.pending = [] := rfl
  simp [Collected.addCode, none, idle]

theorem addCode_line {i : Item} (writable : i.Writable .php) (c : Collected) :
    c.addCode .php (i.line ++ ['\n', '\n']) =
      { c with
        declarations := c.declarations ++ [⟨⟨i.kind, i.keyword, i.name, i.tail⟩, c.pending⟩]
        pending := {}
        waiting := false } := by
  simp [Collected.addCode, ofCode_line writable]

/-- The code of the first segment can be added beforehand, if nothing waits for a declaration then. -/
theorem addSegments_code {c : Collected} {code : Text} (idle : (c.addCode .php code).waiting = false)
    (items : List Item) :
    Collected.addSegments .php false c (segmentsFrom code items) =
      Collected.addSegments .php false (c.addCode .php code) (segmentsFrom [] items) := by
  cases items with
  | nil => simp [segmentsFrom, Collected.addSegments, addCode_nil idle]
  | cons i items => simp only [segmentsFrom, Collected.addSegments, addCode_nil idle]

/-- Each comment goes to the declaration that follows it, and to no other one. -/
theorem addSegments_items {items : List Item} (writable : ∀ i ∈ items, i.Writable .php) {c : Collected}
    (main : c.main.isSome = true) (idle : c.waiting = false) :
    (Collected.addSegments .php false c (segmentsFrom [] items)).main = c.main ∧
      (Collected.addSegments .php false c (segmentsFrom [] items)).declarations =
        c.declarations ++ items.map (Item.declaration .php) := by
  induction items generalizing c with
  | nil => simp [segmentsFrom, Collected.addSegments, addCode_nil idle]
  | cons i items ih =>
    rw [List.forall_mem_cons] at writable
    have later : c.main.isNone = false := by simpa using main
    simp only [segmentsFrom, Collected.addSegments, addCode_nil idle, later, Bool.false_and, if_false,
      Bool.false_eq_true]
    rw [addSegments_code (by rw [addCode_line writable.1]), addCode_line writable.1]
    obtain ⟨sameMain, more⟩ := ih writable.2 (c := { c with
      declarations := c.declarations ++ [Item.declaration .php i], pending := {}, waiting := false }) main rfl
    refine ⟨sameMain, more.trans ?_⟩
    simp

/-- What is collected from a written source. -/
theorem collected_source {main : Text} {items : List Item} (commentable : Commentable main)
    (writable : ∀ i ∈ items, i.Writable .php) :
    (Collected.ofSource .php false (source main items)).main = some (Block.read .php main) ∧
      (Collected.ofSource .php false (source main items)).declarations =
        items.map (Item.declaration .php) := by
  have first : Collected.addSegments .php false {} (⟨[], some main⟩ :: segmentsFrom [] items) =
      Collected.addSegments .php false { main := some (Block.read .php main) } (segmentsFrom [] items) := by
    simp [Collected.addSegments, addCode_nil]
  rw [Collected.ofSource, segments_source commentable writable, first]
  simpa using addSegments_items writable (c := { main := some (Block.read .php main) }) rfl rfl

/-- A written source is read back: the document of a source has the main text as its main block and exactly the
    written declarations in order, each with its own documentation. Of the settings only the audit is read, and
    any declaration may be asked for. -/
theorem document_source {p : Profile} (builtIn : Settings.phpProfile = .ok p) {settings : Value}
    (auditable : Settings.Auditable settings) (filename lookup : Text) {main : Text} {items : List Item}
    (commentable : Commentable main) (writable : ∀ i ∈ items, i.Writable p) :
    ∃ d, Document.ofSource p settings filename (source main items) { lookup } = .ok d ∧
      d.main = Block.read p main ∧ d.declarations = items.map (Item.declaration p) := by
  obtain rfl : Profile.php = p := Except.ok.inj (Settings.phpProfile_eq.symm.trans builtIn)
  obtain ⟨sameMain, sameDeclarations⟩ := collected_source commentable writable
  have groups : ∀ pattern ∈ Profile.php.paramPattern, pattern.groups ≤ 1 := by
    rintro pattern ⟨⟩
    decide
  obtain ⟨d, made, itsMain, itsDeclarations⟩ := Document.exists_ofCollected groups auditable filename lookup
    (Collected.ofSource .php false (source main items))
  refine ⟨d, made, ?_, itsDeclarations.trans sameDeclarations⟩
  rw [itsMain, sameMain]
  rfl

/-- A class with inheritance text and a method with arguments, as `document_source` reads them back. -/
theorem document_source_of_two :
    let items : List Item :=
      [⟨.classDecl, "class", "Box", "extends App\\Base", " A box."⟩,
       ⟨.publicMethod, "public function", "pad", "$value, $width = f(10)", "\n * Pads.\n "⟩]
    ∃ d, Document.ofSource .php Settings.defaults "a.php" (source " File.\n" items) { lookup := "PAD" } = .ok d ∧
      d.main = Block.read .php " File.\n" ∧ d.declarations = items.map (Item.declaration .php) := by
  refine document_source Settings.phpProfile_eq ⟨_, rfl⟩ "a.php" "PAD" ⟨⟨' ', _, rfl, rfl⟩, by decide⟩ ?_
  intro i h
  simp only [List.mem_cons, List.not_mem_nil, or_false] at h
  rcases h with rfl | rfl
  · exact ⟨by decide, by decide, by decide, ⟨by decide, by decide, by decide, by decide, by decide, by decide⟩,
      by decide, ⟨⟨' ', _, rfl, rfl⟩, by decide⟩⟩
  · exact ⟨by decide, by decide, by decide, ⟨by decide, by decide, by decide, by decide, by decide, by decide⟩,
      by decide, ⟨⟨'\n', _, rfl, rfl⟩, by decide⟩⟩

end Extraction

end Marginalia
