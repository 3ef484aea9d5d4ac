import Marginalia.Proofs.Fallible
import Marginalia.Proofs.Scan
import Marginalia.Settings.Basic
import Mathlib.Data.List.Chain

/-!
# The built-in profile

The profile of PHP as one record, and code in its normal form: where every blank is a single space that stands
before neither parentheses nor commas, and no marker starts, reading code changes nothing.
-/

namespace Marginalia

/-- The variables of PHP: a dollar sign and a name. -/
def Pattern.php : Pattern :=
  let letters : List SetItem := [.range 65 90, .range 97 122]
  let others : List SetItem := [.range 95 95, .range 127 255]
  { source := "\\$[A-Za-z_\\x7f-\\xff][A-Za-z0-9_\\x7f-\\xff]*"
    regex := .seq (.one ⟨[.range 36 36], false⟩ false)
      (.seq (.one ⟨letters ++ others, false⟩ false)
        (.repeat (.one ⟨letters ++ [.range 48 57] ++ others, false⟩ false) 0 none true))
    groups := 0 }

/-- The keywords of PHP. -/
def phpKeywords : Dict Kind where
  entries :=
    [("public function", .publicMethod), ("private function", .privateMethod),
     ("protected function", .protectedMethod), ("function", .function), ("class", .classDecl),
     ("namespace", .namespaceDecl)]

/-- The markers of PHP. -/
def Profile.php : Profile where
  codeStart := "<?"
  codeStartFull := "<?php"
  codeEnd := "?>"
  declarations := phpKeywords
  paramPattern := some .php

namespace Profile

@[simp] theorem php_codeStart : php.codeStart = ['<', '?'] := rfl
@[simp] theorem php_codeStartFull : php.codeStartFull = ['<', '?', 'p', 'h', 'p'] := rfl
@[simp] theorem php_codeEnd : php.codeEnd = ['?', '>'] := rfl
@[simp] theorem php_lineComment : php.lineComment = ['/', '/'] := rfl
@[simp] theorem php_blockCommentStart : php.blockCommentStart = ['/', '*'] := rfl
@[simp] theorem php_blockCommentEnd : php.blockCommentEnd = ['*', '/'] := rfl
@[simp] theorem php_docCommentStart : php.docCommentStart = ['/', '*', '*'] := rfl
@[simp] theorem php_quotes : php.quotes = [['"'], ['\'']] := rfl
@[simp] theorem php_statementSeparators : php.statementSeparators = [['\x7b'], ['\x7d'], [';']] := rfl
@[simp] theorem php_noSpaceBefore : php.noSpaceBefore = [['('], [')'], [',']] := rfl
@[simp] theorem php_argsStart : php.argsStart = ['('] := rfl
@[simp] theorem php_argsEnd : php.argsEnd = [')'] := rfl
@[simp] theorem php_declarations : php.declarations = phpKeywords := rfl

end Profile

theorem Settings.phpProfile_eq : Settings.phpProfile = .ok Profile.php :=
  Fallible.eq_ok_of_toOption (by decide +kernel)

namespace Php

/-- No marker starts with these two characters. -/
def Apart (c d : Char) : Prop := (c = '?' → d ≠ '>') ∧ (c = '/' → d ≠ '/' ∧ d ≠ '*')

/-- A space stands before a character that keeps it: neither a blank, a parenthesis nor a comma. -/
def Spaced (c d : Char) : Prop := c = ' ' → isBlank d = false ∧ d ≠ '(' ∧ d ≠ ')' ∧ d ≠ ','

/-- Two characters of code that stand next to each other in the normal form. -/
structure Adjacent (c d : Char) : Prop where
  apart : Apart c d
  spaced : Spaced c d

/-- A character that code in the normal form may hold. -/
structure Settled (c : Char) : Prop where
  noQuote : c ≠ '"' ∧ c ≠ '\''
  noSeparator : c ≠ '\x7b' ∧ c ≠ '\x7d' ∧ c ≠ ';'
  onlySpace : isBlank c = true → c = ' '

instance (c d : Char) : Decidable (Apart c d) := inferInstanceAs (Decidable (_ ∧ _))

instance (c d : Char) : Decidable (Spaced c d) := inferInstanceAs (Decidable (_ → _))

instance (c d : Char) : Decidable (Adjacent c d) :=
  decidable_of_iff (Apart c d ∧ Spaced c d) ⟨fun h => ⟨h.1, h.2⟩, fun h => ⟨h.apart, h.spaced⟩⟩

instance (c : Char) : Decidable (Settled c) :=
  decidable_of_iff
    ((c ≠ '"' ∧ c ≠ '\'') ∧ (c ≠ '\x7b' ∧ c ≠ '\x7d' ∧ c ≠ ';') ∧ (isBlank c = true → c = ' '))
    ⟨fun h => ⟨h.1, h.2.1, h.2.2⟩, fun h => ⟨h.noQuote, h.noSeparator, h.onlySpace⟩⟩

/-- Code in the normal form. -/
structure Normal (t : Text) : Prop where
  settled : ∀ c ∈ t, Settled c
  adjacent : t.IsChain Adjacent

theorem Apart.of_ne {c : Char} (noEnd : c ≠ '?') (noComment : c ≠ '/') (d : Char) : Apart c d :=
  ⟨fun h => absurd h noEnd, fun h => absurd h noComment⟩

theorem Adjacent.of_ne {c : Char} (noEnd : c ≠ '?') (noComment : c ≠ '/') (noSpace : c ≠ ' ') (d : Char) :
    Adjacent c d :=
  ⟨.of_ne noEnd noComment d, fun h => absurd h noSpace⟩

theorem Normal.append {s t : Text} (hs : Normal s) (ht : Normal t)
    (joined : ∀ c ∈ s.getLast?, ∀ d ∈ t.head?, Adjacent c d) : Normal (s ++ t) where
  settled c h := (List.mem_append.mp h).elim (hs.settled c) (ht.settled c)
  adjacent := hs.adjacent.append ht.adjacent joined

theorem Normal.not_mem {t : Text} (normal : Normal t) {c : Char} (blank : isBlank c = true) (h : c ≠ ' ') :
    c ∉ t :=
  fun member => h ((normal.settled c member).onlySpace blank)

theorem isPlain_of_apart {c d : Char} (noQuote : c ≠ '"' ∧ c ≠ '\'') (apart : Apart c d) (rest : Text) :
    Scan.isPlain .php (c :: d :: rest) = true := by
  obtain ⟨noEnd, noComment⟩ := apart
  simp only [Scan.isPlain, Scan.stands, Text.startsWith, Profile.php_codeEnd, Profile.php_quotes,
    Profile.php_lineComment, Profile.php_docCommentStart, Profile.php_blockCommentStart]
  grind [List.isPrefixOf]

theorem isPlain_of_ne {c : Char} (noQuote : c ≠ '"' ∧ c ≠ '\'') (noEnd : c ≠ '?') (noComment : c ≠ '/')
    (rest : Text) : Scan.isPlain .php (c :: rest) = true := by
  simp only [Scan.isPlain, Scan.stands, Text.startsWith, Profile.php_codeEnd, Profile.php_quotes,
    Profile.php_lineComment, Profile.php_docCommentStart, Profile.php_blockCommentStart]
  grind [List.isPrefixOf]

theorem plain_of_normal {t rest : Text} {next : Char} (settled : ∀ c ∈ t, Settled c)
    (chain : (t ++ [next]).IsChain Adjacent) : Scan.Plain .php (next :: rest) t := by
  induction t with
  | nil => exact True.intro
  | cons c t ih =>
    rw [List.forall_mem_cons] at settled
    cases t with
    | nil =>
      simp only [List.cons_append, List.nil_append, List.isChain_cons_cons] at chain
      exact ⟨isPlain_of_apart settled.1.noQuote chain.1.apart rest, True.intro⟩
    | cons d t =>
      simp only [List.cons_append, List.isChain_cons_cons] at chain
      refine ⟨?_, ih settled.2 (by simpa using chain.2)⟩
      exact isPlain_of_apart settled.1.noQuote chain.1.apart (t ++ next :: rest)

theorem isBlank_space : isBlank ' ' = true := rfl

theorem Settled.solid {c : Char} (settled : Settled c) (h : c ≠ ' ') : isBlank c = false := by
  by_contra blank
  exact h (settled.onlySpace (by simpa using blank))

theorem trim_of_solid {c : Char} (h : c ≠ ' ') (skeleton : Skeleton) :
    Skeleton.trim (.one c :: skeleton) = .one c :: skeleton := by
  unfold Skeleton.trim
  split
  case h_1 rest eq => simp_all
  case h_2 => rfl

/-- A character after code in the normal form goes to the end of the skeleton as it is. -/
theorem codeChar_settled {t : Text} {c : Char} (settled : ∀ d ∈ t, Settled d) (here : Settled c)
    (adjacent : ∀ d ∈ t.getLast?, Adjacent d c) (start : t = [] → isBlank c = false) :
    Scan.codeChar .php (t.reverse.map .one) c = .one c :: t.reverse.map .one := by
  have noReturn : c ≠ '\r' := by
    rintro rfl
    exact absurd (here.onlySpace rfl) (by decide)
  obtain ⟨noOpen, noClose, noSemicolon⟩ := here.noSeparator
  have noSeparator : Profile.php.statementSeparators.contains [c] = false := by
    simp [noOpen, noClose, noSemicolon]
  rw [Scan.codeChar, if_neg noReturn, noSeparator, if_neg Bool.false_ne_true]
  rcases List.eq_nil_or_concat t with rfl | ⟨before, last, rfl⟩
  · rw [if_neg (by simp [start rfl])]
    split <;> rfl
  · have joined : Adjacent last c := adjacent last (by simp)
    have lastSettled : Settled last := settled last (by simp)
    by_cases space : last = ' '
    · -- after a space stands a character that keeps the space before it
      obtain ⟨solid, noLeft, noRight, noComma⟩ := joined.spaced space
      have loose : Profile.php.noSpaceBefore.contains [c] = false := by
        simp [noLeft, noRight, noComma]
      rw [if_neg (by simp [solid]), loose, if_neg Bool.false_ne_true]
    · have solid := lastSettled.solid space
      have pieces : (before.concat last).reverse.map Piece.one = .one last :: before.reverse.map .one := by
        simp
      rw [pieces, trim_of_solid space, ite_self]
      by_cases blank : isBlank c = true
      · rw [if_pos blank, here.onlySpace blank]
        simp [Skeleton.softSpace, Piece.last, solid]
      · rw [if_neg blank]

theorem foldl_codeChar {t : Text} (normal : Normal t) (start : ∀ c ∈ t.head?, isBlank c = false) :
    t.foldl (Scan.codeChar .php) [] = t.reverse.map .one := by
  induction t using List.reverseRecOn with
  | nil => rfl
  | append_singleton t c ih =>
    obtain ⟨settled, chain⟩ := normal
    rw [List.isChain_append] at chain
    have before : ∀ d ∈ t, Settled d := fun d h => settled d (List.mem_append_left _ h)
    have first : ∀ d ∈ t.head?, isBlank d = false := by
      intro d h
      apply start
      cases t with
      | nil => cases h
      | cons e t => exact h
    rw [List.foldl_append, ih ⟨before, chain.1⟩ first]
    rw [List.foldl_cons, List.foldl_nil, codeChar_settled before (settled c (by simp))]
    · simp
    · exact fun d h => chain.2.2 d h c rfl
    · rintro rfl
      exact start c rfl

/-- The skeleton of code in the normal form is that code. -/
theorem text_map_one (t : Text) : Skeleton.text (t.reverse.map .one) = t := by
  rw [Skeleton.text, ← List.map_reverse, List.reverse_reverse, List.flatMap_map]
  simp [Piece.text]

end Php

end Marginalia
