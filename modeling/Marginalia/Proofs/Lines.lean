import Marginalia.Declaration
import Marginalia.Proofs.Text
import Mathlib.Data.List.Basic
import Mathlib.Data.List.Induction

/-!
# Lines of code

The lines of two texts one after the other are the lines of both, except that the last line of the first text and the
first line of the second one are joined. What is found on the lines of a text does not depend on the blanks around the
text, if it does not depend on those around a line.
-/

namespace Marginalia

namespace Text

/-! ## Texts one after the other -/

theorem splitOn_append_cons {p : Char → Bool} {c : Char} (separates : p c = true) (s t : Text) :
    splitOn p (s ++ c :: t) = splitOn p s ++ splitOn p t := by
  induction s with
  | nil => simp [splitOn, separates]
  | cons d s ih =>
    by_cases here : p d = true
    · simp [splitOn, here, ih]
    · cases parts : splitOn p s with
      | nil => exact absurd parts (splitOn_ne_nil p s)
      | cons part rest => simp [splitOn, here, ih, parts]

theorem lines_append_cons (s t : Text) : lines (s ++ '\n' :: t) = lines s ++ lines t :=
  splitOn_append_cons rfl s t

theorem exists_splitOn_concat (p : Char → Bool) (t : Text) : ∃ front last, splitOn p t = front ++ [last] := by
  obtain ⟨front, last, whole⟩ := (List.eq_nil_or_concat (splitOn p t)).resolve_left (splitOn_ne_nil p t)
  exact ⟨front, last, by simpa using whole⟩

/-- The part that the first text ends with and the part that the second one starts with are one part. -/
theorem splitOn_append {p : Char → Bool} {s t last first : Text} {front rest : List Text}
    (before : splitOn p s = front ++ [last]) (after : splitOn p t = first :: rest) :
    splitOn p (s ++ t) = front ++ (last ++ first) :: rest := by
  induction s generalizing front last with
  | nil =>
    obtain ⟨rfl, rfl⟩ : front = [] ∧ last = [] := by
      cases front with
      | nil => simpa [splitOn, eq_comm] using before
      | cons part front => simp [splitOn] at before
    exact after
  | cons c s ih =>
    by_cases here : p c = true
    · cases front with
      | nil => simp [splitOn, here, splitOn_ne_nil] at before
      | cons part front =>
        simp only [splitOn, here, if_true, List.cons_append, List.cons.injEq] at before
        simp [splitOn, here, ih before.2, before.1]
    · obtain ⟨front', last', parts⟩ := exists_splitOn_concat p s
      have whole := ih parts
      cases front' with
      | nil =>
        simp only [splitOn, here, parts, Bool.false_eq_true, if_false, List.nil_append] at before
        obtain ⟨rfl, same⟩ := List.append_eq_singleton_iff.mp before.symm |>.resolve_right (by simp)
        obtain rfl := List.singleton_inj.mp same
        simp [splitOn, here, whole]
      | cons part front' =>
        simp only [splitOn, here, parts, Bool.false_eq_true, if_false, List.cons_append] at before
        cases front with
        | nil => simp at before
        | cons part' front =>
          simp only [List.cons_append, List.cons.injEq] at before
          obtain ⟨rfl, sameFront⟩ := before
          obtain ⟨rfl, same⟩ := List.append_inj' sameFront rfl
          obtain rfl := List.singleton_inj.mp same
          simp [splitOn, here, whole]

theorem not_mem_of_mem_lines {t line : Text} (member : line ∈ t.lines) : '\n' ∉ line := by
  intro feed
  have apart := splitOn_eq_false (p := (· == '\n')) member _ feed
  simp at apart

theorem join_lines (t : Text) : join "\n" t.lines = t := by
  induction t with
  | nil => rfl
  | cons c t ih =>
    obtain ⟨first, rest, parts⟩ := List.exists_cons_of_ne_nil (splitOn_ne_nil (· == '\n') t)
    rw [lines, parts] at ih
    by_cases feed : c = '\n'
    · subst feed
      rw [lines, splitOn, if_pos (by rfl), parts, join_cons_cons, ih]
      rfl
    · rw [lines, splitOn, if_neg (by simpa using feed), parts]
      cases rest with
      | nil =>
        rw [join_singleton] at ih ⊢
        rw [ih]
      | cons second rest =>
        rw [join_cons_cons] at ih ⊢
        rw [← ih]
        rfl

theorem splitOn_join {c : Char} {parts : List Text} (content : parts ≠ []) (one : ∀ part ∈ parts, c ∉ part) :
    splitOn (· == c) (join [c] parts) = parts := by
  have whole : ∀ part : Text, c ∉ part → splitOn (· == c) part = [part] := by
    intro part absent
    refine splitOn_of_forall fun d member => ?_
    rw [beq_eq_false_iff_ne]
    rintro rfl
    exact absent member
  induction parts with
  | nil => exact absurd rfl content
  | cons first rest ih =>
    rw [List.forall_mem_cons] at one
    cases rest with
    | nil => rw [join_singleton, whole first one.1]
    | cons second rest =>
      rw [join_cons_cons, List.singleton_append, splitOn_append_cons (by simp), whole first one.1,
        ih (by simp) one.2, List.singleton_append]

theorem lines_join {parts : List Text} (content : parts ≠ []) (one : ∀ part ∈ parts, '\n' ∉ part) :
    lines (join "\n" parts) = parts := splitOn_join content one

/-! ## Blanks around a text -/

theorem head?_trimLeft (t : Text) : ∀ c ∈ t.trimLeft.head?, isBlank c = false := by
  intro c h
  have first := List.head?_dropWhile_not isBlank t
  rw [show (t.dropWhile isBlank).head? = some c from h] at first
  exact first

theorem trim_prefix (t : Text) : t.trim <+: t.trimLeft := by
  have kept := List.dropWhile_suffix isBlank (l := t.trimLeft.reverse)
  simpa [trim, trimRight, dropRightWhile] using List.reverse_prefix.mpr kept

theorem tight_trim (t : Text) : t.trim.Tight where
  start c h := by
    apply head?_trimLeft t
    obtain ⟨rest, cut⟩ := trim_prefix t
    rw [← cut, List.head?_append, show t.trim.head? = some c from h]
    rfl
  stop c h := by
    apply head?_trimLeft t.trimLeft.reverse
    simpa [trim, trimRight, dropRightWhile, trimLeft] using h

theorem trim_cons_of_blank {c : Char} (blank : isBlank c = true) (t : Text) : trim (c :: t) = trim t := by
  simp [trim, trimLeft, blank]

theorem trimRight_concat_of_blank {c : Char} (blank : isBlank c = true) (t : Text) :
    trimRight (t ++ [c]) = trimRight t := by
  simp [trimRight, dropRightWhile, blank]

theorem trim_concat_of_blank {c : Char} (blank : isBlank c = true) (t : Text) : trim (t ++ [c]) = trim t := by
  rw [trim, trim, trimLeft, List.dropWhile_append]
  split
  · next empty =>
    rw [trimLeft, List.isEmpty_iff.mp empty]
    simp [blank]
  · exact trimRight_concat_of_blank blank _

theorem trim_append_of_blank (before : Text) (blank : ∀ c ∈ before, isBlank c = true) (t : Text) :
    trim (before ++ t) = trim t := by
  induction before with
  | nil => rfl
  | cons c before ih =>
    rw [List.forall_mem_cons] at blank
    rw [List.cons_append, trim_cons_of_blank blank.1, ih blank.2]

theorem trim_append_blank (after : Text) (blank : ∀ c ∈ after, isBlank c = true) (t : Text) :
    trim (t ++ after) = trim t := by
  induction after using List.reverseRecOn with
  | nil => rw [List.append_nil]
  | append_singleton after c ih =>
    rw [← List.append_assoc, trim_concat_of_blank (blank c (by simp))]
    exact ih fun d member => blank d (List.mem_append_left _ member)

section Solid

variable {q : Char} (solid : isBlank q = false)

include solid

theorem trimLeft_append_cons (t r : Text) : trimLeft (t ++ q :: r) = trimLeft t ++ q :: r := by
  unfold trimLeft
  induction t with
  | nil => simp [solid]
  | cons c t ih => by_cases blank : isBlank c = true <;> simp [blank, ih]

theorem trimRight_append_cons (t r : Text) : trimRight (t ++ q :: r) = t ++ q :: trimRight r := by
  have cut := trimLeft_append_cons solid r.reverse t.reverse
  unfold trimLeft at cut
  simp [trimRight, dropRightWhile, cut]

theorem trim_append_cons (t r : Text) : trim (t ++ q :: r) = trimLeft t ++ q :: trimRight r := by
  rw [trim, trimLeft_append_cons solid, trimRight_append_cons solid]

end Solid

/-! ## Lines without the blanks around them -/

section Blind

variable {β : Type} {f : Text → Option β} (blind : ∀ s t : Text, s.trim = t.trim → f s = f t) (none : f [] = none)

include blind none

theorem filterMap_lines_cons {c : Char} (blank : isBlank c = true) (t : Text) :
    (lines (c :: t)).filterMap f = (lines t).filterMap f := by
  by_cases feed : c = '\n'
  · subst feed
    simp [lines, splitOn, none]
  · unfold lines
    rw [splitOn, if_neg (by simpa using feed)]
    cases parts : splitOn (· == '\n') t with
    | nil => exact absurd parts (splitOn_ne_nil _ t)
    | cons line rest =>
      have same : f (c :: line) = f line := blind _ _ (trim_cons_of_blank blank line)
      simp [List.filterMap_cons, same]

theorem filterMap_lines_concat {c : Char} (blank : isBlank c = true) (t : Text) :
    (lines (t ++ [c])).filterMap f = (lines t).filterMap f := by
  by_cases feed : c = '\n'
  · subst feed
    rw [lines_append_cons, List.filterMap_append]
    simp [lines, splitOn, none]
  · obtain ⟨front, last, parts⟩ := exists_splitOn_concat (· == '\n') t
    have whole : lines (t ++ [c]) = front ++ [last ++ [c]] :=
      splitOn_append parts (splitOn_of_forall (by simpa using feed))
    have same : f (last ++ [c]) = f last := blind _ _ (trim_concat_of_blank blank last)
    rw [whole, lines, parts]
    simp [List.filterMap_append, List.filterMap_cons, same]

/-- Where the blanks around a line do not count, those around a text do not. -/
theorem filterMap_lines_trim (t : Text) : (lines t.trim).filterMap f = (lines t).filterMap f := by
  obtain ⟨before, after, whole, blank⟩ := exists_trim t
  rw [List.forall_mem_append] at blank
  have left : ∀ s, (lines (before ++ s)).filterMap f = (lines s).filterMap f := by
    intro s
    clear whole
    induction before with
    | nil => rfl
    | cons c before ih =>
      rw [List.forall_mem_cons] at blank
      rw [List.cons_append, filterMap_lines_cons blind none blank.1.1, ih ⟨blank.1.2, blank.2⟩]
  have right : ∀ s, (lines (s ++ after)).filterMap f = (lines s).filterMap f := by
    intro s
    clear whole
    induction after using List.reverseRecOn with
    | nil => rw [List.append_nil]
    | append_singleton after c ih =>
      simp only [List.forall_mem_append, List.forall_mem_singleton] at blank
      rw [← List.append_assoc, filterMap_lines_concat blind none blank.2.2, ih ⟨blank.1, blank.2.1⟩]
  conv_rhs => rw [whole, right, left]

end Blind

end Text

/-! ## Declarations on lines -/

namespace Signature

/-- One keyword more in the search for the longest one. -/
def longer (line : Text) (best : Option (Text × Kind × Text)) (entry : Text × Kind) : Option (Text × Kind × Text) :=
  match afterKeyword? entry.1 line with
  | none => best
  | some rest =>
    match best with
    | some (longest, _, _) => if longest.length < entry.1.length then some (entry.1, entry.2, rest) else best
    | none => some (entry.1, entry.2, rest)

theorem keywordOf?_eq (declarations : List (Text × Kind)) (line : Text) :
    keywordOf? declarations line = declarations.foldl (longer line) none := rfl

/-- The declarations on the lines of skeleton code. -/
def onLines (p : Profile) (code : Text) : List Signature := code.lines.filterMap (ofLine? p)

theorem ofLine?_of_trim_eq {p : Profile} {line other : Text} (same : line.trim = other.trim) :
    ofLine? p line = ofLine? p other := by
  unfold ofLine?
  rw [same]

theorem afterKeyword?_nil (keyword : Text) : afterKeyword? keyword [] = none := by
  cases keyword <;> rfl

theorem ofLine?_nil (p : Profile) : ofLine? p [] = none := by
  have none : keywordOf? p.declarations.entries [] = none := by
    rw [keywordOf?_eq]
    exact List.foldl_fixed' (fun entry => by rw [longer, afterKeyword?_nil]) _
  unfold ofLine?
  rw [show Text.trim [] = [] from rfl, none]

@[simp] theorem onLines_nil (p : Profile) : onLines p [] = [] := by
  simp [onLines, Text.lines, Text.splitOn, ofLine?_nil]

theorem onLines_append_cons (p : Profile) (a b : Text) : onLines p (a ++ '\n' :: b) = onLines p a ++ onLines p b := by
  rw [onLines, Text.lines_append_cons, List.filterMap_append]
  rfl

/-- Blanks around code hold no declaration. -/
theorem onLines_trim (p : Profile) (code : Text) : onLines p code.trim = onLines p code :=
  Text.filterMap_lines_trim (fun _ _ => ofLine?_of_trim_eq) (ofLine?_nil p) code

theorem onLines_join (p : Profile) (codes : List Text) :
    onLines p (Text.join "\n" codes) = codes.flatMap (onLines p) := by
  induction codes with
  | nil => exact onLines_nil p
  | cons first rest ih =>
    cases rest with
    | nil => simp [Text.join_singleton]
    | cons second rest =>
      rw [Text.join_cons_cons, List.flatMap_cons, ← ih]
      exact onLines_append_cons p first _

/-- Between the delimiters stand the arguments, after what is left of the first delimiter without its first
    character. -/
theorem functionParts_delimited {argsStart argsEnd name arguments : Text} (startContent : argsStart ≠ [])
    (stopContent : argsEnd ≠ [])
    (first : Text.indexOf? argsStart (name ++ argsStart ++ arguments ++ argsEnd) = some name.length) :
    functionParts argsStart argsEnd (name ++ argsStart ++ arguments ++ argsEnd)
      = (name.trim, Text.trim (argsStart.drop 1 ++ arguments)) := by
  have last : Text.lastIndexOf? argsEnd (name ++ argsStart ++ arguments ++ argsEnd)
      = some (name ++ argsStart ++ arguments).length := Text.lastIndexOf?_append stopContent _
  obtain ⟨c, more, rfl⟩ := List.exists_cons_of_ne_nil startContent
  have order : name.length < (name ++ c :: more ++ arguments).length := by
    simp only [List.length_append, List.length_cons]
    omega
  simp only [functionParts, first, last]
  rw [if_pos order, List.take_left]
  simp

end Signature

theorem Declaration.ofCode_eq (p : Profile) (code : Text) (pending : Block) :
    ofCode p code pending = documented pending (Signature.onLines p code) := by
  rw [← Signature.onLines_trim]
  rfl

end Marginalia
