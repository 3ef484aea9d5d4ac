import Marginalia.Proofs.Keywords

/-!
# Arguments between delimiters

The arguments of a function reach from the first start delimiter to the last end delimiter, whatever delimiters they
hold themselves. Only the first character of the start delimiter is passed over, so the arguments alone are found
exactly if that delimiter is one character.
-/

namespace Marginalia

namespace Text

theorem length_trim_le (t : Text) : t.trim.length ≤ t.trimRight.length := by
  by_cases nothing : t.trim = []
  · rw [nothing]
    exact Nat.zero_le _
  · obtain ⟨before, after, whole, blank⟩ := exists_trim t
    rw [List.forall_mem_append] at blank
    have stop : ∀ c ∈ (before ++ t.trim).getLast?, isBlank c = false := by
      rw [List.getLast?_append_of_ne_nil _ nothing]
      exact (tight_trim t).stop
    have right : t.trimRight = before ++ t.trim := by
      conv_lhs => rw [whole, trimRight_append_blanks blank.2 stop]
    rw [right, List.length_append]
    exact Nat.le_add_left _ _

/-- Blanks are trimmed on the right only where something solid is in front. -/
theorem trim_append_of_solid {front : Text} (content : front ≠ []) (solid : ∀ c ∈ front, isBlank c = false) (t : Text) :
    trim (front ++ t) = front ++ trimRight t := by
  obtain ⟨more, last, rfl⟩ := (List.eq_nil_or_concat front).resolve_left content
  rw [List.concat_eq_append] at solid ⊢
  have start : ∀ c ∈ (more ++ [last] ++ t).head?, isBlank c = false := by
    intro c first
    apply solid
    rw [List.head?_append_of_ne_nil _ (by simp)] at first
    exact List.mem_of_mem_head? first
  rw [trim, trimLeft_of_head start, List.append_assoc, List.singleton_append,
    trimRight_append_cons (solid last (by simp))]
  simp

end Text

namespace Signature

/-- The line of a function, with its arguments between the delimiters of the profile. -/
def functionLine (p : Profile) (keyword name arguments : Text) : Text :=
  keyword ++ " " ++ name ++ p.argsStart ++ arguments ++ p.argsEnd

/-- A function that can be told from its line: the delimiters are no blanks, the first start delimiter comes right after
    the name, and no longer keyword starts the line. -/
structure Delimited (p : Profile) (keyword : Text) (kind : Kind) (name arguments : Text) : Prop where
  startContent : p.argsStart ≠ []
  startSolid : ∀ c ∈ p.argsStart, isBlank c = false
  stopContent : p.argsEnd ≠ []
  stopSolid : ∀ c ∈ p.argsEnd, isBlank c = false
  declared : p.declarations.get? keyword = some kind
  function : kind.isContainer = false
  keywordContent : keyword ≠ []
  keywordTight : keyword.Tight
  nameContent : name ≠ []
  nameTight : name.Tight
  nameOne : '\n' ∉ name
  argumentsOne : '\n' ∉ arguments
  first : Text.indexOf? p.argsStart (name ++ p.argsStart ++ arguments ++ p.argsEnd) = some name.length
  longest : ∀ longer ∈ p.declarations.keys, keyword.length < longer.length →
    ¬ Heads longer (functionLine p keyword name arguments)

namespace Delimited

variable {p : Profile} {keyword name arguments : Text} {kind : Kind} (written : Delimited p keyword kind name arguments)
include written

theorem tight_declared : (name ++ p.argsStart ++ arguments ++ p.argsEnd).Tight where
  start c first := by
    obtain ⟨d, more, rfl⟩ := List.exists_cons_of_ne_nil written.nameContent
    exact written.nameTight.start c first
  stop c last := by
    rw [List.getLast?_append_of_ne_nil _ written.stopContent] at last
    exact written.stopSolid c (List.mem_of_mem_getLast? last)

theorem tight_line : (functionLine p keyword name arguments).Tight where
  start c first := by
    obtain ⟨d, more, rfl⟩ := List.exists_cons_of_ne_nil written.keywordContent
    exact written.keywordTight.start c first
  stop c last := by
    rw [functionLine, List.getLast?_append_of_ne_nil _ written.stopContent] at last
    exact written.stopSolid c (List.mem_of_mem_getLast? last)

theorem one_declared : '\n' ∉ name ++ p.argsStart ++ arguments ++ p.argsEnd := by
  simp only [List.mem_append, not_or]
  refine ⟨⟨⟨written.nameOne, fun feed => ?_⟩, written.argumentsOne⟩, fun feed => ?_⟩
  · exact absurd (written.startSolid _ feed) (by decide)
  · exact absurd (written.stopSolid _ feed) (by decide)

theorem afterKeyword?_line : afterKeyword? keyword (functionLine p keyword name arguments)
    = some (name ++ p.argsStart ++ arguments ++ p.argsEnd) := by
  have whole : functionLine p keyword name arguments
      = keyword ++ ' ' :: (name ++ p.argsStart ++ arguments ++ p.argsEnd) := by simp [functionLine]
  have start := Text.trimLeft_of_head written.tight_declared.start
  have one := written.one_declared
  rw [whole, afterKeyword?_append]
  generalize name ++ p.argsStart ++ arguments ++ p.argsEnd = declared at start one
  simp [afterKeyword?, Text.afterStart?, show isBlank ' ' = true from rfl, start, one]

theorem keywordOf?_line : keywordOf? p.declarations.entries (functionLine p keyword name arguments)
    = some (keyword, kind, name ++ p.argsStart ++ arguments ++ p.argsEnd) := by
  have member := (Entries.get?_eq_some_iff p.declarations.nodup).mp written.declared
  refine keywordOf?_of_longest p.declarations.nodup member written.afterKeyword?_line fun entry inside fits => ?_
  obtain ⟨rest, found⟩ := Option.isSome_iff_exists.mp fits
  by_contra longer
  have head := heads_of_afterKeyword? found
  exact written.longest entry.1 (Entries.mem_keys_of_mem inside) (Nat.lt_of_not_le longer) head

end Delimited

/-- What is left of a start delimiter after its first character is seen in the arguments. -/
theorem trim_drop_append_eq_iff {start : Text} (content : start ≠ []) (solid : ∀ c ∈ start, isBlank c = false)
    (arguments : Text) : Text.trim (start.drop 1 ++ arguments) = arguments.trim ↔ start.length = 1 := by
  obtain ⟨c, more, rfl⟩ := List.exists_cons_of_ne_nil content
  rw [List.forall_mem_cons] at solid
  rw [List.drop_one, List.tail_cons, List.length_cons]
  constructor
  · intro same
    by_contra longer
    have rest : more ≠ [] := by
      rintro rfl
      exact longer rfl
    rw [Text.trim_append_of_solid rest solid.2] at same
    have lengths := congrArg List.length same
    rw [List.length_append] at lengths
    have bound := Text.length_trim_le arguments
    have positive := List.length_pos_of_ne_nil rest
    omega
  · intro one
    obtain rfl := List.eq_nil_of_length_eq_zero (Nat.succ.inj one)
    rfl

/-- A function is found on its line with its keyword, kind and name. Its arguments are what stands between the first
    character of the start delimiter and the end delimiter, and this is the text between the delimiters if and only if
    the start delimiter is one character. -/
theorem ofLine?_functionLine {p : Profile} {keyword name arguments : Text} {kind : Kind}
    (written : Delimited p keyword kind name arguments) :
    ofLine? p (functionLine p keyword name arguments)
        = some ⟨kind, keyword, name, Text.trim (p.argsStart.drop 1 ++ arguments)⟩
      ∧ (Text.trim (p.argsStart.drop 1 ++ arguments) = arguments.trim ↔ p.argsStart.length = 1) := by
  refine ⟨?_, trim_drop_append_eq_iff written.startContent written.startSolid arguments⟩
  have parts := functionParts_delimited written.startContent written.stopContent written.first
  rw [Text.trim_of_tight written.nameTight] at parts
  rw [ofLine?, Text.trim_of_tight written.tight_line, written.keywordOf?_line]
  dsimp only
  rw [Text.trim_of_tight written.tight_declared, if_neg (by simp [written.function]), parts]

/-- A profile with delimiters of two characters. -/
def angled : Profile where
  declarations := ⟨[("function", .function)], by decide⟩
  argsStart := "<<"
  argsEnd := ">>"

theorem ofLine?_functionLine_angled :
    ofLine? angled "function f<<$a = g<<1>>, $b>>" = some ⟨.function, "function", "f", "<$a = g<<1>>, $b"⟩
      ∧ ("<$a = g<<1>>, $b" : Text) ≠ Text.trim "$a = g<<1>>, $b" := by
  have written : Delimited angled "function" .function "f" "$a = g<<1>>, $b" := {
    startContent := by decide
    startSolid := by decide
    stopContent := by decide
    stopSolid := by decide
    declared := by decide
    function := rfl
    keywordContent := by decide
    keywordTight := by decide
    nameContent := by decide
    nameTight := by decide
    nameOne := by decide
    argumentsOne := by decide
    first := by decide
    longest := by
      intro longer declared more
      rw [List.mem_singleton.mp declared] at more
      exact absurd more (Nat.lt_irrefl _) }
  obtain ⟨found, exactly⟩ := ofLine?_functionLine written
  exact ⟨found, fun same => absurd (exactly.mp same) (by decide)⟩

end Signature

end Marginalia
