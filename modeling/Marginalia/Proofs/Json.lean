import Marginalia.Proofs.Numeral
import Marginalia.Proofs.Sorted
import Marginalia.Proofs.Text

/-!
# JSON that is read back

A well-formed value that is written with its members in the order of their keys is read back with its members in
that order. So the written text determines the value up to the order of members, at every depth. Conversely what is
read is well formed.
-/

namespace Marginalia.Json

/-! ## Strings -/

/-- The code units of a character: one, or the two halves of a pair. -/
def unitsOf (c : Char) : List Nat :=
  if c.toNat < 0x10000 then [c.toNat]
  else [0xd800 + (c.toNat - 0x10000) / 0x400, 0xdc00 + (c.toNat - 0x10000) % 0x400]

theorem toNat_lt (c : Char) : c.toNat < 0x110000 := by
  rcases c.valid with low | ⟨-, high⟩
  · exact Nat.lt_trans low (by decide)
  · exact high

theorem not_surrogate (c : Char) : c.toNat < 0xd800 ∨ 0xdfff < c.toNat := by
  rcases c.valid with low | ⟨high, -⟩
  · exact .inl low
  · exact .inr high

theorem charOfUnit_toNat (c : Char) : charOfUnit c.toNat = c := by
  rw [charOfUnit, if_pos (show c.toNat.isValidChar from c.valid), Char.ofNat_toNat]

/-- The units of a character are joined to the character, whatever units follow. -/
theorem joinUnits_unitsOf (c : Char) (units : List Nat) : joinUnits (unitsOf c ++ units) = c :: joinUnits units := by
  have bound := toNat_lt c
  unfold unitsOf
  split
  · next short =>
    cases units with
    | nil =>
      show [charOfUnit c.toNat] = [c]
      rw [charOfUnit_toNat]
    | cons next units =>
      have single : charOfPair? c.toNat next = none := by
        rw [charOfPair?, if_neg]
        have := not_surrogate c
        omega
      rw [List.singleton_append, joinUnits, single, charOfUnit_toNat]
  · next long =>
    have pair : charOfPair? (0xd800 + (c.toNat - 0x10000) / 0x400) (0xdc00 + (c.toNat - 0x10000) % 0x400) = some c := by
      have joined : 0x10000 + (0xd800 + (c.toNat - 0x10000) / 0x400 - 0xd800) * 0x400
          + (0xdc00 + (c.toNat - 0x10000) % 0x400 - 0xdc00) = c.toNat := by omega
      rw [charOfPair?, if_pos (by omega), joined, Char.ofNat_toNat]
    rw [List.cons_append, List.cons_append, List.nil_append, joinUnits, pair]

theorem joinUnits_flatMap (t : Text) : joinUnits (t.flatMap unitsOf) = t := by
  induction t with
  | nil => rfl
  | cons c t ih => rw [List.flatMap_cons, joinUnits_unitsOf, ih]

/-- The units that an escape adds to those read after it. -/
def addUnits (units : List Nat) (read : Option (List Nat × Text)) : Option (List Nat × Text) :=
  read.map fun (more, after) => (units ++ more, after)

theorem readUnits?_unitEscape {n : Nat} (small : n < 65536) (rest : Text) :
    readUnits? (unitEscape n ++ rest) = addUnits [n] (readUnits? rest) := by
  have width : (hexadecimal 4 n).length = 4 := length_hexadecimal (by decide) small
  have value := readHex?_hexadecimal (show 0 < 4 by decide) small []
  rw [List.append_nil] at value
  unfold unitEscape
  match hex : hexadecimal 4 n, width with
  | [a, b, c, d], _ =>
    have unit : unit? a b c d = some n := by rw [unit?, ← hex, value]; rfl
    show readUnits? ('\\' :: 'u' :: a :: b :: c :: d :: rest) = _
    rw [readUnits?, unit]
    cases readUnits? rest <;> rfl

theorem readUnits?_plain {c : Char} (visible : 0x20 ≤ c.toNat) (quote : c ≠ '"') (backslash : c ≠ '\\') (rest : Text) :
    readUnits? (c :: rest) = addUnits [c.toNat] (readUnits? rest) := by
  have allowed : ¬ (c.toNat < 0x20 ∨ c = '\\') := by
    rintro (control | same)
    · omega
    · exact backslash same
  rw [readUnits?.eq_def]
  split
  · next same => cases same
  · next same => exact absurd (List.cons.inj same).1 quote
  · next same => exact absurd (List.cons.inj same).1 backslash
  · next same => exact absurd (List.cons.inj same).1 backslash
  · next same =>
    obtain ⟨rfl, rfl⟩ := List.cons.inj same
    rw [if_neg allowed]
    cases readUnits? rest <;> rfl

theorem readUnits?_escapeChar (c : Char) (rest : Text) :
    readUnits? (escapeChar c ++ rest) = addUnits (unitsOf c) (readUnits? rest) := by
  have simple : ∀ e ch : Char, e ≠ 'u' → simpleEscape? e = some ch → ch.toNat < 0x10000 →
      readUnits? ('\\' :: e :: rest) = addUnits (unitsOf ch) (readUnits? rest) := by
    intro e ch notUnit meaning short
    rw [unitsOf, if_pos short, readUnits?.eq_def]
    split
    · next same => cases same
    · next same => exact absurd (List.cons.inj same).1 (by decide)
    · next same => exact absurd (List.cons.inj (List.cons.inj same).2).1 notUnit
    · next same =>
      obtain ⟨rfl, rfl⟩ := List.cons.inj (List.cons.inj same).2
      rw [meaning]
      cases readUnits? rest <;> rfl
    · next notEscape same =>
      obtain ⟨rfl, rfl⟩ := List.cons.inj same
      exact (notEscape _ _ rfl rfl).elim
  have bound := toNat_lt c
  unfold escapeChar
  split
  · next same => subst same; exact simple _ _ (by decide) rfl (by decide)
  split
  · next same => subst same; exact simple _ _ (by decide) rfl (by decide)
  split
  · next same => subst same; exact simple _ _ (by decide) rfl (by decide)
  split
  · next same => subst same; exact simple _ _ (by decide) rfl (by decide)
  split
  · next same => subst same; exact simple _ _ (by decide) rfl (by decide)
  split
  · next same => subst same; exact simple _ _ (by decide) rfl (by decide)
  split
  · next same => subst same; exact simple _ _ (by decide) rfl (by decide)
  split
  · next quote backslash _ _ _ _ _ visible =>
    rw [unitsOf, if_pos (by omega)]
    exact readUnits?_plain visible.1 quote backslash rest
  split
  · next short =>
    rw [unitsOf, if_pos short]
    exact readUnits?_unitEscape short rest
  · next long =>
    rw [unitsOf, if_neg long, List.append_assoc, readUnits?_unitEscape (by omega), readUnits?_unitEscape (by omega)]
    cases readUnits? rest <;> rfl

theorem readString?_flatMap (t rest : Text) :
    readString? (t.flatMap escapeChar ++ '"' :: rest) = some (t, rest) := by
  have units : readUnits? (t.flatMap escapeChar ++ '"' :: rest) = some (t.flatMap unitsOf, rest) := by
    induction t with
    | nil => rfl
    | cons c t ih =>
      rw [List.flatMap_cons, List.append_assoc, readUnits?_escapeChar, ih]
      rfl
  rw [readString?, units]
  show some (joinUnits (t.flatMap unitsOf), rest) = some (t, rest)
  rw [joinUnits_flatMap]

/-! ## Lists and objects -/

theorem isSpace_iff {c : Char} : isSpace c = true ↔ c = ' ' ∨ c = '\t' ∨ c = '\n' ∨ c = '\r' := by
  simp [isSpace, or_assoc]

/-- A text of space characters only. -/
def Spaces (t : Text) : Prop := ∀ c ∈ t, isSpace c = true

theorem skipSpace_append {gap : Text} (spaces : Spaces gap) (t : Text) : skipSpace (gap ++ t) = skipSpace t :=
  List.dropWhile_append_of_pos spaces

theorem skipSpace_cons {c : Char} (solid : isSpace c = false) (t : Text) : skipSpace (c :: t) = c :: t := by
  simp [skipSpace, solid]

theorem spaces_lineBreak (depth : Nat) : Spaces (lineBreak depth) := by
  intro c member
  rcases List.mem_cons.mp member with rfl | blank
  · rfl
  · rw [List.eq_of_mem_replicate blank]
    rfl

/-- Some text is read as a value wherever it stands before something that cannot belong to it. The text starts
    with neither space nor a closing bracket. -/
structure ReadsBack (text : Text) (v : Value) : Prop where
  starts : ∃ c t, text = c :: t ∧ isSpace c = false ∧ c ≠ ']'
  reads : ∀ fuel rest, Ended rest → text.length ≤ fuel → readValue? fuel (text ++ rest) = some (v, rest)

theorem ReadsBack.skipSpace {text : Text} {v : Value} (back : ReadsBack text v) (rest : Text) :
    skipSpace (text ++ rest) = text ++ rest := by
  obtain ⟨c, t, rfl, solid, -⟩ := back.starts
  exact skipSpace_cons solid (t ++ rest)

theorem ended_comma (t : Text) : Ended (',' :: t) := by simp [Ended]

/-- The end of a list or an object, after spaces, ends a number. -/
theorem ended_close {gap : Text} (spaces : Spaces gap) {c : Char} (ended : ∀ t, Ended (c :: t)) (t : Text) :
    Ended (gap ++ c :: t) := by
  cases gap with
  | nil => exact ended t
  | cons space gap =>
    have first : isSpace space = true := spaces space List.mem_cons_self
    rintro d member
    obtain rfl : space = d := by simpa using member
    rcases isSpace_iff.mp first with rfl | rfl | rfl | rfl <;> decide

theorem skipSpace_join (separator : Text) {first : Text} (rest : List Text)
    (starts : ∃ c t, first = c :: t ∧ isSpace c = false) (after : Text) :
    skipSpace (Text.join separator (first :: rest) ++ after) = Text.join separator (first :: rest) ++ after := by
  obtain ⟨c, t, rfl, solid⟩ := starts
  cases rest with
  | nil =>
    rw [Text.join_singleton]
    exact skipSpace_cons solid _
  | cons second rest =>
    rw [Text.join_cons_cons]
    exact skipSpace_cons solid _

theorem readItems?_join {gap close : Text} (gapSpaces : Spaces gap) (closeSpaces : Spaces close)
    (parts : List (Text × Value)) (some_part : parts ≠ []) (back : ∀ part ∈ parts, ReadsBack part.1 part.2)
    (fuel : Nat) (rest : Text)
    (enough : (Text.join (',' :: gap) (parts.map Prod.fst)).length + close.length + 1 ≤ fuel) :
    readItems? fuel (Text.join (',' :: gap) (parts.map Prod.fst) ++ (close ++ ']' :: rest))
      = some (parts.map Prod.snd, rest) := by
  induction parts generalizing fuel with
  | nil => exact absurd rfl some_part
  | cons part parts ih =>
    obtain ⟨text, v⟩ := part
    obtain ⟨fuel, rfl⟩ := Nat.exists_eq_add_one.mpr (show 0 < fuel by omega)
    have first : ReadsBack text v := back (text, v) List.mem_cons_self
    cases parts with
    | nil =>
      rw [List.map_singleton, Text.join_singleton] at enough ⊢
      have ended : Ended (close ++ ']' :: rest) := ended_close closeSpaces (fun t => by simp [Ended]) rest
      rw [readItems?, first.reads fuel _ ended (by simp only at enough; omega)]
      simp [skipSpace_append closeSpaces, skipSpace_cons (show isSpace ']' = false by decide)]
    | cons next parts =>
      obtain ⟨c, t, same, solid, -⟩ := (back next (by simp)).starts
      have separated := skipSpace_join (',' :: gap) (parts.map Prod.fst) ⟨c, t, same, solid⟩ (close ++ ']' :: rest)
      have more := ih (by simp) (fun part h => back part (List.mem_cons_of_mem _ h))
      rw [List.map_cons, List.map_cons, Text.join_cons_cons] at enough ⊢
      rw [List.map_cons] at more
      simp only [List.length_append, List.length_cons] at enough
      specialize more fuel (by omega)
      rw [List.append_assoc, List.append_assoc, List.cons_append]
      generalize Text.join (',' :: gap) (next.1 :: parts.map Prod.fst) ++ (close ++ ']' :: rest) = tail at *
      rw [readItems?, first.reads fuel _ (ended_comma _) (by omega)]
      simp [skipSpace_cons (show isSpace ',' = false by decide), skipSpace_append gapSpaces, separated, more]

/-- The writing of a member. -/
def memberText (key text : Text) : Text := writeText key ++ ": " ++ text

theorem memberText_eq (key text : Text) :
    memberText key text = '"' :: (key.flatMap escapeChar ++ '"' :: ':' :: ' ' :: text) := by
  simp [memberText, writeText]

theorem readMembers?_join {gap close : Text} (gapSpaces : Spaces gap) (closeSpaces : Spaces close)
    (parts : List (Text × Text × Value)) (some_part : parts ≠ [])
    (back : ∀ part ∈ parts, ReadsBack part.2.1 part.2.2) (fuel : Nat) (rest : Text)
    (enough : (Text.join (',' :: gap) (parts.map fun part => memberText part.1 part.2.1)).length + close.length + 1
      ≤ fuel) :
    readMembers? fuel
        (Text.join (',' :: gap) (parts.map fun part => memberText part.1 part.2.1) ++ (close ++ '}' :: rest))
      = some (parts.map fun part => (part.1, part.2.2), rest) := by
  induction parts generalizing fuel with
  | nil => exact absurd rfl some_part
  | cons part parts ih =>
    obtain ⟨key, text, v⟩ := part
    obtain ⟨fuel, rfl⟩ := Nat.exists_eq_add_one.mpr (show 0 < fuel by omega)
    have first : ReadsBack text v := back (key, text, v) List.mem_cons_self
    have colon : ∀ t, skipSpace (':' :: t) = ':' :: t := skipSpace_cons (by decide)
    have blank : ∀ t, skipSpace (' ' :: (text ++ t)) = text ++ t := fun t => by
      rw [← List.singleton_append, skipSpace_append (by simp [Spaces, isSpace]), first.skipSpace]
    cases parts with
    | nil =>
      rw [List.map_singleton, Text.join_singleton, memberText_eq] at enough ⊢
      simp only [List.length_append, List.length_cons] at enough
      have ended : Ended (close ++ '}' :: rest) := ended_close closeSpaces (fun t => by simp [Ended]) rest
      have value := first.reads fuel _ ended (by omega)
      rw [List.cons_append, List.append_assoc, readMembers?]
      simp only [List.cons_append, readString?_flatMap, colon, blank, value, Option.bind_eq_bind, Option.bind_some]
      simp [skipSpace_append closeSpaces, skipSpace_cons (show isSpace '}' = false by decide)]
    | cons next parts =>
      have separated := skipSpace_join (',' :: gap) (parts.map fun part => memberText part.1 part.2.1)
        ⟨'"', _, memberText_eq next.1 next.2.1, by decide⟩ (close ++ '}' :: rest)
      have more := ih (by simp) (fun part h => back part (List.mem_cons_of_mem _ h))
      rw [List.map_cons, List.map_cons, Text.join_cons_cons] at enough ⊢
      rw [List.map_cons] at more
      simp only [memberText_eq key, List.length_append, List.length_cons] at enough
      specialize more fuel (by omega)
      rw [List.append_assoc, List.append_assoc, List.cons_append]
      generalize Text.join (',' :: gap) (memberText next.1 next.2.1 :: parts.map fun part => memberText part.1 part.2.1)
        ++ (close ++ '}' :: rest) = tail at *
      have value := first.reads fuel _ (ended_comma (gap ++ tail)) (by omega)
      rw [memberText_eq, List.cons_append, List.append_assoc, readMembers?]
      simp only [List.cons_append, readString?_flatMap, colon, blank, value, Option.bind_eq_bind, Option.bind_some]
      simp [skipSpace_cons (show isSpace ',' = false by decide), skipSpace_append gapSpaces, separated, more]

/-! ## Values -/

theorem enclose_eq (layout : Layout) (depth : Nat) (left right : Text) : ∃ start gap close : Text,
    Spaces start ∧ Spaces gap ∧ Spaces close ∧ ∀ items, items ≠ [] →
      enclose layout depth left right items
        = left ++ (start ++ (Text.join (',' :: gap) items ++ (close ++ right))) := by
  by_cases indented : layout.indented = true
  · refine ⟨lineBreak (depth + 1), lineBreak (depth + 1), lineBreak depth, spaces_lineBreak _, spaces_lineBreak _,
      spaces_lineBreak _, fun items some_item => ?_⟩
    rw [enclose, if_neg (by simpa using some_item), if_pos indented]
    simp
  · refine ⟨[], [' '], [], by simp [Spaces], by simp [Spaces, isSpace], by simp [Spaces], fun items some_item => ?_⟩
    rw [enclose, if_neg (by simpa using some_item), if_neg indented]
    simp

theorem writeItems_eq (layout : Layout) (depth : Nat) (items : List Value) :
    writeItems layout depth items = items.map (writeAt layout depth) := by
  induction items with
  | nil => rfl
  | cons v vs ih => rw [writeItems, ih, List.map_cons]

theorem writeMembers_eq (layout : Layout) (depth : Nat) (members : List (Text × Value)) :
    writeMembers layout depth members = Entries.mapValues (writeAt layout depth) members := by
  induction members with
  | nil => rfl
  | cons m rest ih =>
    rw [writeMembers, ih]
    rfl

theorem arrange_eq {layout : Layout} (ordered : layout.sorted = true) (depth : Nat) (members : List (Text × Value)) :
    arrange layout (writeMembers layout depth members)
      = (Entries.sorted members).map fun m => memberText m.1 (writeAt layout depth m.2) := by
  have inOrder := Entries.sorted_mapValues (writeAt layout depth) members
  rw [arrange, if_pos ordered, writeMembers_eq]
  rw [Entries.sorted] at inOrder
  rw [inOrder, Entries.mapValues, List.map_map]
  rfl

/-- A character that starts neither space, a string, a list, an object nor the end of a list. -/
def ScalarStart (c : Char) : Prop := isSpace c = false ∧ c ≠ ']' ∧ c ≠ '"' ∧ c ≠ '[' ∧ c ≠ '{'

instance (c : Char) : Decidable (ScalarStart c) := inferInstanceAs (Decidable (_ ∧ _))

theorem scalarStart_of_isDigit {c : Char} (digit : c.isDigit = true) : ScalarStart c := by
  refine ⟨?_, ?_, ?_, ?_, ?_⟩
  · cases space : isSpace c with
    | false => rfl
    | true => rcases isSpace_iff.mp space with rfl | rfl | rfl | rfl <;> cases digit
  all_goals rintro rfl; cases digit

theorem readsBack_scalar {word : Text} {v : Value} (starts : ∃ c t, word = c :: t ∧ ScalarStart c)
    (scalar : ∀ rest, Ended rest → readScalar? (word ++ rest) = some (v, rest)) : ReadsBack word v := by
  obtain ⟨c, t, rfl, solid, bracketEnd, quote, bracket, brace⟩ := starts
  refine ⟨⟨c, t, rfl, solid, bracketEnd⟩, fun fuel rest ended enough => ?_⟩
  obtain ⟨fuel, rfl⟩ := Nat.exists_eq_add_one.mpr (show 0 < fuel by simp only [List.length_cons] at enough; omega)
  rw [← scalar rest ended, readValue?.eq_def]
  simp only [List.cons_append]
  split
  · next same => exact absurd (List.cons.inj same).1 quote
  · next same => exact absurd (List.cons.inj same).1 bracket
  · next same => exact absurd (List.cons.inj same).1 brace
  · rfl

theorem readsBack_decimalInt (n : Int) : ReadsBack (decimalInt n) (.int n) := by
  refine readsBack_scalar ?_ fun rest ended => readScalar?_decimalInt n ended
  cases n with
  | ofNat n =>
    obtain ⟨c, t, same, digit⟩ := (whole_decimal n).digitFirst []
    exact ⟨c, t, by rw [decimalInt, ← same, List.append_nil], scalarStart_of_isDigit digit⟩
  | negSucc n => exact ⟨'-', _, rfl, by decide⟩

theorem readsBack_writeFloat {x : Binary64} (proper : x.Proper) : ReadsBack (writeFloat x) (.float x) := by
  refine readsBack_scalar ?_ fun rest ended => readScalar?_writeFloat proper ended
  cases x with
  | nan => exact ⟨'N', _, rfl, by decide⟩
  | infinite negative => cases negative <;> exact ⟨_, _, rfl, by decide⟩
  | finite negative m e =>
    rw [writeFloat_finite]
    cases negative with
    | true => exact ⟨'-', _, rfl, by decide⟩
    | false =>
      obtain ⟨⟨c, t, same, digit⟩, -⟩ := readMagnitude?_magnitudeText false proper (show Ended [] by simp [Ended])
      exact ⟨c, t, by simpa using same, scalarStart_of_isDigit digit⟩

theorem readsBack_writeText (t : Text) : ReadsBack (writeText t) (.text t) := by
  have written : writeText t = '"' :: (t.flatMap escapeChar ++ ['"']) := by simp [writeText]
  rw [written]
  refine ⟨⟨'"', _, rfl, by decide, by decide⟩, fun fuel rest _ enough => ?_⟩
  obtain ⟨fuel, rfl⟩ := Nat.exists_eq_add_one.mpr (show 0 < fuel by simp only [List.length_cons] at enough; omega)
  rw [List.cons_append, List.append_assoc, readValue?]
  simp [readString?_flatMap]

theorem readsBack_list (layout : Layout) (depth : Nat) (parts : List (Text × Value))
    (back : ∀ part ∈ parts, ReadsBack part.1 part.2) :
    ReadsBack (enclose layout depth ['['] [']'] (parts.map Prod.fst)) (.list (parts.map Prod.snd)) := by
  obtain ⟨start, gap, close, startSpaces, gapSpaces, closeSpaces, enclosed⟩ := enclose_eq layout depth ['['] [']']
  cases parts with
  | nil =>
    refine ⟨⟨'[', [']'], rfl, by decide, by decide⟩, fun fuel rest _ enough => ?_⟩
    obtain ⟨fuel, rfl⟩ := Nat.exists_eq_add_one.mpr (show 0 < fuel from Nat.lt_of_lt_of_le Nat.zero_lt_two enough)
    simp [enclose, readValue?, skipSpace_cons (show isSpace ']' = false by decide)]
  | cons part parts =>
    obtain ⟨c, t, same, solid, bracket⟩ := (back part List.mem_cons_self).starts
    rw [enclosed _ (by simp)]
    refine ⟨⟨'[', _, rfl, by decide, by decide⟩, fun fuel rest _ enough => ?_⟩
    simp only [List.length_append, List.length_cons, List.length_nil] at enough
    obtain ⟨fuel, rfl⟩ := Nat.exists_eq_add_one.mpr (show 0 < fuel by omega)
    have read := readItems?_join gapSpaces closeSpaces (part :: parts) (by simp) back fuel rest (by omega)
    have open_ := skipSpace_join (',' :: gap) (parts.map Prod.fst) ⟨c, t, same, solid⟩ (close ++ ']' :: rest)
    have first : ∃ after, Text.join (',' :: gap) (part.1 :: parts.map Prod.fst) ++ (close ++ ']' :: rest)
        = c :: after := by
      cases parts with
      | nil => exact ⟨_, by rw [List.map_nil, Text.join_singleton, same]; rfl⟩
      | cons second parts => exact ⟨_, by rw [List.map_cons, Text.join_cons_cons, same]; rfl⟩
    rw [List.map_cons] at read ⊢
    simp only [List.append_assoc, List.nil_append, List.cons_append]
    rw [readValue?, skipSpace_append startSpaces, open_]
    obtain ⟨after, front⟩ := first
    rw [front] at read ⊢
    split
    · next empty => exact absurd (List.cons.inj empty).1 bracket
    · rw [read]
      rfl

theorem readsBack_object (layout : Layout) (depth : Nat) (parts : List (Text × Text × Value))
    (back : ∀ part ∈ parts, ReadsBack part.2.1 part.2.2) (nodup : (parts.map Prod.fst).Nodup) :
    ReadsBack (enclose layout depth ['{'] ['}'] (parts.map fun part => memberText part.1 part.2.1))
      (.object (parts.map fun part => (part.1, part.2.2))) := by
  obtain ⟨start, gap, close, startSpaces, gapSpaces, closeSpaces, enclosed⟩ := enclose_eq layout depth ['{'] ['}']
  cases parts with
  | nil =>
    refine ⟨⟨'{', ['}'], rfl, by decide, by decide⟩, fun fuel rest _ enough => ?_⟩
    obtain ⟨fuel, rfl⟩ := Nat.exists_eq_add_one.mpr (show 0 < fuel from Nat.lt_of_lt_of_le Nat.zero_lt_two enough)
    simp [enclose, readValue?, skipSpace_cons (show isSpace '}' = false by decide)]
  | cons part parts =>
    rw [enclosed _ (by simp)]
    refine ⟨⟨'{', _, rfl, by decide, by decide⟩, fun fuel rest _ enough => ?_⟩
    simp only [List.length_append, List.length_cons, List.length_nil] at enough
    obtain ⟨fuel, rfl⟩ := Nat.exists_eq_add_one.mpr (show 0 < fuel by omega)
    have read := readMembers?_join gapSpaces closeSpaces (part :: parts) (by simp) back fuel rest (by omega)
    have quoted := memberText_eq part.1 part.2.1
    have open_ := skipSpace_join (',' :: gap) (parts.map fun part => memberText part.1 part.2.1)
      ⟨'"', _, quoted, by decide⟩ (close ++ '}' :: rest)
    have first : ∃ after,
        Text.join (',' :: gap) (memberText part.1 part.2.1 :: parts.map fun part => memberText part.1 part.2.1)
          ++ (close ++ '}' :: rest) = '"' :: after := by
      cases parts with
      | nil => exact ⟨_, by rw [List.map_nil, Text.join_singleton, quoted]; rfl⟩
      | cons second parts => exact ⟨_, by rw [List.map_cons, Text.join_cons_cons, quoted]; rfl⟩
    have keys : Entries.insertAll [] ((part :: parts).map fun part => (part.1, part.2.2))
        = (part :: parts).map fun part => (part.1, part.2.2) := by
      apply Entries.insertAll_nil
      rw [Entries.keys, List.map_map]
      exact nodup
    generalize (part :: parts).map (fun part => (part.1, part.2.2)) = members at *
    rw [List.map_cons] at read ⊢
    simp only [List.append_assoc, List.nil_append, List.cons_append]
    rw [readValue?, skipSpace_append startSpaces, open_]
    obtain ⟨after, front⟩ := first
    rw [front] at read ⊢
    split
    · next empty => exact absurd (List.cons.inj empty).1 (by decide)
    · rw [read]
      show some (Value.object (Entries.insertAll [] members), rest) = _
      rw [keys]

/-- A value written with its members in order is read back in that order. -/
theorem readsBack_writeAt {layout : Layout} (ordered : layout.sorted = true) {v : Value} (wellFormed : v.WellFormed)
    (depth : Nat) : ReadsBack (writeAt layout depth v) v.sorted := by
  induction v using Value.induct generalizing depth with
  | null => exact readsBack_scalar ⟨_, _, rfl, by decide⟩ fun _ _ => rfl
  | bool b => cases b <;> exact readsBack_scalar ⟨_, _, rfl, by decide⟩ fun _ _ => rfl
  | int n => exact readsBack_decimalInt n
  | float x => exact readsBack_writeFloat (Value.wellFormed_float.mp wellFormed)
  | text t => exact readsBack_writeText t
  | list items ih =>
    have each := Value.wellFormed_list.mp wellFormed
    have read := readsBack_list layout depth (items.map fun v => (writeAt layout (depth + 1) v, v.sorted)) (by
      intro part member
      obtain ⟨v, inside, rfl⟩ := List.mem_map.mp member
      exact ih v inside (each v inside) (depth + 1))
    rw [List.map_map, List.map_map] at read
    rw [writeAt, writeItems_eq, Value.sorted_list]
    exact read
  | object members ih =>
    obtain ⟨nodup, each⟩ := Value.wellFormed_object.mp wellFormed
    have keys := Entries.keys_sorted_nodup nodup
    have read := readsBack_object layout depth
      ((Entries.sorted members).map fun m => (m.1, writeAt layout (depth + 1) m.2, m.2.sorted)) (by
        intro part member
        obtain ⟨m, inside, rfl⟩ := List.mem_map.mp member
        have original := Entries.mem_sorted.mp inside
        exact ih m original (each m original) (depth + 1)) (by rw [List.map_map]; exact keys)
    rw [List.map_map, List.map_map] at read
    rw [writeAt, arrange_eq ordered, Value.sorted_object]
    exact read

theorem read?_write {layout : Layout} (ordered : layout.sorted = true) {v : Value} (wellFormed : v.WellFormed) :
    read? (write layout v) = some v.sorted := by
  have back := readsBack_writeAt ordered wellFormed 0
  have read := back.reads ((writeAt layout 0 v).length + 1) [] (by simp [Ended]) (by omega)
  have start := back.skipSpace []
  rw [List.append_nil] at read start
  rw [read?, write, start, read]
  rfl

/-- Two values with the same ordered writing are the same up to the order of their members. -/
theorem sorted_eq_of_write_eq {layout : Layout} (ordered : layout.sorted = true) {v w : Value}
    (first : v.WellFormed) (second : w.WellFormed) (same : write layout v = write layout w) : v.sorted = w.sorted := by
  have reading := read?_write ordered first
  rw [same, read?_write ordered second] at reading
  exact (Option.some.inj reading).symm

/-! ## What is read is well formed -/

theorem wellFormed_readMagnitude? {negative : Bool} {t rest : Text} {v : Value}
    (given : readMagnitude? negative t = some (v, rest)) : v.WellFormed := by
  simp only [readMagnitude?, Option.bind_eq_bind, Option.bind_eq_some_iff] at given
  obtain ⟨⟨whole, after⟩, -, given⟩ := given
  simp only at given
  split at given
  · simp only [pure, Option.some.injEq, Prod.mk.injEq] at given
    obtain ⟨rfl, -⟩ := given
    exact Value.wellFormed_float.mpr (Binary64.proper_ofDecimal ..)
  · split at given
    · simp only [pure, Option.some.injEq, Prod.mk.injEq] at given
      obtain ⟨rfl, -⟩ := given
      rfl
    · simp only [pure, Option.some.injEq, Prod.mk.injEq] at given
      obtain ⟨rfl, -⟩ := given
      exact Value.wellFormed_float.mpr (Binary64.proper_ofDecimal ..)

theorem wellFormed_readScalar? {t rest : Text} {v : Value} (given : readScalar? t = some (v, rest)) :
    v.WellFormed := by
  have constant : ∀ entry ∈ constants, entry.2.WellFormed := by decide
  unfold readScalar? at given
  split at given
  · next found word =>
    obtain ⟨entry, member, same⟩ := List.exists_of_findSome?_eq_some word
    obtain ⟨after, -, pair⟩ := Option.map_eq_some_iff.mp same
    cases given
    cases pair
    exact constant entry member
  · split at given
    · exact wellFormed_readMagnitude? given
    · exact wellFormed_readMagnitude? given

/-- What is read with a bound on the depth is well formed. -/
structure ReadsWellFormed (fuel : Nat) : Prop where
  value : ∀ {t rest : Text} {v : Value}, readValue? fuel t = some (v, rest) → v.WellFormed
  items : ∀ {t rest : Text} {vs : List Value}, readItems? fuel t = some (vs, rest) → ∀ v ∈ vs, v.WellFormed
  members : ∀ {t rest : Text} {ms : List (Text × Value)}, readMembers? fuel t = some (ms, rest) →
    ∀ m ∈ ms, m.2.WellFormed

section

variable {fuel : Nat} (ih : ReadsWellFormed fuel)
include ih

theorem wellFormed_readValue?_succ {t rest : Text} {v : Value} (given : readValue? (fuel + 1) t = some (v, rest)) :
    v.WellFormed := by
  unfold readValue? at given
  split at given
  · obtain ⟨_, -, pair⟩ := Option.map_eq_some_iff.mp given
    cases pair
    rfl
  · split at given
    · cases given
      rfl
    · obtain ⟨_, read, pair⟩ := Option.map_eq_some_iff.mp given
      cases pair
      exact Value.wellFormed_list.mpr (ih.items read)
  · split at given
    · cases given
      rfl
    · obtain ⟨⟨ms, after⟩, read, pair⟩ := Option.map_eq_some_iff.mp given
      cases pair
      refine Value.wellFormed_object.mpr ⟨Entries.keys_insertAll_nodup [] List.nodup_nil ms, ?_⟩
      intro m member
      rcases Entries.mem_insertAll member with none | later
      · cases none
      · exact ih.members read m later
  · exact wellFormed_readScalar? given

theorem wellFormed_readItems?_succ {t rest : Text} {vs : List Value}
    (given : readItems? (fuel + 1) t = some (vs, rest)) : ∀ v ∈ vs, v.WellFormed := by
  unfold readItems? at given
  obtain ⟨⟨w, after⟩, first, given⟩ := Option.bind_eq_some_iff.mp given
  have head := ih.value first
  simp only at given
  split at given
  · cases given
    simpa using head
  · obtain ⟨⟨ws, after⟩, more, given⟩ := Option.bind_eq_some_iff.mp given
    cases given
    exact List.forall_mem_cons.mpr ⟨head, ih.items more⟩
  · cases given

theorem wellFormed_readMembers?_succ {t rest : Text} {ms : List (Text × Value)}
    (given : readMembers? (fuel + 1) t = some (ms, rest)) : ∀ m ∈ ms, m.2.WellFormed := by
  unfold readMembers? at given
  split at given
  · obtain ⟨⟨key, after⟩, -, given⟩ := Option.bind_eq_some_iff.mp given
    simp only at given
    split at given
    · obtain ⟨⟨w, after⟩, first, given⟩ := Option.bind_eq_some_iff.mp given
      have head := ih.value first
      simp only at given
      split at given
      · cases given
        simpa using head
      · obtain ⟨⟨ws, after⟩, more, given⟩ := Option.bind_eq_some_iff.mp given
        cases given
        exact List.forall_mem_cons.mpr ⟨head, ih.members more⟩
      · cases given
    · cases given
  · cases given

end

/-- The induction is on the bound, which every reader hands on less one to the readers of what is inside. -/
theorem readsWellFormed (fuel : Nat) : ReadsWellFormed fuel := by
  induction fuel with
  | zero =>
    constructor
    · intro t rest v given
      cases given
    · intro t rest vs given
      cases given
    · intro t rest ms given
      cases given
  | succ fuel ih =>
    exact ⟨wellFormed_readValue?_succ ih, wellFormed_readItems?_succ ih, wellFormed_readMembers?_succ ih⟩

theorem wellFormed_read? {t : Text} {v : Value} (given : read? t = some v) : v.WellFormed := by
  obtain ⟨⟨w, rest⟩, value, given⟩ := Option.bind_eq_some_iff.mp given
  simp only at given
  split at given
  · cases given
    exact (readsWellFormed _).value value
  · cases given

end Marginalia.Json
