import Marginalia.Proofs.Fallible
import Marginalia.Proofs.Sorted
import Marginalia.Settings.Basic

/-!
# Profiles up to the order of members

Two sections of settings that differ in the order of their members only are read as profiles that differ in the order
of their markers and keywords only. Members are looked up by name, so their order does not show; it does where all
members of an object are gone through.
-/

namespace Marginalia

open Fallible

namespace Value

/-- Two well-formed values that differ in the order of members only. -/
structure Alike (v w : Value) : Prop where
  first : v.WellFormed
  second : w.WellFormed
  same : v.sorted = w.sorted

/-- What two such values look like. -/
inductive AlikeView : Value → Value → Prop where
  | plain {v : Value} (plain : v.isPlain = true) : AlikeView v v
  | list {items others : List Value} (each : List.Forall₂ Alike items others) : AlikeView (.list items) (.list others)
  | object {members others : Entries Value} (each : ∀ key, Option.Rel Alike (members.get? key) (others.get? key))
    (keys : members.keys.Perm others.keys) (nodup : members.keys.Nodup) : AlikeView (.object members) (.object others)

theorem sorted_of_isPlain {v : Value} (plain : v.isPlain = true) : v.sorted = v := by
  cases v with
  | list items => cases plain
  | object members => cases plain
  | _ => rfl

theorem Alike.refl {v : Value} (wellFormed : v.WellFormed) : v.Alike v := ⟨wellFormed, wellFormed, rfl⟩

theorem Alike.symm {v w : Value} (alike : v.Alike w) : w.Alike v := ⟨alike.second, alike.first, alike.same.symm⟩

theorem alike_items {items others : List Value} (first : ∀ v ∈ items, v.WellFormed)
    (second : ∀ v ∈ others, v.WellFormed)
    (same : items.map sorted = others.map sorted) : List.Forall₂ Alike items others := by
  induction items generalizing others with
  | nil =>
    obtain rfl := List.map_eq_nil_iff.mp same.symm
    exact .nil
  | cons v items ih =>
    cases others with
    | nil => cases same
    | cons w others =>
      rw [List.map_cons, List.map_cons, List.cons.injEq] at same
      rw [List.forall_mem_cons] at first second
      exact .cons ⟨first.1, second.1, same.1⟩ (ih first.2 second.2 same.2)

theorem alike_members {members others : Entries Value} (first : (object members).WellFormed)
    (second : (object others).WellFormed) (same : (object members).sorted = (object others).sorted) :
    (∀ key, Option.Rel Alike (members.get? key) (others.get? key)) ∧ members.keys.Perm others.keys := by
  obtain ⟨nodup, each⟩ := wellFormed_object.mp first
  obtain ⟨othersNodup, othersEach⟩ := wellFormed_object.mp second
  rw [sorted_object, sorted_object, object.injEq] at same
  constructor
  · intro key
    have found := congrArg (Entries.get? · key) same
    simp only [Entries.get?_mapValues, Entries.get?_sorted nodup, Entries.get?_sorted othersNodup] at found
    cases left : members.get? key with
    | none =>
      cases right : others.get? key with
      | none => exact .none
      | some w => simp [left, right] at found
    | some v =>
      cases right : others.get? key with
      | none => simp [left, right] at found
      | some w =>
        rw [left, right, Option.map_some, Option.map_some, Option.some.injEq] at found
        have inside := (Entries.get?_eq_some_iff nodup).mp left
        have othersInside := (Entries.get?_eq_some_iff othersNodup).mp right
        exact .some ⟨each _ inside, othersEach _ othersInside, found⟩
  · have keys := congrArg Entries.keys same
    rw [Entries.keys_mapValues, Entries.keys_mapValues] at keys
    have sortedKeys : ∀ entries : Entries Value, entries.sorted.keys.Perm entries.keys :=
      fun entries => (Entries.sorted_perm entries).map Prod.fst
    exact (sortedKeys members).symm.trans (keys ▸ sortedKeys others)

theorem Alike.view {v w : Value} (alike : v.Alike w) : AlikeView v w := by
  obtain ⟨first, second, same⟩ := alike
  cases plain : v.isPlain with
  | true =>
    cases plainToo : w.isPlain with
    | true =>
      rw [sorted_of_isPlain plain, sorted_of_isPlain plainToo] at same
      exact same ▸ .plain plain
    | false =>
      rw [sorted_of_isPlain plain] at same
      cases w with
      | list items => rw [same, sorted_list] at plain; cases plain
      | object members => rw [same, sorted_object] at plain; cases plain
      | _ => cases plainToo
  | false =>
    cases v with
    | list items =>
      rw [sorted_list] at same
      cases w with
      | list others =>
        rw [sorted_list, list.injEq] at same
        exact .list (alike_items (wellFormed_list.mp first) (wellFormed_list.mp second) same)
      | object others => rw [sorted_object] at same; cases same
      | _ => cases same
    | object members =>
      cases w with
      | object others =>
        obtain ⟨each, keys⟩ := alike_members first second same
        exact .object each keys (wellFormed_object.mp first).1
      | list others => rw [sorted_object, sorted_list] at same; cases same
      | _ => rw [sorted_object] at same; cases same
    | _ => cases plain

theorem Alike.truthy {v w : Value} (alike : v.Alike w) : v.truthy = w.truthy := by
  cases alike.view with
  | plain plain => rfl
  | list each => cases each <;> rfl
  | @object members others each keys nodup =>
    have count := keys.length_eq
    rw [Entries.keys, Entries.keys, List.length_map, List.length_map] at count
    cases members with
    | nil =>
      obtain rfl := List.length_eq_zero_iff.mp count.symm
      rfl
    | cons m members =>
      cases others with
      | nil => cases count
      | cons n others => rfl

theorem alike_getD {x y : Option Value} (related : Option.Rel Alike x y) : Alike (x.getD .null) (y.getD .null) := by
  cases related with
  | none => exact .refl rfl
  | some same => exact same

theorem Alike.member? {v w : Value} (alike : v.Alike w) (key : Text) :
    Option.Rel Alike (v.member? key) (w.member? key) := by
  cases alike.view with
  | @plain v plain =>
    cases v with
    | list items => cases plain
    | object members => cases plain
    | _ => exact .none
  | list each => exact .none
  | object each keys nodup =>
    exact .some (alike_getD (each key))

/-- Elements of two such values: alike one by one, or the same texts in another order. -/
def AlikeElements (xs ys : List Value) : Prop :=
  List.Forall₂ Alike xs ys ∨ ∃ ks ls : List Text, ks.Perm ls ∧ xs = ks.map text ∧ ys = ls.map text

theorem Alike.elements? {v w : Value} (alike : v.Alike w) :
    Option.Rel AlikeElements v.elements? w.elements? := by
  cases alike.view with
  | @plain v plain =>
    cases v with
    | text t => exact .some (.inr ⟨t.map ([·]), _, .refl _, by rw [List.map_map]; rfl, by rw [List.map_map]; rfl⟩)
    | list items => cases plain
    | object members => cases plain
    | _ => exact .none
  | list each => exact .some (.inl each)
  | object each keys nodup =>
    exact .some (.inr ⟨_, _, keys, by rw [Entries.keys, List.map_map]; rfl, by rw [Entries.keys, List.map_map]; rfl⟩)

theorem Alike.eq_of_isPlain {v w : Value} (alike : v.Alike w) (plain : v.isPlain = true) : v = w := by
  cases alike.view with
  | plain _ => rfl
  | list each => cases plain
  | object each keys nodup => cases plain

theorem Alike.isPlain {v w : Value} (alike : v.Alike w) : v.isPlain = w.isPlain := by
  cases alike.view with
  | plain _ => rfl
  | list each => rfl
  | object each keys nodup => rfl

end Value

open Value

namespace Settings

theorem agree_part {v w : Value} (alike : v.Alike w) (name : Text) : Agree Alike (part v name) (part w name) := by
  unfold part
  have found := alike.member? name
  generalize v.member? name = first at found
  generalize w.member? name = second at found
  cases found with
  | none => rfl
  | some same => exact same

theorem agree_objectPart {v w : Value} {name : Text} (agree : Agree Alike (part v name) (part w name)) :
    Agree Alike (objectPart v name) (objectPart w name) := by
  refine agree.bind fun a b same => ?_
  rw [same.truthy]
  split
  · exact same
  · exact Alike.refl rfl

end Settings

namespace Profile

theorem agree_setting {v w : Value} (alike : v.Alike w) (name : Text) : Agree Alike (setting v name) (setting w name) :=
  Settings.agree_part alike name

theorem textSetting_eq {v w : Value} (alike : v.Alike w) (name usual : Text) :
    textSetting v name usual = textSetting w name usual := by
  apply eq_of_agree
  refine (agree_setting alike name).bind fun a b same => ?_
  rw [same.truthy]
  split
  · cases same.view with
    | @plain a plain => cases a <;> rfl
    | list each => rfl
    | object each keys nodup => rfl
  · rfl

theorem agree_textsSetting {v w : Value} (alike : v.Alike w) (name : Text) :
    Agree AlikeElements (textsSetting v name) (textsSetting w name) := by
  refine (agree_setting alike name).bind fun a b same => ?_
  rw [same.truthy]
  split
  · have elements := same.elements?
    generalize a.elements? = first at elements
    generalize b.elements? = second at elements
    cases elements with
    | none => rfl
    | some related => exact related
  · exact .inl .nil

theorem mem_textsOf {items : List Value} {t : Text} : t ∈ textsOf items ↔ .text t ∈ items := by
  rw [textsOf, List.mem_filterMap]
  constructor
  · rintro ⟨v, member, same⟩
    cases v with
    | text u => exact Option.some.inj same ▸ member
    | _ => cases same
  · exact fun member => ⟨_, member, rfl⟩

/-- The same texts are among such elements. -/
theorem mem_textsOf_iff {xs ys : List Value} (alike : AlikeElements xs ys) (t : Text) :
    t ∈ textsOf xs ↔ t ∈ textsOf ys := by
  rw [mem_textsOf, mem_textsOf]
  rcases alike with each | ⟨ks, ls, perm, rfl, rfl⟩
  · induction each with
    | nil => rfl
    | @cons v w xs ys first rest ih =>
      have same : .text t = v ↔ .text t = w := by
        constructor
        · rintro rfl
          exact first.eq_of_isPlain rfl
        · rintro rfl
          exact first.symm.eq_of_isPlain rfl
      rw [List.mem_cons, List.mem_cons, ih, same]
  · exact (perm.map _).mem_iff

theorem checkSet_eq (items : List Value) :
    checkSet items = if items.all Value.isPlain then .ok items else .error .wrongType := by
  have nested : ∀ f : Value → Bool, (∀ v, f v = !v.isPlain) → items.any f = !items.all Value.isPlain := by
    intro f same
    rw [List.not_all_eq_any_not]
    exact congrArg items.any (funext same)
  unfold checkSet
  rw [nested _ fun v => by cases v <;> rfl]
  cases items.all Value.isPlain <;> rfl

theorem agree_checkSet {xs ys : List Value} (alike : AlikeElements xs ys) :
    Agree AlikeElements (checkSet xs) (checkSet ys) := by
  have plain : xs.all Value.isPlain = ys.all Value.isPlain := by
    rcases alike with each | ⟨ks, ls, perm, rfl, rfl⟩
    · induction each with
      | nil => rfl
      | cons first rest ih => rw [List.all_cons, List.all_cons, first.isPlain, ih]
    · have texts : ∀ ts : List Text, (ts.map Value.text).all Value.isPlain = true := by
        intro ts
        simp [Value.isPlain]
      rw [texts, texts]
  rw [checkSet_eq, checkSet_eq, plain]
  split
  · exact alike
  · rfl

/-- A keyword of the settings with its kind. -/
def keywordSetting (member : Text × Value) : Except Fault (Text × Kind) :=
  match member.2 with
  | .text name =>
    match Kind.ofName? name with
    | some k => .ok (member.1, k)
    | none => .error (.unknownKeywordKind member.2 member.1)
  | _ => .error (.unknownKeywordKind member.2 member.1)

theorem keywordSetting_eq_ok {member : Text × Value} {keyword : Text} {kind : Kind} :
    keywordSetting member = .ok (keyword, kind) ↔
      ∃ name, member = (keyword, .text name) ∧ Kind.ofName? name = some kind := by
  obtain ⟨k, v⟩ := member
  cases v with
  | text name =>
    simp only [keywordSetting]
    cases found : Kind.ofName? name with
    | none => simp [found]
    | some other => simp [found]
  | _ => simp [keywordSetting]

/-- The keywords in a section are the members that name a kind. -/
theorem mem_of_mapM_keywordSetting {members : Entries Value} {kinds : Entries Kind}
    (given : members.mapM keywordSetting = .ok kinds) (keyword : Text) (kind : Kind) :
    (keyword, kind) ∈ kinds ↔ ∃ name, (keyword, .text name) ∈ members ∧ Kind.ofName? name = some kind := by
  have each := forall₂_of_mapM given
  clear given
  induction each with
  | nil => simp
  | @cons member entry members kinds first rest ih =>
    have here : (keyword, kind) = entry ↔ ∃ name, member = (keyword, .text name) ∧ Kind.ofName? name = some kind := by
      rw [← keywordSetting_eq_ok, first, Except.ok.injEq, eq_comm]
    refine List.mem_cons.trans ((or_congr here ih).trans ?_)
    constructor
    · rintro (⟨name, rfl, known⟩ | ⟨name, inside, known⟩)
      · exact ⟨name, List.mem_cons_self, known⟩
      · exact ⟨name, List.mem_cons_of_mem _ inside, known⟩
    · rintro ⟨name, inside, known⟩
      rcases List.mem_cons.mp inside with same | later
      · exact .inl ⟨name, same.symm, known⟩
      · exact .inr ⟨name, later, known⟩

theorem keys_of_mapM_keywordSetting {members : Entries Value} {kinds : Entries Kind}
    (given : members.mapM keywordSetting = .ok kinds) : kinds.keys = members.keys := by
  have each := forall₂_of_mapM given
  clear given
  induction each with
  | nil => rfl
  | @cons member entry members kinds first rest ih =>
    obtain ⟨keyword, kind⟩ := entry
    obtain ⟨name, rfl, -⟩ := keywordSetting_eq_ok.mp first
    exact congrArg (keyword :: ·) ih

/-- The keywords of a section that is an object. -/
theorem declarationsSetting_eq_ok {v : Value} {declared : Dict Kind} (given : declarationsSetting v = .ok declared) :
    declared = Dict.empty ∧ (∃ w, setting v "declarations" = .ok w ∧ w.truthy = false)
      ∨ ∃ members kinds, setting v "declarations" = .ok (.object members) ∧ members.mapM keywordSetting = .ok kinds
        ∧ declared = Dict.ofList kinds := by
  unfold declarationsSetting at given
  obtain ⟨w, found, given⟩ := bind_eq_ok.mp given
  cases truthy : w.truthy with
  | false =>
    rw [truthy] at given
    exact .inl ⟨(Except.ok.inj given).symm, w, found, truthy⟩
  | true =>
    rw [truthy] at given
    cases w with
    | object members =>
      obtain ⟨kinds, read, given⟩ := bind_eq_ok.mp given
      refine .inr ⟨members, kinds, found, ?_, (Except.ok.inj given).symm⟩
      rw [← read]
      congr 1
    | _ => cases given

/-- Two profiles that differ in the order of their markers and keywords only. -/
inductive Alike (p : Profile) : Profile → Prop where
  | intro {quotes statementSeparators noSpaceBefore : List Text} {declarations : Dict Kind}
    (sameQuotes : ∀ t, t ∈ p.quotes ↔ t ∈ quotes)
    (sameSeparators : ∀ t, t ∈ p.statementSeparators ↔ t ∈ statementSeparators)
    (sameTight : ∀ t, t ∈ p.noSpaceBefore ↔ t ∈ noSpaceBefore)
    (sameDeclarations : p.declarations.entries.Perm declarations.entries) :
    Alike p { p with quotes, statementSeparators, noSpaceBefore, declarations }

/-- What a profile is read from. -/
structure ReadFrom (v : Value) (p : Profile) : Prop where
  declarations : declarationsSetting v = .ok p.declarations
  paramPattern : patternSetting v = .ok p.paramPattern
  codeStart : textSetting v "code_start" [] = .ok p.codeStart
  codeStartFull : textSetting v "code_start_full" [] = .ok p.codeStartFull
  codeEnd : textSetting v "code_end" [] = .ok p.codeEnd
  lineComment : textSetting v "line_comment" [] = .ok p.lineComment
  lineCommentEnd : textSetting v "line_comment_end" "\n" = .ok p.lineCommentEnd
  blockCommentStart : textSetting v "block_comment_start" [] = .ok p.blockCommentStart
  blockCommentEnd : textSetting v "block_comment_end" [] = .ok p.blockCommentEnd
  docCommentStart : textSetting v "doc_comment_start" [] = .ok p.docCommentStart
  quotes : ∃ items, textsSetting v "quotes" = .ok items ∧ p.quotes = textsOf items
  escape : textSetting v "escape" [] = .ok p.escape
  statementSeparators : ∃ items, (textsSetting v "statement_separators" >>= checkSet) = .ok items
    ∧ p.statementSeparators = textsOf items
  noSpaceBefore : ∃ items, (textsSetting v "no_space_before" >>= checkSet) = .ok items
    ∧ p.noSpaceBefore = textsOf items
  argsStart : textSetting v "args_start" "(" = .ok p.argsStart
  argsEnd : textSetting v "args_end" ")" = .ok p.argsEnd
  docLineMarker : textSetting v "doc_line_marker" "*" = .ok p.docLineMarker
  tagMarker : textSetting v "tag_prefix" "@" = .ok p.tagMarker

theorem readFrom_of_ofSection {v : Value} {p : Profile} (given : ofSection v = .ok p) : ReadFrom v p := by
  unfold ofSection at given
  obtain ⟨declarations, declarationsRead, given⟩ := bind_eq_ok.mp given
  obtain ⟨paramPattern, paramPatternRead, given⟩ := bind_eq_ok.mp given
  obtain ⟨codeStart, codeStartRead, given⟩ := bind_eq_ok.mp given
  obtain ⟨codeStartFull, codeStartFullRead, given⟩ := bind_eq_ok.mp given
  obtain ⟨codeEnd, codeEndRead, given⟩ := bind_eq_ok.mp given
  obtain ⟨lineComment, lineCommentRead, given⟩ := bind_eq_ok.mp given
  obtain ⟨lineCommentEnd, lineCommentEndRead, given⟩ := bind_eq_ok.mp given
  obtain ⟨blockCommentStart, blockCommentStartRead, given⟩ := bind_eq_ok.mp given
  obtain ⟨blockCommentEnd, blockCommentEndRead, given⟩ := bind_eq_ok.mp given
  obtain ⟨docCommentStart, docCommentStartRead, given⟩ := bind_eq_ok.mp given
  obtain ⟨quotes, quotesRead, given⟩ := bind_eq_ok.mp given
  obtain ⟨escape, escapeRead, given⟩ := bind_eq_ok.mp given
  obtain ⟨separators, separatorsRead, given⟩ := bind_eq_ok.mp given
  obtain ⟨separatorSet, separatorSetRead, given⟩ := bind_eq_ok.mp given
  obtain ⟨tight, tightRead, given⟩ := bind_eq_ok.mp given
  obtain ⟨tightSet, tightSetRead, given⟩ := bind_eq_ok.mp given
  obtain ⟨argsStart, argsStartRead, given⟩ := bind_eq_ok.mp given
  obtain ⟨argsEnd, argsEndRead, given⟩ := bind_eq_ok.mp given
  obtain ⟨docLineMarker, docLineMarkerRead, given⟩ := bind_eq_ok.mp given
  obtain ⟨tagMarker, tagMarkerRead, given⟩ := bind_eq_ok.mp given
  obtain rfl := Except.ok.inj given
  exact {
    declarations := declarationsRead
    paramPattern := paramPatternRead
    codeStart := codeStartRead
    codeStartFull := codeStartFullRead
    codeEnd := codeEndRead
    lineComment := lineCommentRead
    lineCommentEnd := lineCommentEndRead
    blockCommentStart := blockCommentStartRead
    blockCommentEnd := blockCommentEndRead
    docCommentStart := docCommentStartRead
    quotes := ⟨quotes, quotesRead, rfl⟩
    escape := escapeRead
    statementSeparators := ⟨separatorSet, bind_eq_ok.mpr ⟨separators, separatorsRead, separatorSetRead⟩, rfl⟩
    noSpaceBefore := ⟨tightSet, bind_eq_ok.mpr ⟨tight, tightRead, tightSetRead⟩, rfl⟩
    argsStart := argsStartRead
    argsEnd := argsEndRead
    docLineMarker := docLineMarkerRead
    tagMarker := tagMarkerRead }

/-- A section declares a keyword of some kind. -/
def Declares (v : Value) (keyword : Text) (kind : Kind) : Prop :=
  ∃ members name, setting v "declarations" = .ok (.object members) ∧ (keyword, .text name) ∈ members
    ∧ Kind.ofName? name = some kind

theorem mem_declarationsSetting {v : Value} (wellFormed : v.WellFormed) {declared : Dict Kind}
    (given : declarationsSetting v = .ok declared) (keyword : Text) (kind : Kind) :
    (keyword, kind) ∈ declared.entries ↔ Declares v keyword kind := by
  rcases declarationsSetting_eq_ok given with ⟨rfl, w, found, empty⟩ | ⟨members, kinds, found, read, rfl⟩
  · constructor
    · intro none
      cases none
    · rintro ⟨members, name, there, inside, -⟩
      obtain rfl := Except.ok.inj (there.symm.trans found)
      cases members with
      | nil => cases inside
      | cons m members => cases empty
  · obtain ⟨w, again, same⟩ := (agree_setting (.refl wellFormed) "declarations").ok found
    have nodup : (Entries.keys kinds).Nodup := by
      rw [keys_of_mapM_keywordSetting read]
      exact (Value.wellFormed_object.mp same.first).1
    show _ ∈ Entries.insertAll [] kinds ↔ _
    rw [Entries.insertAll_nil nodup, mem_of_mapM_keywordSetting read]
    constructor
    · rintro ⟨name, inside, known⟩
      exact ⟨members, name, found, inside, known⟩
    · rintro ⟨others, name, there, inside, known⟩
      obtain rfl := Value.object.inj (Except.ok.inj (there.symm.trans found))
      exact ⟨name, inside, known⟩

theorem Declares.of_alike {v w : Value} (alike : v.Alike w) {keyword : Text} {kind : Kind}
    (declares : Declares v keyword kind) : Declares w keyword kind := by
  obtain ⟨members, name, found, inside, known⟩ := declares
  obtain ⟨b, foundToo, same⟩ := (agree_setting alike "declarations").ok found
  cases same.view with
  | plain plain => cases plain
  | @object _ others each keys nodup =>
    have there : Entries.get? members keyword = some (.text name) := (Entries.get?_eq_some_iff nodup).mpr inside
    have thereToo : others.get? keyword = some (.text name) := by
      have related := each keyword
      rw [there] at related
      generalize others.get? keyword = other at related
      cases related with
      | some alike => rw [alike.eq_of_isPlain rfl]
    refine ⟨others, name, foundToo, ?_, known⟩
    exact (Entries.get?_eq_some_iff (keys.nodup_iff.mp nodup)).mp thereToo

/-- The same keywords are declared, in whatever order. -/
theorem perm_declarations {v w : Value} (alike : v.Alike w) {first second : Dict Kind}
    (left : declarationsSetting v = .ok first) (right : declarationsSetting w = .ok second) :
    first.entries.Perm second.entries := by
  have distinct : ∀ d : Dict Kind, d.entries.Nodup := fun d => List.Nodup.of_map _ d.nodup
  refine (List.perm_ext_iff_of_nodup (distinct first) (distinct second)).mpr ?_
  rintro ⟨keyword, kind⟩
  rw [mem_declarationsSetting alike.first left, mem_declarationsSetting alike.second right]
  exact ⟨.of_alike alike, .of_alike alike.symm⟩

theorem alike_ofSection {v w : Value} (alike : v.Alike w) {p q : Profile} (first : ofSection v = .ok p)
    (second : ofSection w = .ok q) : p.Alike q := by
  have one := readFrom_of_ofSection first
  have two := readFrom_of_ofSection second
  have text : ∀ {name usual a b : Text}, textSetting v name usual = .ok a → textSetting w name usual = .ok b →
      b = a := by
    intro name usual a b left right
    rw [textSetting_eq alike, right] at left
    exact Except.ok.inj left
  have pattern : q.paramPattern = p.paramPattern := by
    have read := one.paramPattern
    unfold patternSetting at read
    rw [textSetting_eq alike] at read
    exact Except.ok.inj (two.paramPattern.symm.trans read)
  have sets : ∀ {name : Text} {xs ys : List Value}, (textsSetting v name >>= checkSet) = .ok xs →
      (textsSetting w name >>= checkSet) = .ok ys → ∀ t, t ∈ textsOf xs ↔ t ∈ textsOf ys := by
    intro name xs ys left right
    obtain ⟨zs, read, related⟩ := ((agree_textsSetting alike name).bind fun _ _ => agree_checkSet).ok left
    obtain rfl := Except.ok.inj (right.symm.trans read)
    exact mem_textsOf_iff related
  have quotes : ∀ t, t ∈ p.quotes ↔ t ∈ q.quotes := by
    obtain ⟨xs, left, same⟩ := one.quotes
    obtain ⟨ys, right, sameToo⟩ := two.quotes
    obtain ⟨zs, read, related⟩ := (agree_textsSetting alike "quotes").ok left
    obtain rfl := Except.ok.inj (right.symm.trans read)
    rw [same, sameToo]
    exact mem_textsOf_iff related
  have separators : ∀ t, t ∈ p.statementSeparators ↔ t ∈ q.statementSeparators := by
    obtain ⟨xs, left, same⟩ := one.statementSeparators
    obtain ⟨ys, right, sameToo⟩ := two.statementSeparators
    rw [same, sameToo]
    exact sets left right
  have tight : ∀ t, t ∈ p.noSpaceBefore ↔ t ∈ q.noSpaceBefore := by
    obtain ⟨xs, left, same⟩ := one.noSpaceBefore
    obtain ⟨ys, right, sameToo⟩ := two.noSpaceBefore
    rw [same, sameToo]
    exact sets left right
  have rest : q = { p with
      quotes := q.quotes
      statementSeparators := q.statementSeparators
      noSpaceBefore := q.noSpaceBefore
      declarations := q.declarations } := by
    cases p
    cases q
    simp only [Profile.mk.injEq, true_and]
    exact ⟨text one.codeStart two.codeStart, text one.codeStartFull two.codeStartFull,
      text one.codeEnd two.codeEnd, text one.lineComment two.lineComment,
      text one.lineCommentEnd two.lineCommentEnd, text one.blockCommentStart two.blockCommentStart,
      text one.blockCommentEnd two.blockCommentEnd, text one.docCommentStart two.docCommentStart,
      text one.escape two.escape, text one.argsStart two.argsStart, text one.argsEnd two.argsEnd,
      text one.docLineMarker two.docLineMarker, text one.tagMarker two.tagMarker, pattern⟩
  rw [rest]
  exact .intro quotes separators tight (perm_declarations alike one.declarations two.declarations)

end Profile

end Marginalia
