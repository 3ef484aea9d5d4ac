import Marginalia.Proofs.TagTexts
import Marginalia.Proofs.Words

/-!
# Tags grouped by name

Tags are stored one after the other, and a tag that comes again is joined with what is there. What is stored in the end
can be told from the texts of the tags alone: each entry stands at the place of its first tag, and holds what all its
tags say. A tag goes to one part of a block, so each part is a run over the tags of its own, and a map filled in such a
run holds for each key what the values of this key come to.
-/

namespace Marginalia

namespace Text

/-! ## Words by position -/

/-- The word at a position, empty where there is none. -/
def wordAt (t : Text) (n : Nat) : Text := t.words.getD n []

/-- What follows the first `n` words, without the blanks around it. -/
def afterWords : Nat → Text → Text
  | 0, t => t.trim
  | n + 1, t => afterWords n (t.trimLeft.dropWhile (!isBlank ·))

theorem trimLeft_trimLeft (t : Text) : t.trimLeft.trimLeft = t.trimLeft := trimLeft_of_head (head?_trimLeft t)

theorem afterWords_trimLeft (n : Nat) (t : Text) : afterWords n t.trimLeft = afterWords n t := by
  cases n with
  | zero => rw [afterWords, afterWords, trim, trimLeft_trimLeft, ← trim]
  | succ n => rw [afterWords, afterWords, trimLeft_trimLeft]

theorem afterWords_append_blanks {after : Text} (blank : ∀ c ∈ after, isBlank c = true) (n : Nat) (t : Text) :
    afterWords n (t ++ after) = afterWords n t := by
  induction n generalizing t with
  | zero => exact trim_append_blank after blank t
  | succ n ih =>
    have none : after.trimLeft = [] := List.dropWhile_eq_nil_iff.mpr blank
    rw [afterWords, afterWords, trimLeft, List.dropWhile_append]
    split
    · next allBlank =>
      rw [trimLeft, List.isEmpty_iff.mp allBlank, ← trimLeft, none]
    · -- the first word ends in the text, or the blanks after it come next
      rw [← trimLeft, List.dropWhile_append]
      split
      · next ends =>
        have kept : after.dropWhile (!isBlank ·) = after := by
          cases after with
          | nil => rfl
          | cons c after => exact List.dropWhile_cons_of_neg (by simp [blank c List.mem_cons_self])
        rw [kept, List.isEmpty_iff.mp ends]
        exact ih []
      · exact ih _

theorem afterWords_trim (n : Nat) (t : Text) : afterWords n t.trim = afterWords n t := by
  obtain ⟨before, after, whole, blank⟩ := exists_trim t
  rw [List.forall_mem_append] at blank
  have left : trimLeft (before ++ t.trim) = t.trim.trimLeft := List.dropWhile_append_of_pos blank.1
  conv_rhs => rw [whole, afterWords_append_blanks blank.2, ← afterWords_trimLeft, left, afterWords_trimLeft]

theorem tight_afterWords (n : Nat) (t : Text) : (afterWords n t).Tight := by
  induction n generalizing t with
  | zero => exact tight_trim t
  | succ n ih => exact ih _

theorem wordAt_trim (t : Text) (n : Nat) : t.trim.wordAt n = t.wordAt n := by rw [wordAt, words_trim, wordAt]

/-- The first word and what follows it, by position. -/
theorem firstWord_cases (t : Text) : t.words = [] ∧ t.firstWord = ([], [])
    ∨ t.words = t.firstWord.1 :: t.firstWord.2.words ∧ t.firstWord.1 ≠ [] := by
  by_cases content : t.trimLeft = []
  · left
    rw [← words_trimLeft, firstWord, content]
    exact ⟨rfl, rfl⟩
  · right
    have whole := words_eq_cons (head?_trimLeft t) content
    rw [words_trimLeft] at whole
    refine ⟨?_, ?_⟩
    · rw [firstWord, words_trimLeft]
      exact whole
    · obtain ⟨c, rest, start⟩ := List.exists_cons_of_ne_nil content
      have solid := head?_trimLeft t c (by rw [start]; rfl)
      simp [firstWord, start, solid]

theorem firstWord_fst (t : Text) : t.firstWord.1 = t.wordAt 0 := by
  rcases firstWord_cases t with ⟨none, first⟩ | ⟨whole, -⟩
  · rw [first, wordAt, none]
    rfl
  · rw [wordAt, whole]
    rfl

theorem wordAt_firstWord (t : Text) (n : Nat) : t.firstWord.2.wordAt n = t.wordAt (n + 1) := by
  rcases firstWord_cases t with ⟨none, first⟩ | ⟨whole, -⟩
  · rw [first, wordAt, wordAt, none]
    rfl
  · rw [wordAt, wordAt, whole]
    rfl

theorem afterWords_firstWord (t : Text) (n : Nat) : afterWords n t.firstWord.2 = afterWords (n + 1) t :=
  afterWords_trimLeft n _

end Text

/-! ## Maps filled in a run -/

section Gathering

variable {α β : Type}

/-- The values of a key in order. -/
def Entries.valuesOf (pairs : Entries α) (key : Text) : List α := (pairs.filter (·.1 = key)).map Prod.snd

theorem eraseDups_concat (keys : List Text) (key : Text) :
    (keys ++ [key]).eraseDups = if key ∈ keys then keys.eraseDups else keys.eraseDups ++ [key] := by
  rw [List.eraseDups_append, List.cons_removeAll]
  by_cases there : key ∈ keys
  · simp [there]
  · simp [there, List.eraseDups_cons]

theorem nodup_eraseDups (keys : List Text) : keys.eraseDups.Nodup := by
  induction keys using List.reverseRecOn with
  | nil => exact List.nodup_nil
  | append_singleton keys key ih =>
    rw [eraseDups_concat]
    split
    · exact ih
    · next fresh =>
      refine List.nodup_append.mpr ⟨ih, List.nodup_singleton key, ?_⟩
      rintro k member _ last rfl
      rw [List.mem_singleton.mp last] at member
      exact fresh (List.mem_eraseDups.mp member)

theorem Entries.keys_map (keys : List Text) (value : Text → α) :
    Entries.keys (keys.map fun key => (key, value key)) = keys := by
  rw [Entries.keys, List.map_map]
  exact List.map_id keys

/-- Each key at the place of its first occurrence, with what its values come to. -/
def Dict.grouped (f : List α → β) (pairs : Entries α) : Dict β where
  entries := pairs.keys.eraseDups.map fun key => (key, f (pairs.valuesOf key))
  nodup := (Entries.keys_map _ _).symm ▸ nodup_eraseDups pairs.keys

/-- One more value for a key: the first one is taken up, another one is joined with what is there. -/
def Dict.gather (first : α → β) (next : β → α → β) (d : Dict β) (pair : Text × α) : Dict β :=
  d.insert pair.1 ((d.get? pair.1).elim (first pair.2) (next · pair.2))

/-- What values come to if they are joined one after the other. -/
structure Gathers (P : α → Prop) (first : α → β) (next : β → α → β) (f : List α → β) : Prop where
  one : ∀ x, P x → f [x] = first x
  more : ∀ xs x, xs ≠ [] → (∀ y ∈ xs, P y) → P x → f (xs ++ [x]) = next (f xs) x

theorem Entries.valuesOf_concat (pairs : Entries α) (pair : Text × α) (key : Text) :
    valuesOf (pairs ++ [pair]) key = if pair.1 = key then pairs.valuesOf key ++ [pair.2] else pairs.valuesOf key := by
  by_cases same : pair.1 = key <;> simp [valuesOf, same]

theorem Entries.valuesOf_ne_nil {pairs : Entries α} {key : Text} (member : key ∈ pairs.keys) :
    pairs.valuesOf key ≠ [] := by
  obtain ⟨pair, inside, rfl⟩ := List.mem_map.mp member
  intro none
  have kept : pair.2 ∈ pairs.valuesOf pair.1 := List.mem_map.mpr ⟨pair, by simp [inside], rfl⟩
  rw [none] at kept
  cases kept

theorem Entries.valuesOf_of_not_mem {pairs : Entries α} {key : Text} (fresh : key ∉ pairs.keys) :
    pairs.valuesOf key = [] := by
  rw [valuesOf, List.map_eq_nil_iff, List.filter_eq_nil_iff]
  intro pair inside same
  exact fresh (List.mem_map.mpr ⟨pair, inside, by simpa using same⟩)

theorem Dict.get?_grouped {f : List α → β} {pairs : Entries α} {key : Text} (member : key ∈ pairs.keys) :
    (Dict.grouped f pairs).get? key = some (f (pairs.valuesOf key)) := by
  refine (Entries.get?_eq_some_iff (Dict.grouped f pairs).nodup).mpr (List.mem_map.mpr ⟨key, ?_, rfl⟩)
  exact List.mem_eraseDups.mpr member

theorem Dict.mem_keys_grouped {f : List α → β} {pairs : Entries α} {key : Text} :
    key ∈ (Dict.grouped f pairs).entries.keys ↔ key ∈ pairs.keys := by
  rw [Dict.grouped, Entries.keys_map, List.mem_eraseDups]

section Gathers

variable {P : α → Prop} {first : α → β} {next : β → α → β} {f : List α → β} (gathers : Gathers P first next f)
include gathers

/-- A map filled in a run holds each key at the place of its first occurrence, with what its values come to. -/
theorem Gathers.foldl_gather {pairs : Entries α} (sound : ∀ pair ∈ pairs, P pair.2) :
    pairs.foldl (Dict.gather first next) Dict.empty = Dict.grouped f pairs := by
  induction pairs using List.reverseRecOn with
  | nil => rfl
  | append_singleton pairs pair ih =>
    rw [List.forall_mem_append, List.forall_mem_singleton] at sound
    obtain ⟨key, x⟩ := pair
    rw [List.foldl_append, ih sound.1, List.foldl_cons, List.foldl_nil, Dict.gather]
    apply Dict.ext
    have keys : Entries.keys (pairs ++ [(key, x)]) = Entries.keys pairs ++ [key] := List.map_append
    by_cases there : key ∈ Entries.keys pairs
    · have values : ∀ y ∈ Entries.valuesOf pairs key, P y := by
        intro y member
        obtain ⟨pair, inside, rfl⟩ := List.mem_map.mp member
        exact sound.1 pair (List.mem_filter.mp inside).1
      have joined := gathers.more _ x (Entries.valuesOf_ne_nil there) values sound.2
      rw [Dict.get?_grouped there, Option.elim_some]
      refine (Entries.insert_of_mem (Dict.grouped f pairs).nodup (Dict.mem_keys_grouped.mpr there) _).trans ?_
      simp only [Dict.grouped, keys, eraseDups_concat, if_pos there, List.map_map]
      refine List.map_congr_left fun k _ => ?_
      by_cases same : key = k
      · subst same
        simp [Entries.valuesOf_concat, joined]
      · simp [Entries.valuesOf_concat, same, Ne.symm same]
    · have unknown : key ∉ (Dict.grouped f pairs).entries.keys := Dict.mem_keys_grouped.not.mpr there
      rw [show (Dict.grouped f pairs).get? key = none from Entries.get?_of_not_mem unknown, Option.elim_none]
      refine (Entries.insert_of_not_mem unknown _).trans ?_
      simp only [Dict.grouped, keys, eraseDups_concat, if_neg there, List.map_append, List.map_singleton]
      congr 1
      · refine List.map_congr_left fun k member => ?_
        have other : key ≠ k := ne_of_mem_of_not_mem (List.mem_eraseDups.mp member) there |>.symm
        rw [Entries.valuesOf_concat, if_neg other]
      · rw [Entries.valuesOf_concat, if_pos rfl, Entries.valuesOf_of_not_mem there, List.nil_append,
          gathers.one x sound.2]

/-- The same for a single entry. -/
theorem Gathers.foldl_option {xs : List α} (sound : ∀ x ∈ xs, P x) :
    xs.foldl (fun value x => some (value.elim (first x) (next · x))) none = if xs = [] then none else some (f xs) := by
  induction xs using List.reverseRecOn with
  | nil => rfl
  | append_singleton xs x ih =>
    rw [List.forall_mem_append, List.forall_mem_singleton] at sound
    have more : xs ++ [x] ≠ [] := by simp
    rw [List.foldl_append, ih sound.1, List.foldl_cons, List.foldl_nil, if_neg more]
    by_cases none : xs = []
    · rw [if_pos none, none, List.nil_append, gathers.one x sound.2, Option.elim_none]
    · rw [if_neg none, gathers.more xs x none sound.1 sound.2, Option.elim_some]

end Gathers

end Gathering

namespace Block

/-! ## What the tags of one entry come to -/

/-- What parameters of one name, or results, come to: the first type, and the descriptions that are not empty with a
    space between them. -/
def joined (ts : List Typed) : Typed where
  type := (ts.head?.map Typed.type).getD []
  description := spaced (ts.map Typed.description)

/-- What the values of a tag come to. Empty ones at the start do not count; a single one that is left stands alone. -/
def kept (values : List Text) : TagValue :=
  match values.dropWhile List.isEmpty with
  | [] => .one []
  | [value] => .one value
  | values => .many values

theorem tight_spaced {fields : List Text} (tight : ∀ t ∈ fields, t.Tight) : (spaced fields).Tight := by
  induction fields with
  | nil => exact note_nil.tight
  | cons t rest ih =>
    rw [List.forall_mem_cons] at tight
    by_cases none : t = []
    · rw [none, spaced_cons_nil]
      exact ih tight.2
    · rw [spaced_cons none]
      split
      · exact tight.1
      · next more => exact tight.1.join [' '] (ih tight.2) none more

theorem spaced_concat (fields : List Text) {t : Text} (content : t ≠ []) :
    spaced (fields ++ [t]) = if spaced fields = [] then t else spaced fields ++ ' ' :: t := by
  induction fields with
  | nil => exact spaced_singleton t
  | cons first rest ih =>
    rw [List.cons_append]
    by_cases none : first = []
    · rw [none, spaced_cons_nil, spaced_cons_nil, ih]
    · have given : spaced (rest ++ [t]) ≠ [] := by
        rw [ih]
        split
        · exact content
        · simp
      rw [spaced_cons none, spaced_cons none, if_neg given, ih]
      by_cases last : spaced rest = []
      · rw [if_pos last, if_pos last, if_neg none]
      · rw [if_neg last, if_neg last, if_neg (by simp)]
        simp

theorem appendNote_spaced {fields : List Text} (tight : ∀ t ∈ fields, t.Tight) {t : Text} (tightToo : t.Tight) :
    appendNote (spaced fields) t = spaced (fields ++ [t]) := by
  unfold appendNote
  by_cases content : t = []
  · subst content
    rw [if_pos (by rfl), spaced, spaced, List.filter_append]
    simp
  · rw [if_neg (by simpa using content), spaced_concat fields content]
    by_cases none : spaced fields = []
    · rw [if_pos none, none]
      exact (Text.trim_cons_of_blank rfl t).trans (Text.trim_of_tight tightToo)
    · have wide : Text.Tight (spaced fields ++ (" ".toList ++ t)) := (tight_spaced tight).join _ tightToo none content
      rw [if_neg none, List.append_assoc, Text.trim_of_tight wide]
      rfl

theorem gathers_spaced : Gathers Text.Tight id appendNote spaced where
  one t _ := spaced_singleton t
  more _ _ _ tight tightToo := (appendNote_spaced tight tightToo).symm

/-- A further occurrence of a parameter or of a result. -/
def addTyped (before more : Typed) : Typed :=
  { before with description := appendNote before.description more.description }

theorem gathers_joined : Gathers (fun t : Typed => t.description.Tight) id addTyped joined where
  one t _ := by rw [joined, List.map_singleton, spaced_singleton]; rfl
  more ts t given tight tightToo := by
    obtain ⟨first, rest, rfl⟩ := List.exists_cons_of_ne_nil given
    have notes : ∀ d ∈ (first :: rest).map Typed.description, Text.Tight d := by
      intro d member
      obtain ⟨u, inside, rfl⟩ := List.mem_map.mp member
      exact tight u inside
    rw [addTyped, joined, joined, appendNote_spaced notes tightToo, List.map_append]
    rfl

theorem gathers_kept : Gathers (fun _ => True) TagValue.one TagValue.add kept where
  one t _ := by cases t <;> rfl
  more ts t _ _ _ := by
    unfold kept
    rw [List.dropWhile_append]
    cases left : ts.dropWhile List.isEmpty with
    | nil => cases t <;> rfl
    | cons first rest =>
      have content : first.isEmpty = false := by
        have head := List.head?_dropWhile_not List.isEmpty ts
        rwa [left] at head
      obtain ⟨c, first, rfl⟩ := List.exists_cons_of_ne_nil (l := first) (by simpa using content)
      cases rest <;> rfl

/-! ## Where a tag goes -/

/-- The parts of a block that tags are stored in. -/
inductive Part where
  | params
  | returns
  | uses
  | tags
  | others
  deriving DecidableEq, Repr

/-- The part for the tags of a name. -/
def Part.ofName (name : Text) : Part :=
  if name = "param".toList then .params
  else if name = "return".toList then .returns
  else if name = "uses".toList then .uses
  else if name ∈ knownTags then .tags
  else .others

/-- The text of a tag after the marker. -/
def tagBody (marker text : Text) : Text := text.drop marker.length

/-- The name of a tag in lower case: the first word after the marker. A tag without words has no name. -/
def tagName? (marker text : Text) : Option Text := (tagBody marker text).words.head?.map Text.lower

/-- The part that a tag goes to, if it has a name. -/
def part? (marker text : Text) : Option Part := (tagName? marker text).map Part.ofName

/-- Two blocks are the same, the part set aside. -/
def SameOutside (part : Part) (b b' : Block) : Prop :=
  b' = match part with
    | .params => { b with params := b'.params }
    | .returns => { b with returns := b'.returns }
    | .uses => { b with uses := b'.uses }
    | .tags => { b with tags := b'.tags }
    | .others => { b with others := b'.others }

/-- A parameter as the text after the marker gives it: after the name of the tag its type, its name and what is said of
    it. -/
def paramOf (body : Text) : Text × Typed := (body.wordAt 2, ⟨body.wordAt 1, body.afterWords 3⟩)

/-- A result as the text after the marker gives it. -/
def returnOf (body : Text) : Typed := ⟨body.wordAt 1, body.afterWords 2⟩

/-- A used module as the text after the marker gives it. -/
def useOf (body : Text) : Text × Text := (body.wordAt 1, body.afterWords 2)

/-- A tag of another kind as the text after the marker gives it: its name and its value. -/
def valueOf (body : Text) : Text × Text := ((body.wordAt 0).lower, body.afterWords 1)

theorem accumulate_eq_gather (bucket : Dict TagValue) (pair : Text × Text) :
    accumulate bucket pair.1 pair.2 = bucket.gather .one TagValue.add pair := by
  rw [accumulate, Dict.gather]
  cases bucket.get? pair.1 <;> rfl

theorem addParam_gather (b : Block) (rest : Text) : b.addParam rest
    = { b with params := b.params.gather id addTyped (rest.wordAt 1, ⟨rest.wordAt 0, rest.afterWords 2⟩) } := by
  rw [addParam_eq, ← Text.wordAt_firstWord, ← Text.afterWords_firstWord, ← Text.afterWords_firstWord,
    ← Text.firstWord_fst, ← Text.firstWord_fst, putParam, Dict.gather]
  dsimp only
  cases b.params.get? (Text.firstWord rest.firstWord.2).1 <;> rfl

theorem addReturn_elim (b : Block) (rest : Text) :
    let result : Typed := ⟨rest.wordAt 0, rest.afterWords 1⟩
    b.addReturn rest = { b with returns := some (b.returns.elim result (addTyped · result)) } := by
  intro result
  have same : result = ⟨rest.firstWord.1, rest.firstWord.2.trim⟩ := by
    rw [Text.firstWord_fst]
    exact congrArg (Typed.mk _) (Text.afterWords_firstWord rest 0).symm
  rw [addReturn_eq, putReturn, same]
  cases b.returns <;> rfl

theorem addUses_gather (b : Block) (rest : Text) :
    b.addUses rest = { b with uses := b.uses.gather id appendNote (rest.wordAt 0, rest.afterWords 1) } := by
  rw [addUses_eq, ← Text.afterWords_firstWord, ← Text.firstWord_fst, putUse, Dict.gather]
  dsimp only
  cases b.uses.get? rest.firstWord.1 <;> rfl

/-- Everything that storing a tag does. -/
theorem applyTag_cases (marker : Text) (b : Block) (text : Text) :
    applyTag marker b text = match part? marker text with
      | none => b
      | some .params => { b with params := b.params.gather id addTyped (paramOf (tagBody marker text)) }
      | some .returns =>
        let result := returnOf (tagBody marker text)
        { b with returns := some (b.returns.elim result (addTyped · result)) }
      | some .uses => { b with uses := b.uses.gather id appendNote (useOf (tagBody marker text)) }
      | some .tags => { b with tags := b.tags.gather .one TagValue.add (valueOf (tagBody marker text)) }
      | some .others => { b with others := b.others.gather .one TagValue.add (valueOf (tagBody marker text)) } := by
  have read : applyTag marker b text = if (tagBody marker text).firstWord.1.isEmpty then b
      else store b (tagBody marker text).firstWord.1.lower (tagBody marker text).firstWord.2.trim := rfl
  rw [read, part?, tagName?]
  generalize tagBody marker text = body
  rcases Text.firstWord_cases body with ⟨none, first⟩ | ⟨whole, content⟩
  · rw [none, first]
    rfl
  · -- the blanks around the rest do not count, so words can be counted from the name of the tag on
    have word : ∀ n, Text.wordAt body.firstWord.2.trim n = body.wordAt (n + 1) := by
      intro n
      rw [Text.wordAt_trim, Text.wordAt_firstWord]
    have after : ∀ n, Text.afterWords n body.firstWord.2.trim = body.afterWords (n + 1) := by
      intro n
      rw [Text.afterWords_trim, Text.afterWords_firstWord]
    have rest : body.firstWord.2.trim = body.afterWords 1 := Text.afterWords_firstWord body 0
    have named : (body.words.head?.map Text.lower).map Part.ofName = some (Part.ofName body.firstWord.1.lower) := by
      rw [whole]
      rfl
    have name : (valueOf body).1 = body.firstWord.1.lower := by rw [valueOf, Text.firstWord_fst]
    rw [if_neg (by simpa using content), named, store, Part.ofName, List.contains_eq_mem]
    simp only [decide_eq_true_eq]
    split_ifs with param result uses known
    · rw [addParam_gather, word, word, after]
      rfl
    · rw [addReturn_elim, word, after]
      rfl
    · rw [addUses_gather, word, after]
      rfl
    · rw [← name, rest]
      exact congrArg (fun d => { b with tags := d }) (accumulate_eq_gather b.tags (valueOf body))
    · rw [← name, rest]
      exact congrArg (fun d => { b with others := d }) (accumulate_eq_gather b.others (valueOf body))

theorem sameOutside_applyTag {marker text name : Text} (named : tagName? marker text = some name) (b : Block) :
    SameOutside (Part.ofName name) b (applyTag marker b text) := by
  rw [applyTag_cases, part?, named, Option.map_some]
  cases Part.ofName name <;> rfl

/-! ## Tags one after the other -/

/-- The texts after the marker of the tags that go to a part, in order. -/
def bodies (marker : Text) (part : Part) (texts : List Text) : List Text :=
  (texts.filter (part? marker · = some part)).map (tagBody marker)

section Parts

variable {marker : Text} {part : Part}

/-- What becomes of one part is a matter of the tags that go to it. -/
theorem foldl_bodies {α : Type} {get : Block → α} {put : α → Text → α}
    (step : ∀ b text, get (applyTag marker b text)
      = if part? marker text = some part then put (get b) (tagBody marker text) else get b)
    (texts : List Text) (b : Block) :
    get (texts.foldl (applyTag marker) b) = (bodies marker part texts).foldl put (get b) := by
  induction texts generalizing b with
  | nil => rfl
  | cons text rest ih =>
    rw [List.foldl_cons, ih, step]
    by_cases here : part? marker text = some part <;> simp [bodies, here]

theorem foldl_gather_bodies {α β : Type} {P : α → Prop} {first : α → β} {next : β → α → β} {f : List α → β}
    (gathers : Gathers P first next f) {get : Block → Dict β} {say : Text → Text × α} (sound : ∀ body, P (say body).2)
    (step : ∀ b text, get (applyTag marker b text)
      = if part? marker text = some part then (get b).gather first next (say (tagBody marker text)) else get b)
    (none : get empty = Dict.empty) (texts : List Text) :
    get (texts.foldl (applyTag marker) empty) = .grouped f ((bodies marker part texts).map say) := by
  have each : ∀ pair ∈ (bodies marker part texts).map say, P pair.2 := by
    intro pair member
    obtain ⟨body, -, rfl⟩ := List.mem_map.mp member
    exact sound body
  rw [← gathers.foldl_gather each, List.foldl_map, ← none]
  exact foldl_bodies step texts empty

end Parts

section Grouped

variable (marker : Text) (texts : List Text)

theorem params_foldl : (texts.foldl (applyTag marker) empty).params
    = .grouped joined ((bodies marker .params texts).map paramOf) := by
  refine foldl_gather_bodies gathers_joined (Text.tight_afterWords 3) (fun b text => ?_) rfl texts
  rw [applyTag_cases]
  rcases part? marker text with _ | _ | _ <;> rfl

theorem uses_foldl : (texts.foldl (applyTag marker) empty).uses
    = .grouped spaced ((bodies marker .uses texts).map useOf) := by
  refine foldl_gather_bodies gathers_spaced (Text.tight_afterWords 2) (fun b text => ?_) rfl texts
  rw [applyTag_cases]
  rcases part? marker text with _ | _ | _ <;> rfl

theorem tags_foldl : (texts.foldl (applyTag marker) empty).tags
    = .grouped kept ((bodies marker .tags texts).map valueOf) := by
  refine foldl_gather_bodies gathers_kept (fun _ => True.intro) (fun b text => ?_) rfl texts
  rw [applyTag_cases]
  rcases part? marker text with _ | _ | _ <;> rfl

theorem others_foldl : (texts.foldl (applyTag marker) empty).others
    = .grouped kept ((bodies marker .others texts).map valueOf) := by
  refine foldl_gather_bodies gathers_kept (fun _ => True.intro) (fun b text => ?_) rfl texts
  rw [applyTag_cases]
  rcases part? marker text with _ | _ | _ <;> rfl

theorem returns_foldl : (texts.foldl (applyTag marker) empty).returns
    = if bodies marker .returns texts = [] then none
      else some (joined ((bodies marker .returns texts).map returnOf)) := by
  have sound : ∀ r ∈ (bodies marker .returns texts).map returnOf, Text.Tight r.description := by
    intro r member
    obtain ⟨body, -, rfl⟩ := List.mem_map.mp member
    exact Text.tight_afterWords 2 body
  have whole := gathers_joined.foldl_option sound
  rw [List.foldl_map] at whole
  simp only [List.map_eq_nil_iff] at whole
  rw [← whole]
  refine foldl_bodies (fun b text => ?_) texts empty
  rw [applyTag_cases]
  rcases part? marker text with _ | _ | _ <;> rfl

theorem bodies_returns_eq_nil :
    bodies marker .returns texts = [] ↔ ∀ text ∈ texts, tagName? marker text ≠ some "return".toList := by
  have only : ∀ text, part? marker text = some .returns ↔ tagName? marker text = some "return".toList := by
    intro text
    rw [part?, Option.map_eq_some_iff]
    constructor
    · rintro ⟨name, named, goes⟩
      unfold Part.ofName at goes
      split_ifs at goes with param result
      rw [named, result]
    · intro named
      exact ⟨_, named, rfl⟩
  simp only [bodies, List.map_eq_nil_iff, List.filter_eq_nil_iff, decide_eq_true_eq, only, ne_eq]

end Grouped

/-- Tags are grouped. A tag without a name is left out, and any other one goes to the part of its name and nowhere else.
    In the end each parameter, module and other tag stands at the place of its first occurrence. A parameter and the
    result have the type that was given first; descriptions that are not empty are joined by spaces. Of the values of
    another tag the empty ones at the start are left out, and several are a list. -/
theorem foldl_applyTag_grouped (marker : Text) (texts : List Text) :
    (∀ b text, tagName? marker text = none → applyTag marker b text = b)
    ∧ (∀ b text, ∀ name ∈ tagName? marker text, SameOutside (Part.ofName name) b (applyTag marker b text))
    ∧ let b := texts.foldl (applyTag marker) empty
      b.params = .grouped joined ((bodies marker .params texts).map paramOf)
      ∧ b.uses = .grouped spaced ((bodies marker .uses texts).map useOf)
      ∧ (b.returns = none ↔ ∀ text ∈ texts, tagName? marker text ≠ some "return".toList)
      ∧ (∀ r ∈ b.returns, r = joined ((bodies marker .returns texts).map returnOf))
      ∧ b.tags = .grouped kept ((bodies marker .tags texts).map valueOf)
      ∧ b.others = .grouped kept ((bodies marker .others texts).map valueOf) := by
  refine ⟨fun b text unnamed => ?_, fun b text name named => sameOutside_applyTag named b, params_foldl marker texts,
    uses_foldl marker texts, ?_, ?_, tags_foldl marker texts, others_foldl marker texts⟩
  · rw [applyTag_cases, part?, unnamed]
    rfl
  · rw [returns_foldl, ← bodies_returns_eq_nil]
    simp
  · intro r found
    rw [returns_foldl] at found
    split at found
    · cases found
    · cases found
      rfl

end Block

end Marginalia
