import Marginalia.Proofs.Drafts
import Marginalia.Proofs.Lower
import Marginalia.Proofs.Sorted

/-!
# Tags written and read again

The tags of a block as texts, one for each entry: the name and the fields that are not empty. Read one after the other
they put the same entries in the same order. The exception is a result without a type: what is left of it is its
description, and the first word of that is taken for a type.
-/

namespace Marginalia

/-- The texts of a tag in order. -/
def TagValue.texts : TagValue → List Text
  | .one t => [t]
  | .many ts => ts

namespace Block

/-! ## The texts of a block -/

/-- Fields with a space between them; empty ones are left out. -/
def spaced (fields : List Text) : Text := Text.join " " (fields.filter (!·.isEmpty))

/-- The text of a tag with some fields. -/
def tagText (name : Text) (fields : List Text) : Text := '@' :: spaced (name :: fields)

/-- The text of a parameter. -/
def paramText (entry : Text × Typed) : Text := tagText "param" [entry.2.type, entry.1, entry.2.description]

/-- The text of a result. -/
def returnText (r : Typed) : Text := tagText "return" [r.type, r.description]

/-- The text of a used module. -/
def usesText (entry : Text × Text) : Text := tagText "uses" [entry.1, entry.2]

/-- The texts of a tag that may be repeated. -/
def bucketTexts (entry : Text × TagValue) : List Text := entry.2.texts.map fun t => tagText entry.1 [t]

/-- The texts of all tags of a block. -/
def tagTexts (b : Block) : List Text :=
  b.params.entries.map paramText ++ (b.returns.toList.map returnText ++ (b.uses.entries.map usesText
    ++ (b.tags.entries.flatMap bucketTexts ++ b.others.entries.flatMap bucketTexts)))

/-! ## Words -/

/-- A text without blanks. -/
def Word (t : Text) : Prop := ∀ c ∈ t, isBlank c = false

theorem Word.note {t : Text} (word : Word t) : Note t := by
  refine .of_one (fun feed => ?_) (Text.tight_of_forall word)
  cases word _ feed

theorem word_firstWord (t : Text) : Word (Text.firstWord t).1 := by
  intro c member
  simpa using List.mem_takeWhile_imp member

theorem suffix_firstWord (t : Text) : (Text.firstWord t).2 <:+ t := by
  unfold Text.firstWord Text.trimLeft
  exact ((List.dropWhile_suffix _).trans (List.dropWhile_suffix _)).trans (List.dropWhile_suffix _)

theorem firstWord_of_fst {t : Text} (none : (Text.firstWord t).1 = []) : (Text.firstWord t).2 = [] := by
  unfold Text.firstWord at none ⊢
  dsimp only at none ⊢
  have blank : t.trimLeft = [] := by
    cases start : t.trimLeft with
    | nil => rfl
    | cons c rest =>
      have solid := Text.head?_trimLeft t c (by rw [start]; rfl)
      rw [start] at none
      simp [solid] at none
  rw [blank]
  rfl

theorem firstWord_fst_ne_nil {t : Text} (tight : t.Tight) (content : t ≠ []) : (Text.firstWord t).1 ≠ [] := by
  obtain ⟨c, rest, rfl⟩ := List.exists_cons_of_ne_nil content
  have solid := tight.start c rfl
  simp [Text.firstWord, Text.trimLeft, solid]

theorem firstWord_append {w rest : Text} (word : Word w) (content : w ≠ [])
    (start : ∀ c ∈ rest.head?, isBlank c = false) : Text.firstWord (w ++ ' ' :: rest) = (w, rest) := by
  obtain ⟨c, more, rfl⟩ := List.exists_cons_of_ne_nil content
  have left : Text.trimLeft ((c :: more) ++ ' ' :: rest) = (c :: more) ++ ' ' :: rest :=
    Text.trimLeft_of_head fun d h => word d (by simp_all)
  have solid : ∀ d ∈ c :: more, (!isBlank d) = true := fun d h => by simp [word d h]
  have blank : isBlank ' ' = true := rfl
  rw [Text.firstWord, left, List.takeWhile_append_of_pos solid, List.dropWhile_append_of_pos solid]
  simp only [List.takeWhile_cons, List.dropWhile_cons, blank, Bool.not_true, Bool.false_eq_true, if_false,
    List.append_nil]
  rw [Text.trimLeft, List.dropWhile_cons_of_pos blank]
  exact congrArg (Prod.mk _) (Text.trimLeft_of_head start)

theorem firstWord_word {w : Text} (word : Word w) : Text.firstWord w = (w, []) := by
  have left : Text.trimLeft w = w := Text.trimLeft_of_head (Text.tight_of_forall word).start
  have solid : ∀ d ∈ w, (!isBlank d) = true := fun d h => by simp [word d h]
  rw [Text.firstWord, left, List.takeWhile_eq_self_iff.mpr solid, List.dropWhile_eq_nil_iff.mpr solid]
  rfl

/-! ## Fields -/

theorem spaced_singleton (t : Text) : spaced [t] = t := by
  cases t with
  | nil => rfl
  | cons c t => simp [spaced, Text.join_singleton]

theorem spaced_cons_nil (rest : List Text) : spaced ([] :: rest) = spaced rest := rfl

theorem spaced_cons {t : Text} (content : t ≠ []) (rest : List Text) :
    spaced (t :: rest) = if spaced rest = [] then t else t ++ ' ' :: spaced rest := by
  have kept : (t :: rest).filter (!·.isEmpty) = t :: rest.filter (!·.isEmpty) := by
    rw [List.filter_cons_of_pos]
    simpa using content
  unfold spaced
  rw [kept]
  cases others : rest.filter (!·.isEmpty) with
  | nil => rw [Text.join_singleton]; rfl
  | cons other more =>
    have given : other ≠ [] := by
      have inside : other ∈ rest.filter (!·.isEmpty) := by simp [others]
      simpa using (List.mem_filter.mp inside).2
    have joined : Text.join " " (other :: more) ≠ [] := by
      cases more with
      | nil => rw [Text.join_singleton]; exact given
      | cons next more => rw [Text.join_cons_cons]; simp [given]
    rw [if_neg joined, Text.join_cons_cons]
    simp

theorem note_spaced {fields : List Text} (notes : ∀ t ∈ fields, Note t) : Note (spaced fields) := by
  induction fields with
  | nil => exact note_nil
  | cons t rest ih =>
    rw [List.forall_mem_cons] at notes
    have others := ih notes.2
    by_cases none : t = []
    · subst none
      exact others
    · rw [spaced_cons none]
      have joined := note_appendNote notes.1 others
      unfold appendNote at joined
      split
      · exact notes.1
      · next given =>
        rw [if_neg (by simpa using given)] at joined
        have tight : Text.Tight (t ++ (" " ++ spaced rest)) := notes.1.tight.join _ others.tight none given
        rw [List.append_assoc, Text.trim_of_tight tight] at joined
        exact joined

/-- The first field is the first word, unless only a later one is given. -/
theorem firstWord_spaced {w : Text} {rest : List Text} (word : Word w) (notes : ∀ t ∈ rest, Note t)
    (ordered : w = [] → spaced rest = []) : Text.firstWord (spaced (w :: rest)) = (w, spaced rest) := by
  by_cases none : w = []
  · rw [none, spaced_cons_nil, ordered none]
    rfl
  · rw [spaced_cons none]
    split
    · next blank => rw [firstWord_word word, blank]
    · exact firstWord_append word none (note_spaced notes).tight.start

theorem tagText_spaced {name : Text} {fields : List Text} (notes : ∀ t ∈ name :: fields, Note t) :
    TagText (tagText name fields) := by
  obtain ⟨first, rest, whole, tight, -, later⟩ := (note_spaced notes).cases
  have marked : Text.lines (tagText name fields) = ('@' :: first) :: rest := by
    rw [Text.lines] at whole ⊢
    simp [tagText, Text.splitOn, whole]
  refine ⟨.of_lines marked ⟨by simp; decide, ?_⟩ (by simp) later, rfl⟩
  intro c h
  cases first with
  | nil =>
    obtain rfl : '@' = c := by simpa using h
    decide
  | cons d first => exact tight.stop c (by simpa using h)

/-! ## What tags are stored as -/

/-- Stores what follows the name of a tag. -/
def store (b : Block) (name rest : Text) : Block :=
  if name = "param".toList then b.addParam rest
  else if name = "return".toList then b.addReturn rest
  else if name = "uses".toList then b.addUses rest
  else if knownTags.contains name then { b with tags := accumulate b.tags name rest }
  else { b with others := accumulate b.others name rest }

theorem applyTag_eq (b : Block) (text : Text) :
    applyTag "@" b text = if (Text.firstWord (text.drop 1)).1.isEmpty then b
      else store b (Text.firstWord (text.drop 1)).1.lower (Text.firstWord (text.drop 1)).2.trim := rfl

/-- A name that is read as itself. -/
structure TagName (name : Text) : Prop where
  word : Word name
  content : name ≠ []
  lower : name.lower = name

theorem tagName_lower {word : Text} (solid : Word word) (content : word ≠ []) : TagName word.lower :=
  ⟨Text.lower_solid solid, Text.lower_ne_nil content, Text.lower_lower word⟩

theorem tagName_builtIn : ∀ name ∈ ("param".toList :: "return".toList :: "uses".toList :: knownTags), TagName name := by
  have each : ∀ name ∈ ("param".toList :: "return".toList :: "uses".toList :: knownTags),
      (∀ c ∈ name, isBlank c = false) ∧ name ≠ [] ∧ Text.lower name = name := by decide +kernel
  exact fun name member => ⟨(each name member).1, (each name member).2.1, (each name member).2.2⟩

/-- A tag with a name of its own is stored under that name with its fields. -/
theorem applyTag_tagText (b : Block) {name : Text} {fields : List Text} (named : TagName name)
    (notes : ∀ t ∈ fields, Note t) : applyTag "@" b (tagText name fields) = store b name (spaced fields) := by
  have first : Text.firstWord ((tagText name fields).drop 1) = (name, spaced fields) :=
    firstWord_spaced named.word notes fun none => absurd none named.content
  rw [applyTag_eq, first]
  dsimp only
  rw [if_neg (by simpa using named.content), named.lower, Text.trim_of_tight (note_spaced notes).tight]

/-- An entry for a parameter: one without a type has no name, and one without a name no description. -/
structure SoundParam (entry : Text × Typed) : Prop where
  name : Word entry.1
  type : Word entry.2.type
  description : Note entry.2.description
  typed : entry.2.type = [] → entry.1 = []
  named : entry.1 = [] → entry.2.description = []

/-- An entry for a used module: one without a name has no description. -/
structure SoundUse (entry : Text × Text) : Prop where
  name : Word entry.1
  description : Note entry.2
  named : entry.1 = [] → entry.2 = []

/-- A result. -/
structure SoundReturn (r : Typed) : Prop where
  type : Word r.type
  description : Note r.description

/-- The value of a tag: of several texts the first is not empty. -/
def SoundValue : TagValue → Prop
  | .one t => Note t
  | .many ts => (∃ first second rest, ts = first :: second :: rest ∧ first ≠ []) ∧ ∀ t ∈ ts, Note t

/-- The name of a tag that is neither built in nor known. -/
structure OtherName (name : Text) : Prop where
  tagName : TagName name
  noParam : name ≠ "param".toList
  noReturn : name ≠ "return".toList
  noUses : name ≠ "uses".toList
  unknown : knownTags.contains name = false

/-- The form of what has been stored. -/
structure Stored (b : Block) : Prop where
  params : ∀ entry ∈ b.params.entries, SoundParam entry
  returns : ∀ r ∈ b.returns, SoundReturn r
  uses : ∀ entry ∈ b.uses.entries, SoundUse entry
  tags : ∀ entry ∈ b.tags.entries, entry.1 ∈ knownTags ∧ SoundValue entry.2
  others : ∀ entry ∈ b.others.entries, OtherName entry.1 ∧ SoundValue entry.2

/-- Stores a parameter that has been taken apart. -/
def putParam (b : Block) (type name description : Text) : Block :=
  { b with
    params := b.params.insert name <|
      match b.params.get? name with
      | some p => { p with description := appendNote p.description description }
      | none => ⟨type, description⟩ }

theorem addParam_eq (b : Block) (rest : Text) :
    b.addParam rest = b.putParam (Text.firstWord rest).1 (Text.firstWord (Text.firstWord rest).2).1
      (Text.firstWord (Text.firstWord rest).2).2.trim := rfl

/-- Stores a result that has been taken apart. -/
def putReturn (b : Block) (type description : Text) : Block :=
  { b with
    returns := some <|
      match b.returns with
      | some r => { r with description := appendNote r.description description }
      | none => ⟨type, description⟩ }

theorem addReturn_eq (b : Block) (rest : Text) :
    b.addReturn rest = b.putReturn (Text.firstWord rest).1 (Text.firstWord rest).2.trim := rfl

/-- Stores a used module that has been taken apart. -/
def putUse (b : Block) (name description : Text) : Block :=
  { b with
    uses := b.uses.insert name <|
      match b.uses.get? name with
      | some t => appendNote t description
      | none => description }

theorem addUses_eq (b : Block) (rest : Text) :
    b.addUses rest = b.putUse (Text.firstWord rest).1 (Text.firstWord rest).2.trim := rfl

section Stored

variable {b : Block} {rest : Text}

theorem Stored.putParam (stored : b.Stored) {type name description : Text}
    (sound : SoundParam (name, ⟨type, description⟩)) : (b.putParam type name description).Stored := by
  refine { stored with params := fun entry member => ?_ }
  rcases Entries.mem_insert member with rfl | old
  · cases found : b.params.get? name with
    | none => exact sound
    | some p =>
      have before := stored.params _ ((Entries.get?_eq_some_iff b.params.nodup).mp found)
      refine ⟨before.name, before.type, note_appendNote before.description sound.description, before.typed, ?_⟩
      intro none
      show appendNote p.description description = []
      rw [show p.description = [] from before.named none, show description = [] from sound.named none]
      rfl
  · exact stored.params entry old

theorem Stored.putReturn (stored : b.Stored) {type description : Text} (sound : SoundReturn ⟨type, description⟩) :
    (b.putReturn type description).Stored := by
  refine { stored with returns := ?_ }
  rintro r ⟨⟩
  cases found : b.returns with
  | none => exact sound
  | some before =>
    have earlier := stored.returns before found
    exact ⟨earlier.type, note_appendNote earlier.description sound.description⟩

theorem Stored.putUse (stored : b.Stored) {name description : Text} (sound : SoundUse (name, description)) :
    (b.putUse name description).Stored := by
  refine { stored with uses := fun entry member => ?_ }
  rcases Entries.mem_insert member with rfl | old
  · cases found : b.uses.get? name with
    | none => exact sound
    | some t =>
      have before := stored.uses _ ((Entries.get?_eq_some_iff b.uses.nodup).mp found)
      refine ⟨before.name, note_appendNote before.description sound.description, ?_⟩
      intro none
      show appendNote t description = []
      rw [show t = [] from before.named none, show description = [] from sound.named none]
      rfl
  · exact stored.uses entry old

theorem trim_of_firstWord {t : Text} (none : (Text.firstWord t).1 = []) : (Text.firstWord t).2.trim = [] := by
  rw [firstWord_of_fst none]
  rfl

theorem Stored.addParam (stored : b.Stored) (note : Note rest) : (b.addParam rest).Stored := by
  rw [addParam_eq]
  have afterName := (suffix_firstWord (Text.firstWord rest).2).trans (suffix_firstWord rest)
  refine stored.putParam ⟨word_firstWord _, word_firstWord _, note.trim afterName, fun none => ?_, trim_of_firstWord⟩
  show (Text.firstWord (Text.firstWord rest).2).1 = []
  rw [firstWord_of_fst none]
  rfl

theorem Stored.addReturn (stored : b.Stored) (note : Note rest) : (b.addReturn rest).Stored := by
  rw [addReturn_eq]
  exact stored.putReturn ⟨word_firstWord _, note.trim (suffix_firstWord rest)⟩

theorem Stored.addUses (stored : b.Stored) (note : Note rest) : (b.addUses rest).Stored := by
  rw [addUses_eq]
  exact stored.putUse ⟨word_firstWord _, note.trim (suffix_firstWord rest), trim_of_firstWord⟩

theorem soundValue_add {v : TagValue} (sound : SoundValue v) (note : Note rest) : SoundValue (TagValue.add v rest) := by
  match v with
  | .one [] => exact note
  | .one (c :: t) => exact ⟨⟨c :: t, rest, [], rfl, by simp⟩, by simpa using ⟨sound, note⟩⟩
  | .many ts =>
    obtain ⟨⟨first, second, more, rfl, content⟩, notes⟩ := sound
    refine ⟨⟨first, second, more ++ [rest], rfl, content⟩, List.forall_mem_append.mpr ⟨notes, ?_⟩⟩
    simpa using note

theorem mem_accumulate {bucket : Dict TagValue} {name : Text} (note : Note rest)
    (sound : ∀ entry ∈ bucket.entries, SoundValue entry.2) {entry : Text × TagValue}
    (member : entry ∈ (accumulate bucket name rest).entries) :
    (entry.1 = name ∨ entry ∈ bucket.entries) ∧ SoundValue entry.2 := by
  rcases Entries.mem_insert member with rfl | old
  · refine ⟨.inl rfl, ?_⟩
    cases found : bucket.get? name with
    | none => exact note
    | some v => exact soundValue_add (sound _ ((Entries.get?_eq_some_iff bucket.nodup).mp found)) note
  · exact ⟨.inr old, sound entry old⟩

theorem Stored.store (stored : b.Stored) {name : Text} (named : TagName name) (note : Note rest) :
    (b.store name rest).Stored := by
  unfold Block.store
  split
  · exact stored.addParam note
  · next noParam =>
    split
    · exact stored.addReturn note
    · next noReturn =>
      split
      · exact stored.addUses note
      · next noUses =>
        split
        · next known =>
          refine { stored with tags := fun entry member => ?_ }
          obtain ⟨source, sound⟩ := mem_accumulate note (fun e h => (stored.tags e h).2) member
          refine ⟨source.elim (fun same => ?_) fun old => (stored.tags entry old).1, sound⟩
          rw [same]
          simpa using known
        · next unknown =>
          refine { stored with others := fun entry member => ?_ }
          obtain ⟨source, sound⟩ := mem_accumulate note (fun e h => (stored.others e h).2) member
          refine ⟨source.elim (fun same => ?_) fun old => (stored.others entry old).1, sound⟩
          rw [same]
          exact ⟨named, noParam, noReturn, noUses, by simpa using unknown⟩

/-- One tag more keeps the form. -/
theorem Stored.applyTag (stored : b.Stored) {text : Text} (tag : TagText text) : (b.applyTag "@" text).Stored := by
  rw [applyTag_eq]
  split
  · exact stored
  · next given =>
    have left : text.drop 1 <:+ text := List.drop_suffix 1 text
    exact stored.store (tagName_lower (word_firstWord _) (by simpa using given))
      (tag.note.trim ((suffix_firstWord _).trans left))

theorem stored_foldl {texts : List Text} (tags : ∀ t ∈ texts, TagText t) (stored : b.Stored) :
    (texts.foldl (Block.applyTag "@") b).Stored := by
  induction texts generalizing b with
  | nil => exact stored
  | cons t rest ih =>
    rw [List.forall_mem_cons] at tags
    exact ih tags.2 (stored.applyTag tags.1)

end Stored

/-! ## Texts read again -/

section Again

variable {α : Type}

/-- Entries are put in one after the other, each from its own texts. -/
theorem foldl_entries {put : Dict α → Block} {texts : Text × α → List Text} {entries : Entries α}
    (step : ∀ entry ∈ entries, ∀ d : Dict α, entry.1 ∉ d.keys →
      (texts entry).foldl (applyTag "@") (put d) = put (d.insert entry.1 entry.2))
    (d : Dict α) (nodup : (d.entries ++ entries).keys.Nodup) :
    ∃ e : Dict α, e.entries = d.entries ++ entries ∧ (entries.flatMap texts).foldl (applyTag "@") (put d) = put e := by
  induction entries generalizing d with
  | nil => exact ⟨d, by simp, rfl⟩
  | cons entry rest ih =>
    rw [List.forall_mem_cons] at step
    have fresh : entry.1 ∉ d.keys := by
      intro member
      simp only [Entries.keys, List.map_append, List.map_cons, List.nodup_append] at nodup
      exact nodup.2.2 entry.1 member entry.1 List.mem_cons_self rfl
    have added : (d.insert entry.1 entry.2).entries = d.entries ++ [entry] := Entries.insert_of_not_mem fresh entry.2
    obtain ⟨e, same, read⟩ := ih step.2 (d.insert entry.1 entry.2) (by simpa [added] using nodup)
    refine ⟨e, by rw [same, added, List.append_assoc]; rfl, ?_⟩
    rw [List.flatMap_cons, List.foldl_append, step.1 d fresh, read]

theorem foldl_dict (put : Dict α → Block) (texts : Text × α → List Text) {e : Dict α}
    (step : ∀ entry ∈ e.entries, ∀ d : Dict α, entry.1 ∉ d.keys →
      (texts entry).foldl (applyTag "@") (put d) = put (d.insert entry.1 entry.2)) :
    (e.entries.flatMap texts).foldl (applyTag "@") (put Dict.empty) = put e := by
  obtain ⟨again, same, read⟩ := foldl_entries step Dict.empty e.nodup
  rw [read, Dict.ext (d := again) same]

theorem applyTag_paramText (b : Block) {entry : Text × Typed} (sound : SoundParam entry)
    (fresh : entry.1 ∉ b.params.keys) :
    applyTag "@" b (paramText entry) = { b with params := b.params.insert entry.1 entry.2 } := by
  obtain ⟨name, type, description⟩ := entry
  obtain ⟨nameWord, typeWord, note, typed, named⟩ := sound
  dsimp only at nameWord typeWord note typed named
  have notes : ∀ t ∈ [name, description], Note t := by simpa using ⟨nameWord.note, note⟩
  have second : Text.firstWord (spaced [name, description]) = (name, spaced [description]) :=
    firstWord_spaced nameWord (by simpa using note) fun none => by rw [spaced_singleton, named none]
  have first : Text.firstWord (spaced [type, name, description]) = (type, spaced [name, description]) := by
    refine firstWord_spaced typeWord notes fun none => ?_
    rw [typed none, spaced_cons_nil, spaced_singleton, named (typed none)]
  rw [paramText, applyTag_tagText b (tagName_builtIn _ (by simp)) (by simpa using ⟨typeWord.note, nameWord.note, note⟩)]
  rw [store, if_pos rfl, addParam_eq, first, second, spaced_singleton, Text.trim_of_tight note.tight, putParam,
    show b.params.get? name = none from Entries.get?_of_not_mem fresh]

theorem applyTag_usesText (b : Block) {entry : Text × Text} (sound : SoundUse entry) (fresh : entry.1 ∉ b.uses.keys) :
    applyTag "@" b (usesText entry) = { b with uses := b.uses.insert entry.1 entry.2 } := by
  obtain ⟨name, description⟩ := entry
  obtain ⟨nameWord, note, named⟩ := sound
  dsimp only at nameWord note named
  have first : Text.firstWord (spaced [name, description]) = (name, spaced [description]) :=
    firstWord_spaced nameWord (by simpa using note) fun none => by rw [spaced_singleton, named none]
  rw [usesText, applyTag_tagText b (tagName_builtIn _ (by simp)) (by simpa using ⟨nameWord.note, note⟩)]
  rw [store, if_neg (by decide), if_neg (by decide), if_pos rfl, addUses_eq, first, spaced_singleton,
    Text.trim_of_tight note.tight, putUse, show b.uses.get? name = none from Entries.get?_of_not_mem fresh]

/-- What a result is read as from its own text. -/
def reread (r : Typed) : Typed :=
  let (type, description) := Text.firstWord (spaced [r.type, r.description])
  ⟨type, description.trim⟩

theorem applyTag_returnText (b : Block) {r : Typed} (sound : SoundReturn r) (none : b.returns = none) :
    applyTag "@" b (returnText r) = { b with returns := some (reread r) } := by
  rw [returnText, applyTag_tagText b (tagName_builtIn _ (by simp))
    (by simpa using ⟨sound.type.note, sound.description⟩)]
  rw [store, if_neg (by decide), if_pos rfl, addReturn_eq, putReturn, none]
  rfl

/-- A result is read as itself if and only if it has a type or nothing at all. -/
theorem reread_eq_iff {r : Typed} (sound : SoundReturn r) : reread r = r ↔ (r.type = [] → r.description = []) := by
  obtain ⟨type, description⟩ := r
  obtain ⟨word, note⟩ := sound
  dsimp only at word note ⊢
  constructor
  · rintro same rfl
    by_contra content
    have first : (Text.firstWord (spaced [[], description])).1 = [] := congrArg Typed.type same
    rw [spaced_cons_nil, spaced_singleton] at first
    exact firstWord_fst_ne_nil note.tight content first
  · intro typed
    have first : Text.firstWord (spaced [type, description]) = (type, spaced [description]) :=
      firstWord_spaced word (by simpa using note) fun none => by rw [spaced_singleton, typed none]
    unfold reread
    rw [first, spaced_singleton]
    dsimp only
    rw [Text.trim_of_tight note.tight]

theorem foldl_accumulate {d : Dict TagValue} {name : Text} (fresh : name ∉ d.keys) {v : TagValue}
    (sound : SoundValue v) : v.texts.foldl (fun d t => accumulate d name t) d = d.insert name v := by
  have again : ∀ v w, accumulate (d.insert name v) name w = d.insert name (TagValue.add v w) := by
    intro v w
    have found : (d.insert name v).get? name = some v := (Entries.get?_insert ..).trans (if_pos rfl)
    rw [accumulate, found]
    exact Dict.ext (Entries.insert_insert ..)
  have first : ∀ t, accumulate d name t = d.insert name (.one t) := by
    intro t
    rw [accumulate, show d.get? name = none from Entries.get?_of_not_mem fresh]
  have more : ∀ (ts us : List Text), us.foldl (fun d t => accumulate d name t) (d.insert name (.many ts))
      = d.insert name (.many (ts ++ us)) := by
    intro ts us
    induction us generalizing ts with
    | nil => simp
    | cons u us ih =>
      rw [List.foldl_cons, again, TagValue.add, ih]
      simp
  match v with
  | .one t => exact first t
  | .many ts =>
    obtain ⟨⟨t, u, us, rfl, content⟩, -⟩ := sound
    obtain ⟨c, t, rfl⟩ := List.exists_cons_of_ne_nil content
    rw [TagValue.texts, List.foldl_cons, List.foldl_cons, first, again]
    exact more [c :: t, u] us

theorem note_of_mem_texts {v : TagValue} (sound : SoundValue v) {t : Text} (member : t ∈ v.texts) : Note t := by
  match v with
  | .one u => exact (List.mem_singleton.mp member) ▸ sound
  | .many ts => exact sound.2 t member

/-- The texts of a tag give its value in the map that the name belongs to. -/
theorem foldl_bucketTexts (put : Dict TagValue → Block) {entry : Text × TagValue} (named : TagName entry.1)
    (stores : ∀ d t, store (put d) entry.1 t = put (accumulate d entry.1 t)) (sound : SoundValue entry.2)
    (d : Dict TagValue) (fresh : entry.1 ∉ d.keys) :
    (bucketTexts entry).foldl (applyTag "@") (put d) = put (d.insert entry.1 entry.2) := by
  have each : ∀ texts : List Text, (∀ t ∈ texts, Note t) → ∀ d,
      (texts.map fun t => tagText entry.1 [t]).foldl (applyTag "@") (put d)
        = put (texts.foldl (fun d t => accumulate d entry.1 t) d) := by
    intro texts notes
    induction texts with
    | nil => intro d; rfl
    | cons t rest ih =>
      intro d
      rw [List.forall_mem_cons] at notes
      rw [List.map_cons, List.foldl_cons, List.foldl_cons,
        applyTag_tagText (put d) named (by simpa using notes.1), spaced_singleton, stores, ih notes.2]
  rw [bucketTexts, each _ (fun t member => note_of_mem_texts sound member), foldl_accumulate fresh sound]

theorem store_known {name : Text} (known : name ∈ knownTags) (b : Block) (t : Text) :
    store b name t = { b with tags := accumulate b.tags name t } := by
  have apart : ∀ name ∈ knownTags, name ≠ "param".toList ∧ name ≠ "return".toList ∧ name ≠ "uses".toList := by decide
  obtain ⟨noParam, noReturn, noUses⟩ := apart name known
  rw [store, if_neg noParam, if_neg noReturn, if_neg noUses, if_pos (by simpa using known)]

theorem store_other {name : Text} (other : OtherName name) (b : Block) (t : Text) :
    store b name t = { b with others := accumulate b.others name t } := by
  rw [store, if_neg other.noParam, if_neg other.noReturn, if_neg other.noUses, if_neg (by simpa using other.unknown)]

section Parts

variable {b : Block} (stored : b.Stored) {start : Block}

include stored

theorem foldl_params (none : start.params = Dict.empty) :
    (b.params.entries.map paramText).foldl (applyTag "@") start = { start with params := b.params } := by
  have read := foldl_dict (fun d => { start with params := d }) (fun entry => [paramText entry])
    fun entry member d fresh => applyTag_paramText _ (stored.params entry member) fresh
  rwa [← none, ← List.map_eq_flatMap] at read

theorem foldl_returns (none : start.returns = none) :
    (b.returns.toList.map returnText).foldl (applyTag "@") start = { start with returns := b.returns.map reread } := by
  cases found : b.returns with
  | none =>
    obtain ⟨_, _, _, _, _, _, _⟩ := start
    cases none
    rfl
  | some r => exact applyTag_returnText start (stored.returns r found) none

theorem foldl_uses (none : start.uses = Dict.empty) :
    (b.uses.entries.map usesText).foldl (applyTag "@") start = { start with uses := b.uses } := by
  have read := foldl_dict (fun d => { start with uses := d }) (fun entry => [usesText entry])
    fun entry member d fresh => applyTag_usesText _ (stored.uses entry member) fresh
  rwa [← none, ← List.map_eq_flatMap] at read

theorem foldl_tags (none : start.tags = Dict.empty) :
    (b.tags.entries.flatMap bucketTexts).foldl (applyTag "@") start = { start with tags := b.tags } := by
  have read := foldl_dict (fun d => { start with tags := d }) bucketTexts fun entry member d fresh => by
    obtain ⟨known, sound⟩ := stored.tags entry member
    exact foldl_bucketTexts (fun d => { start with tags := d }) (tagName_builtIn _ (by simp [known]))
      (fun _ t => store_known known _ t) sound d fresh
  rwa [← none] at read

theorem foldl_others (none : start.others = Dict.empty) :
    (b.others.entries.flatMap bucketTexts).foldl (applyTag "@") start = { start with others := b.others } := by
  have read := foldl_dict (fun d => { start with others := d }) bucketTexts fun entry member d fresh => by
    obtain ⟨other, sound⟩ := stored.others entry member
    exact foldl_bucketTexts (fun d => { start with others := d }) other.tagName
      (fun _ t => store_other other _ t) sound d fresh
  rwa [← none] at read

/-- The texts of all tags give the maps of the block again, and its result as it is read from its own text. -/
theorem foldl_tagTexts (summary description : Text) :
    b.tagTexts.foldl (applyTag "@") { summary, description }
      = { b with summary, description, returns := b.returns.map reread } := by
  rw [tagTexts, List.foldl_append, List.foldl_append, List.foldl_append, List.foldl_append, foldl_params stored rfl,
    foldl_returns stored rfl, foldl_uses stored rfl, foldl_tags stored rfl, foldl_others stored rfl]

end Parts

theorem tagText_of_mem_tagTexts {b : Block} (stored : b.Stored) {t : Text} (member : t ∈ b.tagTexts) : TagText t := by
  have builtIn : ∀ name ∈ ("param".toList :: "return".toList :: "uses".toList :: knownTags), Note name :=
    fun name h => (tagName_builtIn name h).word.note
  simp only [tagTexts, List.mem_append, List.mem_map, List.mem_flatMap, Option.mem_toList] at member
  rcases member with ⟨entry, inside, rfl⟩ | ⟨r, inside, rfl⟩ | ⟨entry, inside, rfl⟩ | ⟨entry, inside, text⟩
    | ⟨entry, inside, text⟩
  · have sound := stored.params entry inside
    refine tagText_spaced ?_
    simpa using ⟨builtIn _ (by simp), sound.type.note, sound.name.note, sound.description⟩
  · have sound := stored.returns r inside
    refine tagText_spaced ?_
    simpa using ⟨builtIn _ (by simp), sound.type.note, sound.description⟩
  · have sound := stored.uses entry inside
    refine tagText_spaced ?_
    simpa using ⟨builtIn _ (by simp), sound.name.note, sound.description⟩
  · obtain ⟨u, inTexts, rfl⟩ := List.mem_map.mp text
    obtain ⟨known, sound⟩ := stored.tags entry inside
    refine tagText_spaced ?_
    simpa using ⟨builtIn _ (by simp [known]), note_of_mem_texts sound inTexts⟩
  · obtain ⟨u, inTexts, rfl⟩ := List.mem_map.mp text
    obtain ⟨other, sound⟩ := stored.others entry inside
    refine tagText_spaced ?_
    simpa using ⟨other.tagName.word.note, note_of_mem_texts sound inTexts⟩

end Again

end Block

end Marginalia
