import Marginalia.Proofs.Jumps

/-!
# What a listing lists

A listing has a section for the declarations before the first class, if any of them is listed, and a section for each
class. A section lists declarations that belong to its class in the order of their names in lower case. Of those with
the same name in lower case it lists the last one only: every declaration has its item if and only if no two that
belong to one class are named alike.
-/

namespace Marginalia.Page

open Markup

/-! ## Declarations by position -/

/-- A declaration with its anchor and its position. -/
abbrev Placed := (Declaration × Text) × Nat

namespace Placed

def kind (p : Placed) : Kind := p.1.1.kind

/-- The name by which a declaration is put in order. -/
def name (p : Placed) : Text := p.1.1.name.lower

def item (style : Style) (clickable : Bool) (p : Placed) : Text := listingItem style clickable p.1.1 p.1.2

end Placed

/-- The declarations with their anchors. -/
def anchored (declarations : List Declaration) : List (Declaration × Text) := declarations.zip (anchors declarations)

section Positions

variable (entries : List (Declaration × Text))

def classes : List Placed := entries.zipIdx.filter fun p => Placed.kind p = .classDecl

/-- Everything but namespaces and classes. -/
def functions : List Placed := entries.zipIdx.filter fun p => !(Placed.kind p).isContainer

/-- The last declaration of a kind. -/
def nearest (kind : Kind) : Option Placed := (entries.zipIdx.filter fun p => Placed.kind p = kind).getLast?

/-- The class that a position belongs to. -/
def ownerAt (i : Nat) : Option Placed := nearest (entries.take i) .classDecl

/-- Nothing, for what stands before the first class, and the classes. -/
def owners : List (Option Placed) := none :: (classes entries).map some

def membersOf (owner : Option Placed) : List Placed := (functions entries).filter fun p => ownerAt entries p.2 = owner

/-- The members of a list by name; of one name the last counts. -/
def byName (members : List Placed) : Dict Placed := Dict.ofList (members.map fun p => (p.name, p))

/-- No later member of a list has the same name. -/
def isLastNamed (members : List Placed) (p : Placed) : Bool :=
  members.all fun other => decide (other.name = p.name → other.2 ≤ p.2)

/-- The members that are the last of their names, in the order of their names. -/
def listedOf (owner : Option Placed) : List Placed :=
  ((membersOf entries owner).filter (isLastNamed (membersOf entries owner))).mergeSort fun a b => Text.le a.name b.name

/-- The text written before the name of a class that follows. -/
def spaceAfter (separator : Text) : Text :=
  match nearest entries .namespaceDecl with
  | some p => p.1.1.name ++ separator
  | none => []

/-- The class with the text written before its name. -/
def headOf (separator : Text) (owner : Option Placed) : Option (Text × Declaration) :=
  owner.map fun c => (spaceAfter (entries.take c.2) separator, c.1.1)

def groupOf (separator : Text) (owner : Option Placed) : Group :=
  ⟨headOf entries separator owner, (membersOf entries owner).map Prod.fst⟩

/-- The section of a class, or of what stands before the first class. -/
def sectionOf (style : Style) (clickable : Bool) (owner : Option Placed) : Text :=
  let listed := listedOf entries owner
  let list : Text :=
    if listed.isEmpty then []
    else "<ul>" ++ (listed.flatMap fun p => element "li" (p.item style clickable)) ++ "</ul>"
  match headOf entries style.separator owner with
  | some (space, d) =>
    headed "docfun" (style.label .classTitle ++ " " ++ space ++ d.name) (groupIntro style clickable d ++ list)
  | none => headed "docfun" (style.label .functions) list

/-- Every class has a section, and what stands before the first class has one if something of it is listed. -/
def sections : List (Option Placed) :=
  (if (listedOf entries none).isEmpty then [] else [none]) ++ (classes entries).map some

end Positions

theorem nearest_concat (before : List (Declaration × Text)) (entry : Declaration × Text) (kind : Kind) :
    nearest (before ++ [entry]) kind
      = if entry.1.kind = kind then some (entry, before.length) else nearest before kind := by
  have last : Placed.kind (entry, 0 + before.length) = entry.1.kind := rfl
  rw [nearest, List.zipIdx_append, List.filter_append, List.zipIdx_singleton, List.filter_singleton, last]
  by_cases same : entry.1.kind = kind
  · simp [same]
  · simp [same, nearest]

theorem lt_of_nearest {before : List (Declaration × Text)} {kind : Kind} {p : Placed}
    (found : nearest before kind = some p) : p.2 < before.length := by
  have inside := List.mem_of_mem_filter (List.mem_of_getLast? found)
  simpa using List.snd_lt_add_of_mem_zipIdx inside

/-- What comes after a declaration of the kind can only be nearer. -/
theorem exists_nearest_append (before after : List (Declaration × Text)) {entry : Declaration × Text} {kind : Kind}
    (same : entry.1.kind = kind) :
    ∃ p, nearest (before ++ entry :: after) kind = some p ∧ before.length ≤ p.2 := by
  induction after using List.reverseRecOn with
  | nil => exact ⟨(entry, before.length), by rw [nearest_concat, if_pos same], le_rfl⟩
  | append_singleton after last ih =>
    have moved : before ++ entry :: (after ++ [last]) = before ++ entry :: after ++ [last] := by simp
    rw [moved, nearest_concat]
    by_cases nearer : last.1.kind = kind
    · exact ⟨(last, (before ++ entry :: after).length), if_pos nearer, by simp⟩
    · rwa [if_neg nearer]

theorem mem_functions {entries : List (Declaration × Text)} {p : Placed} :
    p ∈ functions entries ↔ p ∈ entries.zipIdx ∧ p.kind.isContainer = false := by
  simp [functions]

theorem mem_membersOf {entries : List (Declaration × Text)} {owner : Option Placed} {p : Placed} :
    p ∈ membersOf entries owner ↔ p ∈ functions entries ∧ ownerAt entries p.2 = owner := by
  simp [membersOf]

theorem pairwise_zipIdx (entries : List (Declaration × Text)) : entries.zipIdx.Pairwise fun p q => p.2 < q.2 := by
  have positions : (entries.zipIdx.map Prod.snd).Pairwise (· < ·) := by
    rw [List.zipIdx_map_snd]
    exact List.pairwise_lt_range'
  exact List.pairwise_map.mp positions

/-! ## The groups -/

section Groups

variable (separator : Text) (before rest : List (Declaration × Text))

theorem ownerAt_append {i : Nat} (early : i ≤ before.length) : ownerAt (before ++ rest) i = ownerAt before i := by
  rw [ownerAt, List.take_append_of_le_length early, ownerAt]

/-- The members of a group that come later. -/
def laterMembers (owner : Option Placed) : List Placed :=
  (rest.zipIdx before.length).filter fun p =>
    !(Placed.kind p).isContainer && decide (ownerAt (before ++ rest) p.2 = owner)

theorem membersOf_append (owner : Option Placed) :
    membersOf (before ++ rest) owner = membersOf before owner ++ laterMembers before rest owner := by
  have early : ∀ p ∈ functions before,
      decide (ownerAt (before ++ rest) p.2 = owner) = decide (ownerAt before p.2 = owner) := by
    intro p inside
    have bound := List.snd_lt_add_of_mem_zipIdx (List.mem_of_mem_filter inside)
    rw [ownerAt_append before rest (by omega)]
  rw [membersOf, functions, List.zipIdx_append, List.filter_append, List.filter_append, ← functions,
    List.filter_congr early, ← membersOf, List.filter_filter, Nat.zero_add, laterMembers]
  congr 2
  funext p
  exact Bool.and_comm _ _

/-- A declaration that is no class belongs to the last class before it. -/
theorem laterMembers_singleton (entry : Declaration × Text) : laterMembers before [entry] (nearest before .classDecl)
    = if entry.1.kind.isContainer then [] else [(entry, before.length)] := by
  have owner : ownerAt (before ++ [entry]) before.length = nearest before .classDecl := by
    rw [ownerAt, List.take_left]
  have kind : Placed.kind (entry, before.length) = entry.1.kind := rfl
  rw [laterMembers, List.zipIdx_singleton, List.filter_singleton, kind, owner, decide_eq_true rfl, Bool.and_true]
  cases entry.1.kind.isContainer <;> rfl

/-- Nothing from the next class on belongs to the last class before it. -/
theorem laterMembers_class {entry : Declaration × Text} (opening : entry.1.kind = .classDecl) :
    laterMembers before (entry :: rest) (nearest before .classDecl) = [] := by
  refine List.filter_eq_nil_iff.mpr fun p inside owned => ?_
  obtain ⟨single, owner⟩ := Bool.and_eq_true_iff.mp owned
  rw [List.zipIdx_cons] at inside
  rcases List.mem_cons.mp inside with rfl | later
  · have kind : Placed.kind (entry, before.length) = .classDecl := opening
    rw [kind] at single
    cases single
  · -- the class of a later position is not before the new one
    have bound := List.le_snd_of_mem_zipIdx later
    obtain ⟨k, after⟩ : ∃ k, p.2 = before.length + (k + 1) := ⟨p.2 - before.length - 1, by omega⟩
    have cut : (before ++ entry :: rest).take p.2 = before ++ entry :: rest.take k := by
      rw [after, List.take_length_add_append, List.take_succ_cons]
    obtain ⟨c, found, near⟩ := exists_nearest_append before (rest.take k) opening
    have same : nearest before .classDecl = some c := by
      rw [← of_decide_eq_true owner, ownerAt, cut, found]
    have early := lt_of_nearest same
    omega

theorem headOf_append : headOf (before ++ rest) separator (nearest before .classDecl)
    = headOf before separator (nearest before .classDecl) := by
  cases found : nearest before .classDecl with
  | none => rfl
  | some c =>
    have early := (lt_of_nearest found).le
    rw [headOf, headOf, Option.map_some, Option.map_some, List.take_append_of_le_length early]

/-- The group of the last class, its members last one first. -/
def begun : Group :=
  ⟨headOf before separator (nearest before .classDecl),
    ((membersOf before (nearest before .classDecl)).map Prod.fst).reverse⟩

theorem begun_eq_of_not_class {entry : Declaration × Text} (member : entry.1.kind ≠ .classDecl) :
    begun separator (before ++ [entry])
      = ⟨(begun separator before).head, (if entry.1.kind.isContainer then [] else [entry])
        ++ (begun separator before).members⟩ := by
  have same : nearest (before ++ [entry]) .classDecl = nearest before .classDecl := by
    rw [nearest_concat, if_neg member]
  rw [begun, same, headOf_append, membersOf_append, laterMembers_singleton, List.map_append, List.reverse_append, begun]
  cases entry.1.kind.isContainer <;> rfl

theorem begun_eq_of_class {entry : Declaration × Text} (opening : entry.1.kind = .classDecl) :
    begun separator (before ++ [entry]) = ⟨some (spaceAfter before separator, entry.1), []⟩ := by
  have last : nearest (before ++ [entry]) .classDecl = some (entry, before.length) := by
    rw [nearest_concat, if_pos opening]
  have none : membersOf (before ++ [entry]) (some (entry, before.length)) = [] := by
    refine List.filter_eq_nil_iff.mpr fun p inside owned => ?_
    -- the class of a position stands before it, and nothing stands after the new class
    obtain ⟨there, single⟩ := mem_functions.mp inside
    have early := lt_of_nearest (of_decide_eq_true owned)
    have bound := List.snd_lt_add_of_mem_zipIdx there
    simp only [List.length_take, List.length_append, List.length_singleton] at early bound
    omega
  rw [begun, last, none, headOf, Option.map_some, List.take_left]
  rfl

theorem spaceAfter_concat (entry : Declaration × Text) : spaceAfter (before ++ [entry]) separator
    = if entry.1.kind = .namespaceDecl then entry.1.name ++ separator else spaceAfter before separator := by
  by_cases opening : entry.1.kind = .namespaceDecl
  · rw [spaceAfter, nearest_concat, if_pos opening, if_pos opening]
  · rw [spaceAfter, nearest_concat, if_neg opening, if_neg opening, spaceAfter]

/-- A class ends the group before it. -/
theorem groupOf_append_class {entry : Declaration × Text} (opening : entry.1.kind = .classDecl) :
    groupOf (before ++ entry :: rest) separator (nearest before .classDecl)
      = { begun separator before with members := (begun separator before).members.reverse } := by
  rw [groupOf, headOf_append, membersOf_append, laterMembers_class before rest opening, List.append_nil, begun,
    List.reverse_reverse]

theorem groupsFrom_cons (current : Group) (space : Text) (entry : Declaration × Text) :
    groupsFrom separator current space (entry :: rest)
      = if entry.1.kind = .classDecl then
          { current with members := current.members.reverse }
            :: groupsFrom separator ⟨some (space, entry.1), []⟩ space rest
        else groupsFrom separator
          ⟨current.head, (if entry.1.kind.isContainer then [] else [entry]) ++ current.members⟩
          (if entry.1.kind = .namespaceDecl then entry.1.name ++ separator else space) rest := by
  obtain ⟨d, anchor⟩ := entry
  rw [groupsFrom]
  cases d.kind <;> rfl

/-- The groups that are still to come when the declarations before are read. -/
theorem groupsFrom_begun : groupsFrom separator (begun separator before) (spaceAfter before separator) rest
    = (nearest before .classDecl
        :: ((rest.zipIdx before.length).filter fun p => Placed.kind p = .classDecl).map some).map
      (groupOf (before ++ rest) separator) := by
  induction rest generalizing before with
  | nil =>
    have last : groupOf before separator (nearest before .classDecl)
        = { begun separator before with members := (begun separator before).members.reverse } := by
      rw [groupOf, begun, List.reverse_reverse]
    rw [groupsFrom, List.append_nil, ← last]
    rfl
  | cons entry rest ih =>
    have moved : before ++ entry :: rest = before ++ [entry] ++ rest := by simp
    have shift : (before ++ [entry]).length = before.length + 1 := by simp
    have later := ih (before ++ [entry])
    have kind : Placed.kind (entry, before.length) = entry.1.kind := rfl
    rw [nearest_concat, spaceAfter_concat, ← moved, shift] at later
    rw [groupsFrom_cons, List.zipIdx_cons, List.filter_cons, kind]
    by_cases opening : entry.1.kind = .classDecl
    · have named : ¬ entry.1.kind = .namespaceDecl := by
        rw [opening]
        exact Kind.noConfusion
      rw [if_pos opening, if_neg named, begun_eq_of_class separator before opening] at later
      rw [if_pos opening, if_pos (decide_eq_true opening), later, List.map_cons, List.map_cons, List.map_cons,
        List.map_cons, groupOf_append_class separator before rest opening]
    · have skipped : ¬ decide (entry.1.kind = .classDecl) = true := by simpa using opening
      rw [if_neg opening, begun_eq_of_not_class separator before opening] at later
      rw [if_neg opening, if_neg skipped, later]

end Groups

theorem groups_eq (separator : Text) (declarations : List Declaration) : groups separator declarations
    = (owners (anchored declarations)).map (groupOf (anchored declarations) separator) :=
  groupsFrom_begun separator [] (anchored declarations)

/-! ## The items -/

theorem isLastNamed_iff {members : List Placed} {p : Placed} :
    isLastNamed members p = true ↔ ∀ q ∈ members, q.name = p.name → q.2 ≤ p.2 := by
  simp only [isLastNamed, List.all_eq_true, decide_eq_true_iff]

/-- Put in under their names one after the other, the last of each name is kept. -/
theorem mem_byName {members : List Placed} (ordered : members.Pairwise fun p q => p.2 < q.2) {name : Text}
    {p : Placed} : (name, p) ∈ (byName members).entries
      ↔ name = p.name ∧ p ∈ members ∧ isLastNamed members p = true := by
  rw [← Entries.get?_eq_some_iff (byName _).nodup, isLastNamed_iff]
  induction members using List.reverseRecOn with
  | nil => simp [byName, Dict.ofList, Entries.insertAll, Entries.get?]
  | append_singleton front last ih =>
    have put : (byName (front ++ [last])).entries = (byName front).entries.insert last.name last := by
      rw [byName, List.map_append]
      exact List.foldl_append
    obtain ⟨before, -, after⟩ := List.pairwise_append.mp ordered
    have earlier : ∀ q ∈ front, q.2 < last.2 := fun q inside => after q inside last List.mem_cons_self
    rw [put, Entries.get?_insert]
    simp only [List.mem_append, List.mem_singleton]
    by_cases same : last.name = name
    · rw [if_pos same, Option.some.injEq]
      constructor
      · rintro rfl
        refine ⟨same.symm, .inr rfl, fun q inside _ => ?_⟩
        rcases inside with inside | rfl
        · exact (earlier q inside).le
        · exact le_rfl
      · rintro ⟨rfl, inside | rfl, greatest⟩
        · have below := greatest last (.inr rfl) same
          have above := earlier p inside
          omega
        · rfl
    · rw [if_neg same, ih before]
      constructor
      · rintro ⟨rfl, inside, greatest⟩
        refine ⟨rfl, .inl inside, fun q there alike => ?_⟩
        rcases there with there | rfl
        · exact greatest q there alike
        · exact absurd alike same
      · rintro ⟨rfl, inside | rfl, greatest⟩
        · exact ⟨rfl, inside, fun q there => greatest q (.inl there)⟩
        · exact absurd rfl same

section Items

variable (entries : List (Declaration × Text)) (owner : Option Placed)

theorem pairwise_functions : (functions entries).Pairwise fun p q => p.2 < q.2 := (pairwise_zipIdx entries).filter _

theorem nodup_functions : (functions entries).Nodup :=
  (pairwise_functions entries).imp fun less same => by simp [same] at less

theorem pairwise_membersOf : (membersOf entries owner).Pairwise fun p q => p.2 < q.2 :=
  (pairwise_functions entries).filter _

theorem mem_listedOf {p : Placed} : p ∈ listedOf entries owner
    ↔ p ∈ membersOf entries owner ∧ ∀ q ∈ membersOf entries owner, q.name = p.name → q.2 ≤ p.2 := by
  rw [listedOf, List.mem_mergeSort, List.mem_filter, isLastNamed_iff]

theorem map_listedOf : (listedOf entries owner).map (fun p => (p.name, p))
    = (byName (membersOf entries owner)).entries.sorted := by
  have once : (membersOf entries owner).Nodup := (nodup_functions entries).filter _
  have perm : (byName (membersOf entries owner)).entries.Perm
      (((membersOf entries owner).filter (isLastNamed (membersOf entries owner))).map fun p => (p.name, p)) := by
    refine (List.perm_ext_iff_of_nodup ?_ ?_).mpr ?_
    · exact List.Nodup.of_map Prod.fst (byName _).nodup
    · exact (once.filter _).map fun p q same => (Prod.mk.inj same).2
    · rintro ⟨name, p⟩
      rw [mem_byName (pairwise_membersOf entries owner), ← List.mem_filter, List.mem_map]
      constructor
      · rintro ⟨rfl, inside⟩
        exact ⟨p, inside, rfl⟩
      · rintro ⟨q, inside, same⟩
        cases same
        exact ⟨rfl, inside⟩
  rw [Entries.sorted_of_perm (byName _).nodup perm]
  exact List.map_mergeSort fun _ _ _ _ => rfl

/-- The items stand in the order of their names, none of which comes twice. -/
theorem pairwise_listedOf :
    (listedOf entries owner).Pairwise fun p q => Text.le p.name q.name = true ∧ p.name ≠ q.name := by
  have inOrder := Entries.sorted_pairwise (byName (membersOf entries owner)).entries
  have distinct := Entries.keys_sorted_nodup (byName (membersOf entries owner)).nodup
  rw [← map_listedOf] at inOrder distinct
  rw [Entries.keys, List.map_map] at distinct
  exact (List.pairwise_map.mp inOrder).and (List.pairwise_map.mp distinct)

theorem nodup_listedOf : (listedOf entries owner).Nodup :=
  (pairwise_listedOf entries owner).imp fun apart same => apart.2 (congrArg Placed.name same)

theorem listed_groupOf (separator : Text) :
    (groupOf entries separator owner).listed = (listedOf entries owner).map Prod.fst := by
  have pairs : ((groupOf entries separator owner).members.map fun entry => (entry.1.name.lower, entry))
      = Entries.mapValues Prod.fst ((membersOf entries owner).map fun p : Placed => (p.name, p)) := by
    rw [groupOf, Entries.mapValues, List.map_map, List.map_map]
    rfl
  have kept : (Dict.ofList ((groupOf entries separator owner).members.map fun entry => (entry.1.name.lower, entry))).entries
      = Entries.mapValues Prod.fst (byName (membersOf entries owner)).entries := by
    rw [pairs]
    exact Entries.insertAll_mapValues Prod.fst [] _
  rw [Group.listed, kept, Entries.sorted_mapValues, ← map_listedOf, Entries.mapValues, List.map_map, List.map_map]
  rfl

theorem groupSection_groupOf (style : Style) (clickable : Bool) :
    groupSection style clickable (groupOf entries style.separator owner)
      = if owner = none ∧ (listedOf entries owner).isEmpty then none
        else some (sectionOf entries style clickable owner) := by
  have empty : (groupItems style clickable (groupOf entries style.separator owner)).isEmpty
      = (listedOf entries owner).isEmpty := by
    rw [isEmpty_groupItems, listed_groupOf, List.isEmpty_map]
  have items : (sortedItems (groupItems style clickable (groupOf entries style.separator owner))).flatMap (element "li")
      = (listedOf entries owner).flatMap fun p => element "li" (p.item style clickable) := by
    rw [sortedItems_groupItems, listed_groupOf, List.map_map, List.flatMap_map]
    rfl
  unfold groupSection sectionOf
  dsimp only
  rw [empty, items]
  cases owner with
  | none => cases (listedOf entries none).isEmpty <;> rfl
  | some c =>
    have headed : ¬ (some c = none ∧ (listedOf entries (some c)).isEmpty = true) := by simp
    rw [if_neg headed]
    rfl

end Items

theorem listing_eq (style : Style) (clickable : Bool) (declarations : List Declaration) :
    listing style clickable declarations
      = (sections (anchored declarations)).map (sectionOf (anchored declarations) style clickable) := by
  have each : ∀ c : Placed, groupSection style clickable (groupOf (anchored declarations) style.separator (some c))
      = some (sectionOf (anchored declarations) style clickable (some c)) := by
    intro c
    rw [groupSection_groupOf, if_neg fun both => Option.some_ne_none c both.1]
  have first := groupSection_groupOf (anchored declarations) none style clickable
  rw [listing, groups_eq, owners, List.map_cons, List.map_map, List.filterMap_cons, List.filterMap_map, first, sections]
  have later : (classes (anchored declarations)).filterMap (groupSection style clickable
      ∘ groupOf (anchored declarations) style.separator ∘ some)
      = ((classes (anchored declarations)).map some).map (sectionOf (anchored declarations) style clickable) := by
    rw [List.map_map, ← List.filterMap_eq_map]
    exact List.filterMap_congr fun c _ => each c
  by_cases nothing : (listedOf (anchored declarations) none).isEmpty = true
  · rw [if_pos ⟨rfl, nothing⟩, if_pos nothing, List.nil_append, later]
  · rw [if_neg fun both => nothing both.2, if_neg nothing, List.map_append, later]
    rfl

/-! ## Every declaration once -/

theorem ownerAt_mem_owners (entries : List (Declaration × Text)) (i : Nat) : ownerAt entries i ∈ owners entries := by
  cases found : ownerAt entries i with
  | none => exact List.mem_cons_self
  | some c =>
    obtain ⟨before, opening⟩ := List.mem_filter.mp (List.mem_of_getLast? found)
    have inside : c ∈ entries.zipIdx := by
      rw [← List.take_append_drop i entries, List.zipIdx_append]
      exact List.mem_append_left _ before
    exact List.mem_cons_of_mem _ (List.mem_map_of_mem (List.mem_filter.mpr ⟨inside, opening⟩))

theorem nodup_owners (entries : List (Declaration × Text)) : (owners entries).Nodup := by
  have once : (classes entries).Nodup :=
    ((pairwise_zipIdx entries).filter _).imp fun less same => by simp [same] at less
  refine List.nodup_cons.mpr ⟨?_, once.map (Option.some_injective _)⟩
  simp

/-- Every declaration is listed once if and only if no two that belong to one class have the same name. -/
theorem perm_functions_iff (entries : List (Declaration × Text)) :
    ((owners entries).flatMap (listedOf entries)).Perm (functions entries)
      ↔ ∀ p ∈ functions entries, ∀ q ∈ functions entries,
        ownerAt entries p.2 = ownerAt entries q.2 → p.name = q.name → p = q := by
  have listed : ∀ {p : Placed} {owner}, p ∈ listedOf entries owner →
      p ∈ functions entries ∧ ownerAt entries p.2 = owner :=
    fun inside => mem_membersOf.mp ((mem_listedOf entries _).mp inside).1
  constructor
  · intro perm p first q second together alike
    -- both are listed, each of them as the last of the name
    have last : ∀ p ∈ functions entries, ∀ q ∈ functions entries, ownerAt entries p.2 = ownerAt entries q.2 →
        p.name = q.name → q.2 ≤ p.2 := by
      intro p first q second together alike
      obtain ⟨owner, -, inside⟩ := List.mem_flatMap.mp (perm.mem_iff.mpr first)
      obtain rfl := (listed inside).2
      exact ((mem_listedOf entries _).mp inside).2 q (mem_membersOf.mpr ⟨second, together.symm⟩) alike.symm
    have position : p.2 = q.2 :=
      Nat.le_antisymm (last q second p first together.symm alike.symm) (last p first q second together alike)
    have there := List.mem_zipIdx_iff_getElem?.mp (mem_functions.mp first).1
    have thereToo := List.mem_zipIdx_iff_getElem?.mp (mem_functions.mp second).1
    rw [position, thereToo] at there
    exact Prod.ext (Option.some.inj there).symm position
  · intro distinct
    refine (List.perm_ext_iff_of_nodup ?_ (nodup_functions entries)).mpr fun p => ?_
    · refine List.nodup_flatMap.mpr ⟨fun owner _ => nodup_listedOf entries owner, ?_⟩
      refine (nodup_owners entries).imp fun different p first second => different ?_
      exact (listed first).2.symm.trans (listed second).2
    · constructor
      · intro inside
        obtain ⟨owner, -, found⟩ := List.mem_flatMap.mp inside
        exact (listed found).1
      · intro inside
        refine List.mem_flatMap.mpr ⟨ownerAt entries p.2, ownerAt_mem_owners entries p.2, ?_⟩
        refine (mem_listedOf entries _).mpr ⟨mem_membersOf.mpr ⟨inside, rfl⟩, fun q member alike => ?_⟩
        obtain ⟨there, together⟩ := mem_membersOf.mp member
        rw [distinct q there p inside together alike]

/-- The listing of every list of declarations. It has its sections in the order of the source. A section has as its
    items, in the order of the names, those declarations of its class that are the last of their names. All of them
    have items, one for each, if and only if no two that belong to one class have the same name. -/
theorem listing_sections (style : Style) (clickable : Bool) (declarations : List Declaration) :
    (anchored declarations).map Prod.fst = declarations
    ∧ listing style clickable declarations
      = (sections (anchored declarations)).map (sectionOf (anchored declarations) style clickable)
    ∧ (∀ owner, (listedOf (anchored declarations) owner).Pairwise fun p q =>
        Text.le p.name q.name = true ∧ p.name ≠ q.name)
    ∧ (∀ owner p, p ∈ listedOf (anchored declarations) owner
      ↔ p ∈ membersOf (anchored declarations) owner
        ∧ ∀ q ∈ membersOf (anchored declarations) owner, q.name = p.name → q.2 ≤ p.2)
    ∧ (((owners (anchored declarations)).flatMap (listedOf (anchored declarations))).Perm
        (functions (anchored declarations))
      ↔ ∀ p ∈ functions (anchored declarations), ∀ q ∈ functions (anchored declarations),
        ownerAt (anchored declarations) p.2 = ownerAt (anchored declarations) q.2 → p.name = q.name → p = q) := by
  refine ⟨List.map_fst_zip (length_anchors declarations).ge, listing_eq style clickable declarations, ?_, ?_, ?_⟩
  · exact pairwise_listedOf (anchored declarations)
  · exact fun owner p => mem_listedOf (anchored declarations) owner
  · exact perm_functions_iff (anchored declarations)

/-- Two functions whose names differ in case only. -/
def namesakes : List Declaration :=
  [{ signature := { kind := .function, keyword := "function", name := "f" } },
    { signature := { kind := .function, keyword := "function", name := "F" } }]

/-- Only the second of them is listed. -/
theorem listing_sections_namesakes :
    ¬ ((owners (anchored namesakes)).flatMap (listedOf (anchored namesakes))).Perm (functions (anchored namesakes))
    ∧ ∀ style : Style, listing style false namesakes = [headed "docfun" (style.label .functions)
        "<ul><li><a href=\"#f-2\"><b>F</b></a></li></ul>"] := by
  have both : functions (anchored namesakes) = (anchored namesakes).zipIdx := by decide +kernel
  have kept : listedOf (anchored namesakes) none = [(anchored namesakes).zipIdx[1]] := by
    have last : (membersOf (anchored namesakes) none).filter (isLastNamed (membersOf (anchored namesakes) none))
        = [(anchored namesakes).zipIdx[1]] := by decide +kernel
    rw [listedOf, last, List.mergeSort_singleton]
  have single : owners (anchored namesakes) = [none] := by decide +kernel
  constructor
  · intro perm
    have lengths := perm.length_eq
    rw [single, List.flatMap_singleton, kept, both] at lengths
    revert lengths
    decide +kernel
  · intro style
    have only : sections (anchored namesakes) = [none] := by
      rw [sections, kept]
      decide +kernel
    rw [listing_eq, only, List.map_singleton, sectionOf, kept]
    rfl

end Marginalia.Page
