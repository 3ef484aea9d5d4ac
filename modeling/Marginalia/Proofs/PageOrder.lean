import Marginalia.Page.Render
import Marginalia.Proofs.Escape
import Marginalia.Proofs.Stored
import Marginalia.Proofs.Text

/-!
# The order of maps on a page

A page shows the parameters of a block and the modules it uses in the order of their maps, and nothing else on it
depends on the order of a map. So a document with its maps in the order of their keys has the same page exactly if
the blocks that the page shows have their parameters in that order and list their modules in the same way.
-/

namespace Marginalia

/-! ## Texts that are the same under a condition -/

/-- Two texts of one length that are the same exactly if something holds. -/
structure SameIf (c : Prop) (s t : Text) : Prop where
  length : s.length = t.length
  iff : s = t ↔ c

/-- Two lists of texts, position by position of one length, that are the same exactly if something holds. -/
structure SameParts (c : Prop) (ss ts : List Text) : Prop where
  lengths : List.Forall₂ (fun s t => s.length = t.length) ss ts
  iff : ss = ts ↔ c

namespace SameIf

variable {c c' : Prop} {s t s' t' : Text}

theorem refl (s : Text) : SameIf True s s := ⟨rfl, by simp⟩

theorem append (first : SameIf c s t) (second : SameIf c' s' t') : SameIf (c ∧ c') (s ++ s') (t ++ t') := by
  refine ⟨by simp [first.length, second.length], ?_⟩
  rw [← first.iff, ← second.iff]
  constructor
  · intro same
    exact List.append_inj same first.length
  · rintro ⟨rfl, rfl⟩
    rfl

theorem before (start : Text) (rest : SameIf c s t) : SameIf c (start ++ s) (start ++ t) := by
  simpa using (refl start).append rest

theorem after (rest : SameIf c s t) (stop : Text) : SameIf c (s ++ stop) (t ++ stop) := by
  simpa using rest.append (refl stop)

theorem congr (same : SameIf c s t) (iff : c ↔ c') : SameIf c' s t := ⟨same.length, same.iff.trans iff⟩

theorem headed (cssClass title : Text) (content : SameIf c s t) :
    SameIf c (Page.headed cssClass title s) (Page.headed cssClass title t) :=
  (content.before _).after _

end SameIf

namespace SameParts

variable {c c' : Prop} {s t : Text} {ss ts ss' ts' : List Text}

theorem refl (ss : List Text) : SameParts True ss ss := ⟨List.forall₂_same.mpr fun _ _ => rfl, by simp⟩

theorem cons (first : SameIf c s t) (rest : SameParts c' ss ts) : SameParts (c ∧ c') (s :: ss) (t :: ts) := by
  refine ⟨.cons first.length rest.lengths, ?_⟩
  rw [List.cons.injEq, first.iff, rest.iff]

theorem single (only : SameIf c s t) : SameParts c [s] [t] := by
  simpa using cons only (refl [])

theorem append (first : SameParts c ss ts) (second : SameParts c' ss' ts') :
    SameParts (c ∧ c') (ss ++ ss') (ts ++ ts') := by
  refine ⟨List.rel_append first.lengths second.lengths, ?_⟩
  rw [← first.iff, ← second.iff]
  constructor
  · intro same
    exact List.append_inj same first.lengths.length_eq
  · rintro ⟨rfl, rfl⟩
    rfl

theorem before (start : List Text) (rest : SameParts c ss ts) : SameParts c (start ++ ss) (start ++ ts) := by
  simpa using (refl start).append rest

theorem after (rest : SameParts c ss ts) (stop : List Text) : SameParts c (ss ++ stop) (ts ++ stop) := by
  simpa using rest.append (refl stop)

theorem congr (same : SameParts c ss ts) (iff : c ↔ c') : SameParts c' ss ts := ⟨same.lengths, same.iff.trans iff⟩

theorem join (separator : Text) (parts : SameParts c ss ts) :
    SameIf c (Text.join separator ss) (Text.join separator ts) := by
  have step : SameIf (ss = ts) (Text.join separator ss) (Text.join separator ts) := by
    have lengths := parts.lengths
    clear parts
    induction lengths with
    | nil => exact ⟨rfl, by simp⟩
    | @cons s t ss ts first rest ih =>
      cases rest with
      | nil =>
        rw [Text.join_singleton, Text.join_singleton]
        exact ⟨first, by simp⟩
      | @cons s' t' ss ts second rest =>
        rw [Text.join_cons_cons, Text.join_cons_cons]
        have head : SameIf (s = t) s t := ⟨first, Iff.rfl⟩
        exact (head.append (ih.before separator)).congr (by simp)
  exact step.congr parts.iff

/-- Leaving out the empty texts of two such lists tells as much. -/
theorem filter (parts : SameParts c ss ts) :
    SameParts c (ss.filter (!·.isEmpty)) (ts.filter (!·.isEmpty)) := by
  have step : SameParts (ss = ts) (ss.filter (!·.isEmpty)) (ts.filter (!·.isEmpty)) := by
    have lengths := parts.lengths
    clear parts
    induction lengths with
    | nil => exact ⟨.nil, by simp⟩
    | @cons s t ss ts first rest ih =>
      have head : SameIf (s = t) s t := ⟨first, Iff.rfl⟩
      cases s with
      | nil =>
        obtain rfl := List.length_eq_zero_iff.mp first.symm
        exact ih.congr (by simp)
      | cons a s =>
        cases t with
        | nil => cases first
        | cons b t => exact (cons head ih).congr (by simp)
  exact step.congr parts.iff

end SameParts

/-! ## Reading the order off a table -/

theorem Text.join_concat (separator : Text) (parts : List Text) (last : Text) :
    join separator (parts ++ [last]) = parts.flatMap (· ++ separator) ++ last := by
  induction parts with
  | nil => simp [join_singleton]
  | cons part parts ih =>
    cases parts with
    | nil => simp [join_cons_cons, join_singleton]
    | cons second parts =>
      rw [List.cons_append, List.cons_append, join_cons_cons, ← List.cons_append, ih]
      simp only [List.flatMap_cons, List.append_assoc]

/-- Pieces that tell what they are made from tell the order in which they stand. -/
theorem eq_of_flatMap_eq {α : Type} {f : α → Text} {xs ys : List α} {rest : Text} (count : xs.length = ys.length)
    (tells : ∀ x ∈ xs, ∀ y ∈ ys, ∀ s t, f x ++ s = f y ++ t → x = y)
    (same : xs.flatMap f ++ rest = ys.flatMap f ++ rest) : xs = ys := by
  induction xs generalizing ys with
  | nil => exact (List.length_eq_zero_iff.mp count.symm).symm
  | cons x xs ih =>
    cases ys with
    | nil => cases count
    | cons y ys =>
      rw [List.flatMap_cons, List.flatMap_cons, List.append_assoc, List.append_assoc] at same
      obtain rfl := tells x List.mem_cons_self y List.mem_cons_self _ _ same
      rw [ih (Nat.succ.inj count) (fun a ha b hb => tells a (.tail _ ha) b (.tail _ hb))
        (List.append_cancel_left same)]

theorem Dict.isEmpty_sorted {α : Type} (d : Dict α) : d.sorted.isEmpty = d.isEmpty := by
  have perm := Entries.sorted_perm d.entries
  rw [Dict.isEmpty, Dict.isEmpty, Bool.eq_iff_iff, List.isEmpty_iff, List.isEmpty_iff]
  constructor
  · intro none
    exact List.nil_perm.mp (none ▸ perm)
  · intro none
    exact List.perm_nil.mp (none ▸ perm)

theorem Dict.sorted_eq_iff {α : Type} (d : Dict α) : d.sorted = d ↔ d.entries.sorted = d.entries := by
  constructor
  · exact congrArg Dict.entries
  · intro same
    obtain ⟨entries, nodup⟩ := d
    simp only [Dict.sorted, Dict.mk.injEq]
    exact same

namespace Page

open Markup

/-! ## Details of a block -/

/-- The text of one parameter in the table. -/
def paramRow (style : Style) (entry : Text × Typed) : Text :=
  row "td" ["<b>" ++ escape entry.1 ++ "</b>", typeCode entry.2.type, phrase style entry.2.description]

theorem paramRow_append (style : Style) (entry : Text × Typed) (rest : Text) :
    ∃ more, paramRow style entry ++ rest = "<tr><td><b>".toList ++ (escape entry.1 ++ '<' :: more) := by
  exact ⟨_, by simp [paramRow, row, element, startTag, endTag, List.append_assoc]; rfl⟩

/-- The table of parameters before its rows. -/
def paramsHead : Text := [tableTag "docparams", row "th" ["Name", "Type", "Description"]].flatMap (· ++ ['\n'])

theorem table_params (style : Style) {entries : Entries Typed} (some : entries ≠ []) :
    table ["Name", "Type", "Description"]
        (entries.map fun entry =>
          ["<b>" ++ escape entry.1 ++ "</b>", typeCode entry.2.type, phrase style entry.2.description]) "docparams"
      = paramsHead ++ (entries.flatMap (fun entry => paramRow style entry ++ ['\n']) ++ endTag "table") := by
  rw [table, if_neg (by simpa using some), Text.join_concat, List.flatMap_append, List.map_map, List.flatMap_map,
    List.append_assoc]
  rfl

/-- The rows of a table are the same exactly if the parameters are in the order of their names. -/
theorem sameIf_rows (style : Style) (params : Dict Typed) (rest : Text) :
    SameIf (params.sorted = params)
      (params.entries.flatMap (fun entry => paramRow style entry ++ ['\n']) ++ rest)
      (params.sorted.entries.flatMap (fun entry => paramRow style entry ++ ['\n']) ++ rest) := by
  have perm : params.sorted.entries.Perm params.entries := Entries.sorted_perm params.entries
  refine ⟨?_, ?_, ?_⟩
  · have lengths := (perm.flatMap_right fun entry => paramRow style entry ++ ['\n']).length_eq
    rw [List.length_append, List.length_append, lengths]
  · intro same
    refine params.sorted_eq_iff.mpr (eq_of_flatMap_eq perm.length_eq ?_ same.symm)
    intro x inside y member s t pieces
    -- a row starts with its name, and a map has each name once
    obtain ⟨more, first⟩ := paramRow_append style x (['\n'] ++ s)
    obtain ⟨further, second⟩ := paramRow_append style y (['\n'] ++ t)
    rw [List.append_assoc, List.append_assoc, first, second] at pieces
    have names := escape_append_inj (List.append_cancel_left pieces)
    exact List.inj_on_of_nodup_map params.nodup (perm.mem_iff.mp inside) member names
  · intro same
    rw [same]

/-- The table of parameters is the same exactly if they are in the order of their names. -/
theorem sameParts_params (style : Style) (b : Block) :
    SameParts (b.params.sorted = b.params) (paramsSection style b) (paramsSection style (b.ordered true)) := by
  have order : (b.ordered true).params = b.params.sorted := rfl
  unfold paramsSection
  rw [order, Dict.isEmpty_sorted]
  split
  · next none =>
    refine (SameParts.refl []).congr ⟨fun _ => ?_, fun _ => trivial⟩
    rw [Dict.sorted_eq_iff, List.isEmpty_iff.mp none]
    exact List.mergeSort_nil
  · next some =>
    have params : b.params.entries ≠ [] := fun none => some (List.isEmpty_iff.mpr none)
    have sorted : b.params.sorted.entries ≠ [] := fun none => some (b.params.isEmpty_sorted ▸ List.isEmpty_iff.mpr none)
    dsimp only
    rw [table_params style params, table_params style sorted]
    exact .single (.headed _ _ (((sameIf_rows style b.params _).before _ |>.before _).after _))

/-- The list of modules is as long in the order of their names. -/
theorem sameParts_uses (style : Style) (b : Block) :
    SameParts (usesSection style (b.ordered true) = usesSection style b) (usesSection style b)
      (usesSection style (b.ordered true)) := by
  refine ⟨?_, eq_comm⟩
  have order : (b.ordered true).uses = b.uses.sorted := rfl
  unfold usesSection
  rw [order, Dict.isEmpty_sorted]
  split
  · exact .nil
  · refine .cons ?_ .nil
    have perm : b.uses.sorted.entries.Perm b.uses.entries := Entries.sorted_perm b.uses.entries
    have items : SameIf _
        (b.uses.entries.flatMap fun entry => "<li>" ++ usedModule style.converter entry.1 entry.2 ++ "</li>")
        (b.uses.sorted.entries.flatMap fun entry => "<li>" ++ usedModule style.converter entry.1 entry.2 ++ "</li>") :=
      ⟨(perm.flatMap_right _).length_eq.symm, Iff.rfl⟩
    exact (((items.before _).after _).headed _ _).length

/-- The parameters of a block are in the order of their names, and its modules are listed in the same way in that
    order. -/
def InOrder (style : Style) (b : Block) : Prop :=
  b.params.sorted = b.params ∧ usesSection style (b.ordered true) = usesSection style b

/-- Nothing else that a block says depends on the order of its maps. -/
theorem sameParts_details (style : Style) (b : Block) :
    SameParts (InOrder style b) (details style b) (details style (b.ordered true)) := by
  have tags : ∀ l, infoLine style (b.ordered true) l = infoLine style b l := by
    intro l
    unfold infoLine
    rw [show (b.ordered true).tags = b.tags.sorted from rfl, Dict.get?_sorted]
  have infos : infoLabels.filterMap (infoLine style (b.ordered true)) = infoLabels.filterMap (infoLine style b) :=
    List.filterMap_congr fun l _ => tags l
  have returns : returnsSection style (b.ordered true) = returnsSection style b := rfl
  unfold details
  rw [infos, returns]
  exact ((((sameParts_uses style b).append (sameParts_params style b)).after _).after _).congr and_comm

/-! ## Whole pages -/

theorem sameIf_declaration (style : Style) (anchor : Text) (d : Declaration) :
    SameIf (InOrder style d.doc) (declaration style anchor d) (declaration style anchor (d.ordered true)) :=
  ((sameParts_details style d.doc).before _).join _

theorem assign_ordered (current : Text) (taken : List Text) (declarations : List Declaration) :
    Anchor.assign current taken (declarations.map (Declaration.ordered true))
      = Anchor.assign current taken declarations := by
  induction declarations generalizing current taken with
  | nil => rfl
  | cons d rest ih =>
    rw [List.map_cons, Anchor.assign, Anchor.assign, ih]
    rfl

theorem anchors_ordered (declarations : List Declaration) :
    anchors (declarations.map (Declaration.ordered true)) = anchors declarations := assign_ordered _ _ _

theorem length_anchors (declarations : List Declaration) : (anchors declarations).length = declarations.length := by
  have step : ∀ current taken, (Anchor.assign current taken declarations).length = declarations.length := by
    induction declarations with
    | nil => exact fun _ _ => rfl
    | cons d rest ih => exact fun _ _ => congrArg (· + 1) (ih _ _)
  exact step _ _

/-- A declaration with its anchor, the maps of its block in order. -/
abbrev orderedAt (entry : Declaration × Text) : Declaration × Text := (entry.1.ordered true, entry.2)

/-- A group of declarations with the maps of their blocks in order. -/
def Group.ordered (g : Group) : Group :=
  ⟨g.head.map fun (space, d) => (space, d.ordered true), g.members.map orderedAt⟩

theorem zip_anchors_ordered (declarations : List Declaration) :
    (declarations.map (Declaration.ordered true)).zip (anchors (declarations.map (Declaration.ordered true)))
      = (declarations.zip (anchors declarations)).map orderedAt := by
  rw [anchors_ordered, List.zip_map_left]
  rfl

theorem groupsFrom_ordered (separator : Text) (current : Group) (space : Text) (entries : List (Declaration × Text)) :
    groupsFrom separator current.ordered space (entries.map orderedAt)
      = (groupsFrom separator current space entries).map Group.ordered := by
  have reversed : ∀ g : Group, { g.ordered with members := g.ordered.members.reverse }
      = Group.ordered { g with members := g.members.reverse } := by
    intro g
    simp [Group.ordered]
  induction entries generalizing current space with
  | nil => exact congrArg ([·]) (reversed current)
  | cons entry rest ih =>
    obtain ⟨d, anchor⟩ := entry
    rw [List.map_cons, groupsFrom, groupsFrom]
    have kind : (d.ordered true).kind = d.kind := rfl
    rw [kind]
    cases d.kind with
    | namespaceDecl => exact ih current _
    | classDecl =>
      simp only [List.map_cons, reversed]
      exact congrArg _ (ih ⟨some (space, d), []⟩ space)
    | _ => exact ih { current with members := (d, anchor) :: current.members } space

theorem listing_ordered (style : Style) (clickable : Bool) (declarations : List Declaration) :
    listing style clickable (declarations.map (Declaration.ordered true)) = listing style clickable declarations := by
  have groups : groups style.separator (declarations.map (Declaration.ordered true))
      = (groups style.separator declarations).map Group.ordered := by
    unfold groups
    rw [zip_anchors_ordered]
    exact groupsFrom_ordered _ ⟨none, []⟩ _ _
  have sections : ∀ g : Group, groupSection style clickable g.ordered = groupSection style clickable g := by
    intro g
    have items : groupItems style clickable g.ordered = groupItems style clickable g := by
      unfold groupItems Group.ordered
      rw [List.map_map]
      rfl
    unfold groupSection
    rw [items]
    cases head : g.head with
    | none => simp only [Group.ordered, head, Option.map_none]
    | some entry =>
      simp only [Group.ordered, head, Option.map_some]
      rfl
  unfold listing
  rw [groups, List.filterMap_map]
  exact List.filterMap_congr fun g _ => sections g

theorem sameIf_overview (style : Style) (clickable : Bool) (main : Block) (declarations : List Declaration) :
    SameIf (InOrder style main) (overview style clickable main declarations)
      (overview style clickable (main.ordered true) (declarations.map (Declaration.ordered true))) := by
  unfold overview
  rw [listing_ordered]
  exact ((sameParts_details style main).before _).join _

/-- A declaration in full at its anchor; nothing for a namespace. -/
def contentsItem (style : Style) (entry : Declaration × Text) : Option Text :=
  if entry.1.kind = .namespaceDecl then none else some (declaration style entry.2 entry.1)

theorem sameParts_contents (style : Style) (entries : List (Declaration × Text)) :
    SameParts (∀ entry ∈ entries, entry.1.kind ≠ .namespaceDecl → InOrder style entry.1.doc)
      (entries.filterMap (contentsItem style)) ((entries.map orderedAt).filterMap (contentsItem style)) := by
  induction entries with
  | nil => exact (SameParts.refl []).congr (by simp)
  | cons entry rest ih =>
    by_cases space : entry.1.kind = .namespaceDecl
    · have first : contentsItem style entry = none := if_pos space
      have second : contentsItem style (orderedAt entry) = none := if_pos space
      rw [List.map_cons, List.filterMap_cons_none first, List.filterMap_cons_none second]
      exact ih.congr (by simp [space])
    · have first : contentsItem style entry = some (declaration style entry.2 entry.1) := if_neg space
      have second : contentsItem style (orderedAt entry) = some (declaration style entry.2 (entry.1.ordered true)) :=
        if_neg space
      rw [List.map_cons, List.filterMap_cons_some first, List.filterMap_cons_some second]
      exact (SameParts.cons (sameIf_declaration style entry.2 entry.1) ih).congr (by simp [space])

/-- The contents of a page with the given sections. -/
def contentsOf (style : Style) (sections : List Text) : Text :=
  if sections.isEmpty then []
  else
    "<div class=\"docnonav\"><h1>" ++ escape (style.label .contents) ++ "</h1>\n"
      ++ Text.join "\n" sections ++ "\n</div>"

theorem contents_eq (style : Style) (declarations : List Declaration) :
    contents style declarations
      = contentsOf style ((declarations.zip (anchors declarations)).filterMap (contentsItem style)) := rfl

theorem sameIf_contentsOf (style : Style) {c : Prop} {ss ts : List Text} (parts : SameParts c ss ts) :
    SameIf c (contentsOf style ss) (contentsOf style ts) := by
  have count := parts.lengths.length_eq
  unfold contentsOf
  cases ss with
  | nil =>
    obtain rfl := List.length_eq_zero_iff.mp count.symm
    exact (SameIf.refl []).congr (by simpa using parts.iff)
  | cons s ss =>
    cases ts with
    | nil => cases count
    | cons t ts => exact ((parts.join _).before _).after _

theorem sameIf_contents (style : Style) (declarations : List Declaration) :
    SameIf (∀ d ∈ declarations, d.kind ≠ .namespaceDecl → InOrder style d.doc) (contents style declarations)
      (contents style (declarations.map (Declaration.ordered true))) := by
  have anchored : (declarations.zip (anchors declarations)).map Prod.fst = declarations :=
    List.map_fst_zip (length_anchors declarations).ge
  have each : (∀ d ∈ declarations, d.kind ≠ .namespaceDecl → InOrder style d.doc)
      ↔ ∀ entry ∈ declarations.zip (anchors declarations),
        entry.1.kind ≠ .namespaceDecl → InOrder style entry.1.doc := by
    conv_lhs => rw [← anchored]
    exact List.forall_mem_map
  have parts := (sameParts_contents style (declarations.zip (anchors declarations))).congr each.symm
  rw [contents_eq, contents_eq, zip_anchors_ordered]
  exact sameIf_contentsOf style parts

/-- The declaration to be shown alone is the same one, with its maps in order. -/
theorem inScope_ordered (d : Document) (scope : Text) :
    inScope (d.ordered true) scope = ((inScope d scope).1.map (Declaration.ordered true), (inScope d scope).2) := by
  have messages : (d.ordered true).messages = d.messages := rfl
  unfold inScope
  rw [d.selection_ordered, d.lookup_ordered, messages]
  split
  · rfl
  · cases d.lookup scope <;> rfl

/-- The blocks that a page shows in full. -/
def shownBlocks (options : Options) (d : Document) : List Block :=
  match (inScope d options.scope).1 with
  | some found => [found.doc]
  | none =>
    d.main :: (if options.clickable then []
      else (d.declarations.filter (·.kind != .namespaceDecl)).map Declaration.doc)

theorem sameParts_body (style : Style) (options : Options) (d : Document) :
    SameParts (∀ b ∈ shownBlocks options d, InOrder style b) (body style options d)
      (body style options (d.ordered true)) := by
  unfold body shownBlocks
  rw [inScope_ordered]
  obtain ⟨selected, messages⟩ := inScope d options.scope
  cases selected with
  | some found =>
    refine SameParts.single ((sameIf_declaration style [] found).congr ?_)
    simp
  | none =>
    dsimp only [Option.map_none]
    rw [List.append_assoc, List.append_assoc]
    apply SameParts.before
    have overview := SameParts.single (sameIf_overview style options.clickable d.main d.declarations)
    have contents := SameParts.single (sameIf_contents style d.declarations)
    cases clickable : options.clickable with
    | true =>
      rw [clickable] at overview
      exact (overview.after []).congr (by simp)
    | false =>
      rw [clickable] at overview
      refine (overview.append contents).congr ?_
      rw [if_neg Bool.false_ne_true, List.forall_mem_cons, List.forall_mem_map]
      simp [List.mem_filter]

/-- The page of a document in order is the same exactly if all blocks on it are in order. -/
theorem sameIf_layout (style : Style) (options : Options) (d : Document) :
    SameIf (∀ b ∈ shownBlocks options d, InOrder style b) (layout style options d)
      (layout style options (d.ordered true)) := by
  unfold layout
  rw [inScope_ordered, Option.isSome_map]
  exact ((((sameParts_body style options d).after _).before [_, _]).filter.join _).after _

theorem detailParts_ordered (b : Block) : detailParts (b.ordered true) = detailParts b := by
  have uses : (b.ordered true).uses = b.uses.sorted := rfl
  have params : (b.ordered true).params = b.params.sorted := rfl
  have tags : (b.ordered true).tags = b.tags.sorted := rfl
  unfold detailParts
  rw [uses, params, tags, Dict.isEmpty_sorted, Dict.isEmpty_sorted]
  simp only [Dict.get?_sorted]
  rfl

theorem listingPartsFrom_ordered (clickable inClass pending : Bool) (declarations : List Declaration) :
    listingPartsFrom clickable inClass pending (declarations.map (Declaration.ordered true))
      = listingPartsFrom clickable inClass pending declarations := by
  induction declarations generalizing inClass pending with
  | nil => rfl
  | cons d rest ih =>
    rw [List.map_cons, listingPartsFrom, listingPartsFrom, show (d.ordered true).kind = d.kind from rfl]
    cases d.kind <;> simp only [ih]

/-- A page in order shows the same parts of its style. -/
theorem shownParts_ordered (options : Options) (d : Document) :
    shownParts options (d.ordered true) = shownParts options d := by
  have contents : contentsParts (d.declarations.map (Declaration.ordered true)) = contentsParts d.declarations := by
    have shown : (d.declarations.map (Declaration.ordered true)).filter (·.kind != .namespaceDecl)
        = (d.declarations.filter (·.kind != .namespaceDecl)).map (Declaration.ordered true) := List.filter_map
    unfold contentsParts
    dsimp only
    rw [shown, List.isEmpty_map, List.flatMap_map]
    simp only [show ∀ x : Declaration, (x.ordered true).doc = x.doc.ordered true from fun _ => rfl,
      detailParts_ordered]
  have overview : overviewParts options.clickable (d.ordered true).main (d.ordered true).declarations
      = overviewParts options.clickable d.main d.declarations :=
    congrArg₂ (· ++ ·) (listingPartsFrom_ordered ..) (detailParts_ordered d.main)
  unfold shownParts
  rw [inScope_ordered]
  obtain ⟨selected, messages⟩ := inScope d options.scope
  cases selected with
  | some found => exact congrArg _ (detailParts_ordered found.doc)
  | none =>
    dsimp only [Option.map_none]
    rw [overview, show (d.ordered true).declarations = d.declarations.map (Declaration.ordered true) from rfl, contents]

/-- A document in order is refused if the document is, and its page is the same exactly if all blocks on it are in
    order. -/
theorem render_ordered (style : Style) (options : Options) (d : Document) :
    (∀ fault, render style options d = .error fault → render style options (d.ordered true) = .error fault)
      ∧ ∀ page, render style options d = .ok page → ∃ later, render style options (d.ordered true) = .ok later
        ∧ (later = page ↔ ∀ b ∈ shownBlocks options d, InOrder style b) := by
  unfold render
  rw [shownParts_ordered]
  cases check style (shownParts options d) with
  | error fault => exact ⟨fun _ same => same, fun page none => nomatch none⟩
  | ok usable =>
    refine ⟨fun fault none => (nomatch none), fun page shown => ?_⟩
    cases shown
    exact ⟨_, rfl, eq_comm.trans (sameIf_layout style options d).iff⟩

/-- A style in which everything can be used refuses no page. -/
theorem render_of_usable {style : Style} (usable : style.unusable = []) (options : Options) (d : Document) :
    render style options d = .ok (layout style options d) := by
  have checked : ∀ parts, check style parts = .ok () := by
    intro parts
    unfold check
    rw [usable]
    induction parts with
    | nil => rfl
    | cons part rest ih => exact ih
  rw [render, checked]
  rfl

end Page

end Marginalia
