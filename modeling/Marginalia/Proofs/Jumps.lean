import Marginalia.Proofs.Anchors

/-!
# Links to places on a page

On a page of a whole document without pages of its own for each declaration, the identifiers are the anchors of the
declarations shown in full, and each link of the listing leads to the place where the declaration it was made for is
shown.
-/

namespace Marginalia.Page

open Markup Anchor

/-! ## Declarations -/

section Declarations

variable {style : Style} (usual : style.converter = Prose.render)
include usual

theorem carries_declaration {anchor : Text} (slug : IsAnchor anchor) (content : anchor ≠ []) (d : Declaration) :
    Carries [declaration style anchor d] [anchor] [] := by
  have place : Carries ["<p class=\"docfunction\" id=\"" ++ anchor ++ "\">" ++ escape d.name ++ "</p>"] [anchor] [] := by
    have tag : Carries ["<p class=\"docfunction\" id=\"" ++ anchor ++ "\">"] [anchor] [] :=
      ⟨List.forall_mem_singleton.mpr (composed_of_tag (.place slug)), by simpa using (valuesOf_place slug).1,
        by simpa using (valuesOf_place slug).2⟩
    have rest : Composed FixedTag (escape d.name ++ "</p>") := (composed_escape _).append (composed_tag (by simp [tags]))
    rw [List.append_assoc]
    exact tag.glue (carries_fixed_singleton rest)
  have rest : ∀ part ∈ summaryPart style d.doc ++ [signatureLine d.signature d.doc] ++ descriptionPart style d.doc
      ++ details style d.doc, Composed FixedTag part := by
    simp only [List.forall_mem_append, List.forall_mem_singleton]
    exact ⟨⟨⟨composed_summaryPart usual _, composed_signatureLine _ _⟩, composed_descriptionPart usual _⟩,
      composed_details usual _⟩
  have whole := (place.append (carries_fixed rest)).join
  unfold declaration
  rw [if_neg (by simpa using content)]
  simpa only [List.append_assoc, List.append_nil] using whole

theorem carries_listingItem {anchor : Text} (slug : IsAnchor anchor) (d : Declaration) :
    Carries [listingItem style false d anchor] [] ['#' :: anchor] := by
  have tag : Carries ["<a href=\"#" ++ anchor ++ "\">"] [] ['#' :: anchor] :=
    ⟨List.forall_mem_singleton.mpr (composed_of_tag (.jump slug)), by simpa using (valuesOf_jump slug).1,
      by simpa using (valuesOf_jump slug).2⟩
  have name : Composed FixedTag ("<b>" ++ escape d.name ++ "</b></a>") :=
    ((composed_tag (by simp [tags])).append (composed_escape _)).append
      (composed_strings ["</b>", "</a>"] (by simp) (by simp [tags]))
  have keyword : Composed FixedTag (if isPlainKind d.kind then [] else " (" ++ escape d.signature.keyword ++ ")") := by
    split
    · exact composed_nil
    · exact ((composed_of_plain (by simp [Plain])).append (composed_escape _)).append
        (composed_of_plain (by simp [Plain]))
  have summary : Composed FixedTag (if d.doc.summary.isEmpty then [] else " -- " ++ phrase style d.doc.summary) := by
    split
    · exact composed_nil
    · exact (composed_of_plain (by simp [Plain])).append (composed_converted usual ..)
  have whole := tag.glue (carries_fixed_singleton ((name.append keyword).append summary))
  have cut : ∀ rest : Text, "\"><b>".toList ++ rest = "\">".toList ++ ("<b>".toList ++ rest) := fun _ => rfl
  unfold listingItem
  simp only [Bool.false_eq_true, if_false, List.append_assoc, cut, List.append_nil] at whole ⊢
  exact whole

end Declarations

/-! ## Listings -/

/-- What a group lists, in order: of the declarations with one name in lower case the last one. -/
def Group.listed (g : Group) : List (Declaration × Text) :=
  (Dict.ofList (g.members.map fun entry => (entry.1.name.lower, entry))).entries.sorted.map Prod.snd

theorem Group.mem_of_mem_listed {g : Group} {entry : Declaration × Text} (listed : entry ∈ g.listed) :
    entry ∈ g.members := by
  obtain ⟨⟨name, same⟩, sorted, rfl⟩ := List.mem_map.mp listed
  rcases Entries.mem_insertAll (Entries.mem_sorted.mp sorted) with none | found
  · cases none
  · obtain ⟨other, inside, named⟩ := List.mem_map.mp found
    cases named
    exact inside

theorem sortedItems_groupItems (style : Style) (clickable : Bool) (g : Group) :
    sortedItems (groupItems style clickable g)
      = g.listed.map fun entry => listingItem style clickable entry.1 entry.2 := by
  have pairs : (g.members.map fun entry => (entry.1.name.lower, listingItem style clickable entry.1 entry.2))
      = Entries.mapValues (fun entry => listingItem style clickable entry.1 entry.2)
        (g.members.map fun entry => (entry.1.name.lower, entry)) := by simp [Entries.mapValues]
  have items : (groupItems style clickable g).entries
      = Entries.mapValues (fun entry => listingItem style clickable entry.1 entry.2)
        (Dict.ofList (g.members.map fun entry => (entry.1.name.lower, entry))).entries := by
    have all := Entries.insertAll_mapValues (fun entry => listingItem style clickable entry.1 entry.2) []
      (g.members.map fun entry => (entry.1.name.lower, entry))
    rw [← pairs] at all
    exact all
  have inOrder : sortedItems (groupItems style clickable g)
      = (groupItems style clickable g).entries.sorted.map Prod.snd := rfl
  rw [inOrder, items, Entries.sorted_mapValues, Entries.mapValues, List.map_map, Group.listed, List.map_map]
  rfl

/-- The declarations that have a link in a listing, in its order, with their anchors. -/
def listed (separator : Text) (declarations : List Declaration) : List (Declaration × Text) :=
  (groups separator declarations).flatMap Group.listed

/-- The declarations that are shown in full, with their anchors. -/
def shown (declarations : List Declaration) : List (Declaration × Text) :=
  (declarations.zip (anchors declarations)).filter (·.1.kind != .namespaceDecl)

theorem isAnchor_of_mem_shown {declarations : List Declaration} {entry : Declaration × Text}
    (member : entry ∈ shown declarations) : IsAnchor entry.2 ∧ entry.2 ≠ [] := by
  have anchor := (List.of_mem_zip (List.mem_of_mem_filter member)).2
  exact ⟨isAnchor_assign _ _ _ _ anchor, assign_ne_nil _ _ _ _ anchor⟩

theorem mem_shown_of_mem_groups {separator : Text} {declarations : List Declaration} {g : Group}
    (member : g ∈ groups separator declarations) {entry : Declaration × Text} (inside : entry ∈ g.members) :
    entry ∈ shown declarations := by
  obtain ⟨placed, single⟩ := mem_zip_of_mem_groups member inside
  refine List.mem_filter.mpr ⟨placed, bne_iff_ne.mpr ?_⟩
  intro container
  rw [container] at single
  cases single

theorem nodup_shown (declarations : List Declaration) : ((shown declarations).map Prod.snd).Nodup := by
  have sublist : ((shown declarations).map Prod.snd).Sublist (anchors declarations) := by
    refine (List.filter_sublist.map Prod.snd).trans ?_
    exact (List.map_snd_zip (length_anchors declarations).le).symm ▸ List.Sublist.refl _
  exact sublist.nodup (nodup_anchors declarations)

section Listings

variable {style : Style} (usual : style.converter = Prose.render)
include usual

omit usual in
theorem isEmpty_groupItems (style : Style) (clickable : Bool) (g : Group) :
    (groupItems style clickable g).isEmpty = g.listed.isEmpty := by
  have lengths := congrArg List.length (sortedItems_groupItems style clickable g)
  simp only [sortedItems, List.length_map, List.length_mergeSort] at lengths
  rw [Dict.isEmpty, Bool.eq_iff_iff, List.isEmpty_iff_length_eq_zero, List.isEmpty_iff_length_eq_zero, lengths]

/-- The items of a group that is listed. -/
def Group.items (style : Style) (g : Group) : Text :=
  g.listed.flatMap fun entry => element "li" (listingItem style false entry.1 entry.2)

omit usual in
/-- The heading of a group has no values, and nor has the end of it. -/
theorem exists_headed (title : Text) {start stop : Text} (first : Composed FixedTag start)
    (last : Composed FixedTag stop) (content : Text) : ∃ before after, Composed FixedTag before
      ∧ Composed FixedTag after ∧ headed "docfun" title (start ++ content ++ stop) = before ++ content ++ after := by
  have opening : Composed FixedTag ("<div class=\"" ++ "docfun" ++ "\"><h2>" ++ escape title ++ "</h2>") :=
    ((composed_strings ["<div class=\"docfun\">", "<h2>"] (by simp) (by simp [tags])).append
      (composed_escape title)).append (composed_tag (by simp [tags]))
  have closing : Composed FixedTag "</div>".toList := composed_tag (by simp [tags])
  have moved : ∀ before after : Text, before ++ (start ++ content ++ stop) ++ after
      = before ++ start ++ content ++ (stop ++ after) := by
    intro before after
    simp only [List.append_assoc]
  exact ⟨_, _, opening.append first, last.append closing, moved _ _⟩

/-- A group is left out only if there is nothing to list. Around the items of others nothing has values. -/
theorem groupSection_cases (g : Group) : g.listed = [] ∧ groupSection style false g = none
    ∨ ∃ before after, Composed FixedTag before ∧ Composed FixedTag after
      ∧ groupSection style false g = some (before ++ g.items style ++ after) := by
  have lead : ∀ d, Composed FixedTag (groupIntro style false d) := by
    intro d
    have summary : Composed FixedTag (if d.doc.summary.isEmpty then [] else prose style d.doc.summary) := by
      split
      · exact composed_nil
      · exact composed_converted usual ..
    exact summary
  have list : Composed FixedTag "<ul>".toList := composed_tag (by simp [tags])
  have listEnd : Composed FixedTag "</ul>".toList := composed_tag (by simp [tags])
  have items : (sortedItems (groupItems style false g)).flatMap (element "li") = g.items style := by
    rw [sortedItems_groupItems, Group.items, List.flatMap_map]
  unfold groupSection
  dsimp only
  rw [isEmpty_groupItems, items]
  by_cases nothing : g.listed = []
  · have none : g.items style = [] := by rw [Group.items, nothing, List.flatMap_nil]
    rw [nothing, none]
    split
    · next space d _ =>
      obtain ⟨before, after, first, last, same⟩ := exists_headed (style.label .classTitle ++ " " ++ space ++ d.name)
        (lead d) composed_nil []
      rw [List.append_nil] at same
      exact .inr ⟨before, after, first, last, congrArg some same⟩
    · exact .inl ⟨rfl, rfl⟩
  · have some : ¬ g.listed.isEmpty = true := by simpa using nothing
    rw [if_neg some, if_neg some]
    split
    · next space d _ =>
      obtain ⟨before, after, first, last, same⟩ := exists_headed (style.label .classTitle ++ " " ++ space ++ d.name)
        ((lead d).append list) listEnd (g.items style)
      refine .inr ⟨before, after, first, last, ?_⟩
      rw [← same]
      simp only [List.append_assoc]
    · obtain ⟨before, after, first, last, same⟩ := exists_headed (style.label .functions) list listEnd (g.items style)
      exact .inr ⟨before, after, first, last, congrArg Option.some same⟩

theorem carries_items {g : Group} (slugs : ∀ entry ∈ g.members, IsAnchor entry.2) :
    Carries [g.items style] [] (g.listed.map fun entry => '#' :: entry.2) := by
  have each : ∀ entry ∈ g.listed,
      Carries [element "li" (listingItem style false entry.1 entry.2)] [] ['#' :: entry.2] := by
    intro entry listed
    refine (carries_listingItem usual (slugs entry (g.mem_of_mem_listed listed)) entry.1).between ?_ ?_
    · exact composed_strings ["<li>"] (by simp [startTag]) (by simp [tags])
    · exact composed_strings ["</li>"] (by simp [endTag]) (by simp [tags])
  have whole := carries_concat each
  rwa [List.flatMap_eq_nil_iff.mpr fun _ _ => rfl, ← List.map_eq_flatMap] at whole

theorem carries_groupSection {g : Group} (slugs : ∀ entry ∈ g.members, IsAnchor entry.2) :
    Carries (groupSection style false g).toList [] (g.listed.map fun entry => '#' :: entry.2) := by
  rcases groupSection_cases usual g with ⟨nothing, absent⟩ | ⟨before, after, opening, closing, present⟩
  · rw [nothing, absent]
    exact carries_nil
  · rw [present]
    exact (carries_items usual slugs).between opening closing

theorem carries_listing (declarations : List Declaration) : Carries (listing style false declarations) []
    ((listed style.separator declarations).map fun entry => '#' :: entry.2) := by
  have each := carries_flatMap fun g (member : g ∈ groups style.separator declarations) =>
    carries_groupSection usual fun _ inside => isAnchor_of_mem_groups member inside
  rwa [← List.filterMap_eq_flatMap_toList, List.flatMap_eq_nil_iff.mpr fun _ _ => rfl, ← List.map_flatMap] at each

/-! ## Pages -/

omit usual in
theorem filterMap_contentsItem (style : Style) (entries : List (Declaration × Text)) :
    entries.filterMap (contentsItem style)
      = (entries.filter (·.1.kind != .namespaceDecl)).map fun entry => declaration style entry.2 entry.1 := by
  induction entries with
  | nil => rfl
  | cons entry rest ih =>
    by_cases space : entry.1.kind = .namespaceDecl
    · have none : contentsItem style entry = none := if_pos space
      rw [List.filterMap_cons_none none, List.filter_cons_of_neg (by simp [space]), ih]
    · have some : contentsItem style entry = some (declaration style entry.2 entry.1) := if_neg space
      rw [List.filterMap_cons_some some, List.filter_cons_of_pos (by simp [space]), List.map_cons, ih]

omit usual in
theorem contents_eq_shown (style : Style) (declarations : List Declaration) : contents style declarations
    = contentsOf style ((shown declarations).map fun entry => declaration style entry.2 entry.1) := by
  rw [contents_eq, filterMap_contentsItem]
  rfl

omit usual in
theorem exists_contentsOf (style : Style) {sections : List Text} (content : sections ≠ []) :
    ∃ before after, Composed FixedTag before ∧ Composed FixedTag after
      ∧ contentsOf style sections = before ++ Text.join "\n" sections ++ after := by
  have opening : Composed FixedTag ("<div class=\"docnonav\"><h1>" ++ escape (style.label .contents) ++ "</h1>\n") :=
    ((composed_strings ["<div class=\"docnonav\">", "<h1>"] (by simp) (by simp [tags])).append
      (composed_escape _)).append (composed_strings ["</h1>", "\n"] (by simp) (by simp [tags, Plain]))
  have closing : Composed FixedTag "\n</div>".toList :=
    composed_strings ["\n", "</div>"] (by simp) (by simp [tags, Plain])
  exact ⟨_, _, opening, closing, if_neg (by simpa using content)⟩

theorem carries_contents (declarations : List Declaration) :
    Carries [contents style declarations] ((shown declarations).map Prod.snd) [] := by
  have each : ∀ entry ∈ shown declarations, Carries [declaration style entry.2 entry.1] [entry.2] [] := by
    intro entry member
    obtain ⟨slug, content⟩ := isAnchor_of_mem_shown member
    exact carries_declaration usual slug content entry.1
  have sections := carries_flatMap each
  rw [← List.map_eq_flatMap, ← List.map_eq_flatMap, List.flatMap_eq_nil_iff.mpr fun _ _ => rfl] at sections
  rw [contents_eq_shown]
  by_cases nothing : shown declarations = []
  · rw [nothing]
    exact carries_fixed_singleton composed_nil
  · have some : ((shown declarations).map fun entry => declaration style entry.2 entry.1) ≠ [] := by
      simpa using nothing
    obtain ⟨before, after, opening, closing, whole⟩ := exists_contentsOf style some
    rw [whole]
    exact sections.join.between opening closing

theorem holds_contents {declarations : List Declaration} {entry : Declaration × Text}
    (member : entry ∈ shown declarations) :
    Holds (contents style declarations) (declaration style entry.2 entry.1) := by
  have composed : ∀ part ∈ (shown declarations).map fun entry => declaration style entry.2 entry.1,
      Composed OwnTag part := by
    rw [List.forall_mem_map]
    intro entry inside
    exact composed_declaration usual (isAnchor_of_mem_shown inside).1 entry.1
  have there := List.mem_map_of_mem (f := fun entry => declaration style entry.2 entry.1) member
  obtain ⟨before, after, opening, -, whole⟩ := exists_contentsOf style (List.ne_nil_of_mem there)
  rw [contents_eq_shown, whole]
  exact ((holds_join composed there).after (opening.mono fun _ => HasFixed.fixed)).before after

theorem carries_overview (main : Block) (declarations : List Declaration) :
    Carries [overview style false main declarations] []
      ((listed style.separator declarations).map fun entry => '#' :: entry.2) := by
  have start : ∀ part ∈ summaryPart style main ++ descriptionPart style main, Composed FixedTag part := by
    rw [List.forall_mem_append]
    exact ⟨composed_summaryPart usual _, composed_descriptionPart usual _⟩
  have whole := ((carries_fixed start).append (carries_listing usual declarations)).append
    (carries_fixed (composed_details usual main))
  simp only [List.nil_append, List.append_nil] at whole
  exact whole.join

theorem holds_overview (main : Block) {declarations : List Declaration} {entry : Declaration × Text}
    (member : entry ∈ listed style.separator declarations) :
    Holds (overview style false main declarations) (listingItem style false entry.1 entry.2) := by
  obtain ⟨g, grouped, inside⟩ := List.mem_flatMap.mp member
  have slugs : ∀ e ∈ g.listed, IsAnchor e.2 := fun e listed => isAnchor_of_mem_groups grouped (g.mem_of_mem_listed listed)
  have item : Holds (element "li" (listingItem style false entry.1 entry.2)) (listingItem style false entry.1 entry.2) :=
    ((Holds.refl _).after (composed_strings ["<li>"] (by simp [startTag]) (by simp [tags]))).before _
  have items : Holds (g.items style) (listingItem style false entry.1 entry.2) := by
    refine (holds_flatMap (fun e listed => ?_) inside).trans item
    exact composed_element (by simp) (composed_listingItem usual false e.1 (slugs e listed))
  rcases groupSection_cases usual g with ⟨nothing, -⟩ | ⟨before, after, opening, -, present⟩
  · rw [nothing] at inside
    cases inside
  · have part : before ++ g.items style ++ after ∈ listing style false declarations :=
      List.mem_filterMap.mpr ⟨g, grouped, present⟩
    refine (holds_join ?_ ?_).trans ((items.after (opening.mono fun _ => HasFixed.fixed)).before after)
    · simp only [List.forall_mem_append]
      exact ⟨⟨⟨composed_summaryPart usual _, composed_descriptionPart usual _⟩, composed_listing usual _ _⟩,
        composed_details usual _⟩
    · exact List.mem_append_left _ (List.mem_append_right _ part)

end Listings

/-- The parts of a page of a whole document. -/
def parts (style : Style) (showProblems : Bool) (d : Document) : List Text :=
  ["<div class=\"docblock\">".toList, "<div class=\"docfile\">" ++ escape (Path.ofText d.filename).name ++ "</div>"]
    ++ body style { showProblems } d ++ ["</div>".toList]

section Whole

variable {style : Style} (usual : style.converter = Prose.render) {d : Document} (unselected : d.selection = none)
  (showProblems : Bool)
include unselected

theorem body_of_unselected : body style { showProblems } d
    = (if d.messages.isEmpty || !showProblems then [] else [problemsPart style d.messages])
      ++ [overview style false d.main d.declarations] ++ [contents style d.declarations] := by
  have scope : inScope d [] = (none, d.messages) := by
    rw [← unselected]
    rfl
  unfold body
  rw [scope]
  rfl

theorem layout_of_unselected : layout style { showProblems } d
    = Text.join "\n" ((parts style showProblems d).filter (!·.isEmpty)) ++ "\n" := by
  have scope : (inScope d []).1.isSome = false := by
    rw [Option.isSome_eq_false_iff, Option.isNone_iff_eq_none]
    exact unselected
  unfold layout header
  rw [scope]
  rfl

include usual

theorem carries_parts : Carries (parts style showProblems d) ((shown d.declarations).map Prod.snd)
    ((listed style.separator d.declarations).map fun entry => '#' :: entry.2) := by
  have problems : ∀ part ∈ (if d.messages.isEmpty || !showProblems then [] else [problemsPart style d.messages]),
      Composed FixedTag part := by
    split
    · simp
    · exact List.forall_mem_singleton.mpr (composed_problemsPart _ _)
  have start : ∀ part ∈ ["<div class=\"docblock\">".toList,
      "<div class=\"docfile\">" ++ escape (Path.ofText d.filename).name ++ "</div>"], Composed FixedTag part := by
    simp only [List.forall_mem_cons]
    exact ⟨composed_tag (by simp [tags]), composed_between (by simp [tags]) (by simp [tags]) (composed_escape _), by simp⟩
  have inner := ((carries_fixed problems).append (carries_overview usual d.main d.declarations)).append
    (carries_contents usual d.declarations)
  rw [← body_of_unselected unselected showProblems] at inner
  have stop : Carries ["</div>".toList] [] [] := carries_fixed_singleton (composed_tag (by simp [tags]))
  have whole := ((carries_fixed start).append inner).append stop
  simp only [List.nil_append, List.append_nil] at whole
  exact whole

theorem carries_layout : Carries [layout style { showProblems } d] ((shown d.declarations).map Prod.snd)
    ((listed style.separator d.declarations).map fun entry => '#' :: entry.2) := by
  have whole := (carries_parts usual unselected showProblems).filter.join.glue (carries_fixed_singleton composed_lineFeed)
  rw [layout_of_unselected unselected showProblems]
  simpa only [List.append_nil] using whole

/-- What is not empty stands on the page. -/
theorem holds_layout {part : Text} (member : part ∈ body style { showProblems } d) (content : part ≠ []) :
    Holds (layout style { showProblems } d) part := by
  rw [layout_of_unselected unselected showProblems]
  refine (holds_join (fun other inside => ?_) (List.mem_filter.mpr ⟨?_, by simpa using content⟩)).before _
  · exact (carries_parts usual unselected showProblems).composed other (List.mem_of_mem_filter inside)
  · exact List.mem_append_left _ (List.mem_append_right _ member)

end Whole

/-- A link of the listing to an anchor. The anchor is that of the declaration the link was made for, is on the page
    once, and is there where this very declaration is shown. -/
structure Leads (style : Style) (declarations : List Declaration) (page : Text) (d : Declaration) (anchor : Text) :
    Prop where
  position : ∃ i : Nat, declarations[i]? = some d ∧ (anchors declarations)[i]? = some anchor
  once : (valuesOf "id" page).count anchor = 1
  link : ∃ before after, page = before ++ listingItem style false d anchor ++ after
    ∧ valuesOf "href" page = valuesOf "href" before ++ ('#' :: anchor) :: valuesOf "href" after
  place : ∃ before after, page = before ++ declaration style anchor d ++ after
    ∧ valuesOf "id" page = valuesOf "id" before ++ anchor :: valuesOf "id" after

/-- A page whose identifiers are the anchors of the declarations shown and whose links are those of the listing. -/
structure Linked (style : Style) (declarations : List Declaration) (page : Text) : Prop where
  ids : valuesOf "id" page = (shown declarations).map Prod.snd
  distinct : (valuesOf "id" page).Nodup
  targets : valuesOf "href" page = (listed style.separator declarations).map fun entry => '#' :: entry.2
  leads : ∀ entry ∈ listed style.separator declarations, Leads style declarations page entry.1 entry.2

theorem linked_layout {style : Style} (usual : style.converter = Prose.render) {d : Document}
    (unselected : d.selection = none) (showProblems : Bool) :
    Linked style d.declarations (layout style { showProblems } d) := by
  have carries := carries_layout usual unselected showProblems
  have ids := carries.ids
  have targets := carries.targets
  rw [List.flatMap_singleton] at ids targets
  have distinct : (valuesOf "id" (layout style { showProblems } d)).Nodup := ids ▸ nodup_shown d.declarations
  refine ⟨ids, distinct, targets, fun entry listed => ?_⟩
  obtain ⟨g, grouped, inside⟩ := List.mem_flatMap.mp listed
  have member := mem_shown_of_mem_groups grouped (g.mem_of_mem_listed inside)
  obtain ⟨slug, content⟩ := isAnchor_of_mem_shown member
  have item := carries_listingItem usual slug entry.1
  have place := carries_declaration usual slug content entry.1
  have inBody : body style { showProblems } d = _ := body_of_unselected unselected showProblems
  constructor
  · obtain ⟨i, inZip⟩ := List.mem_iff_getElem?.mp (List.mem_of_mem_filter member)
    exact ⟨i, List.getElem?_zip_eq_some.mp inZip⟩
  · rw [List.count_eq_one_of_mem distinct]
    rw [ids]
    exact List.mem_map_of_mem member
  · have there := holds_overview usual d.main listed
    have page : Holds (layout style { showProblems } d) (overview style false d.main d.declarations) :=
      holds_layout usual unselected showProblems (by simp [inBody]) (there.ne_nil (item.ne_nil (by simp)))
    exact (page.trans there).valuesOf (item.composed _ List.mem_cons_self) (by simpa using item.targets)
  · have there := holds_contents usual member
    have page : Holds (layout style { showProblems } d) (contents style d.declarations) :=
      holds_layout usual unselected showProblems (by simp [inBody]) (there.ne_nil (place.ne_nil (by simp)))
    exact (page.trans there).valuesOf (place.composed _ List.mem_cons_self) (by simpa using place.ids)

theorem layout_of_render {style : Style} {options : Options} {d : Document} {page : Text}
    (rendered : render style options d = .ok page) : page = layout style options d := by
  obtain ⟨-, -, same⟩ := Fallible.bind_eq_ok.mp rendered
  exact (Except.ok.inj same).symm

/-- On every page of a whole document with the usual prose that does not link to pages of its declarations, the links
    of the listing lead to where their declarations are shown. Such a page there is whenever all words are texts. -/
theorem render_linked {d : Document} (unselected : d.selection = none) (showProblems : Bool) :
    (∀ (style : Style) (page : Text), style.converter = Prose.render → render style { showProblems } d = .ok page →
      Linked style d.declarations page)
    ∧ ∀ (settings : Value) (sections page words : Entries Value), Style.Section settings sections →
      Style.Section ((sections.get? "render").getD .null) page → Style.Spelled page words →
      ∃ style shown, Style.ofSettings settings Prose.render none = .ok style ∧ style.converter = Prose.render
        ∧ render style { showProblems } d = .ok shown := by
  constructor
  · intro style page usual rendered
    rw [layout_of_render rendered]
    exact linked_layout usual unselected showProblems
  · intro settings sections page words top given spelled
    obtain ⟨style, styled, usual, usable⟩ := Style.exists_usable top given spelled Prose.render
    exact ⟨style, _, styled, usual, render_of_usable usable _ d⟩

/-- A document with names that differ in case only, a name without anything that anchors keep, a name that looks like
    an anchor with a number, and one method of two classes. -/
def similar : Document :=
  let named (kind : Kind) (name : Text) : Declaration := { signature := { kind, keyword := kind.name, name } }
  { filename := "similar.php"
    declarations := [named .function "f", named .function "F", named .function "f-2", named .function "!!",
      named .namespaceDecl "f", named .classDecl "A", named .publicMethod "run", named .classDecl "B",
      named .publicMethod "run"] }

theorem render_linked_similar : ∃ style shown, Style.ofSettings .null Prose.render none = .ok style
    ∧ render style {} similar = .ok shown ∧ Linked style similar.declarations shown
    ∧ valuesOf "id" shown = (["f", "f-2", "f-2-2", "section", "a", "a-run", "b", "b-run"] : List Text) := by
  obtain ⟨linked, exist⟩ := render_linked (d := similar) rfl true
  obtain ⟨style, shown, styled, usual, rendered⟩ := exist .null [] [] [] rfl rfl
    ⟨rfl, (fun _ _ found => by cases found), (fun _ _ _ found => by cases found)⟩
  have there := linked style shown usual rendered
  refine ⟨style, shown, styled, rendered, there, there.ids.trans ?_⟩
  decide +kernel

end Marginalia.Page
