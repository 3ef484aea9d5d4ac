import Marginalia.Page.Render
import Marginalia.Proofs.Digits
import Marginalia.Proofs.PageOrder
import Marginalia.Proofs.ProseTags

/-!
# The tags of a page

Whatever a document and the words of a style hold, a page is composed of plain text and of the tags that pages have of
their own. All free text is escaped or goes through prose. Values stand in three tags only: anchors, which are made of
few characters, and queries, which are escaped.
-/

namespace Marginalia

open Markup

/-! ## Anchors -/

namespace Anchor

/-- The characters of an anchor. -/
def isAnchorChar (c : Char) : Bool := isSlugChar c || c == '-'

/-- Made of characters of anchors. -/
def IsAnchor (t : Text) : Prop := ∀ c ∈ t, isAnchorChar c = true

instance (t : Text) : Decidable (IsAnchor t) := inferInstanceAs (Decidable (∀ c ∈ t, isAnchorChar c = true))

theorem IsAnchor.append {s t : Text} (first : IsAnchor s) (second : IsAnchor t) : IsAnchor (s ++ t) :=
  fun c member => (List.mem_append.mp member).elim (first c) (second c)

theorem isAnchor_slug (t : Text) : IsAnchor (slug t) := by
  unfold slug
  split
  · exact (by decide : IsAnchor "section".toList)
  · refine Text.join_induction nofun (fun _ _ => IsAnchor.append) (by decide) fun run member c inside => ?_
    have kept := Text.splitOn_eq_false (List.mem_of_mem_filter member) c inside
    rw [Bool.not_eq_false'] at kept
    simp [isAnchorChar, kept]

theorem isAnchor_numbered {s : Text} (anchor : IsAnchor s) (n : Nat) : IsAnchor (numbered s n) := by
  refine (anchor.append (by decide)).append fun c member => ?_
  have digit := isDigit_of_mem_decimal member
  have slug : isSlugChar c = true := by
    simp only [Char.isDigit, isSlugChar, Bool.or_eq_true, Bool.and_eq_true, decide_eq_true_eq] at digit ⊢
    exact .inl (.inr digit)
  simp [isAnchorChar, slug]

theorem isAnchor_choose (taken : List Text) {s : Text} (anchor : IsAnchor s) : IsAnchor (choose taken s) := by
  unfold choose
  split
  · split
    · exact isAnchor_numbered anchor _
    · exact anchor
  · exact anchor

theorem isAnchor_assign (currentClass : Text) (taken : List Text) (declarations : List Declaration) :
    ∀ anchor ∈ assign currentClass taken declarations, IsAnchor anchor := by
  induction declarations generalizing currentClass taken with
  | nil => exact nofun
  | cons d rest ih => exact List.forall_mem_cons.mpr ⟨isAnchor_choose _ (isAnchor_slug _), ih _ _⟩

end Anchor

namespace Page

open Anchor

/-! ## Tags -/

/-- The tags without values that a page has, those of prose apart. -/
def tags : List String :=
  ["<div class=\"docblock\">", "<div class=\"docfile\">", "<div class=\"docsummary\">", "<div class=\"docdesc\">",
   "<div class=\"docfun\">", "<div class=\"docuses\">", "<div class=\"docparam\">", "<div class=\"docreturn\">",
   "<div class=\"docnonav\">", "</div>", "<pre class=\"docsyntax\">", "</pre>", "<p class=\"docinfo\">", "<p>", "</p>",
   "<h1>", "</h1>", "<h2>", "</h2>", "<ul>", "</ul>", "<li>", "</li>", "<table class=\"docparams\">", "</table>",
   "<tr>", "</tr>", "<th>", "</th>", "<td>", "</td>", "<details class=\"docerrors\" open>", "</details>", "<summary>",
   "</summary>", "<code>", "</code>", "<b>", "</b>", "<br>", "</a>"]

/-- The tags of a page. -/
inductive OwnTag : Text → Prop where
  | prose {tag : Text} (listed : tag ∈ Prose.tags) : OwnTag tag
  | literal {tag : String} (listed : tag ∈ tags) : OwnTag tag.toList
  | place {anchor : Text} (slug : IsAnchor anchor) : OwnTag ("<p class=\"docfunction\" id=\"" ++ anchor ++ "\">")
  | jump {anchor : Text} (slug : IsAnchor anchor) : OwnTag ("<a href=\"#" ++ anchor ++ "\">")
  | link {query : Text} (passive : ∀ c ∈ query, isActive c = false) : OwnTag ("<a href=\"?" ++ query ++ "\">")

/-- The tags of a page that hold no values. -/
inductive FixedTag : Text → Prop where
  | prose {tag : Text} (listed : tag ∈ Prose.tags) : FixedTag tag
  | literal {tag : String} (listed : tag ∈ tags) : FixedTag tag.toList

/-- A kind of tags to which all those without values belong. Blocks have only such tags, so what is said of the tags of
    a block holds for every such kind. -/
class HasFixed (kind : Text → Prop) : Prop where
  fixed : ∀ {tag : Text}, FixedTag tag → kind tag

instance hasFixed_fixedTag : HasFixed FixedTag := ⟨id⟩

instance hasFixed_ownTag : HasFixed OwnTag where
  fixed tag := by
    cases tag with
    | prose listed => exact .prose listed
    | literal listed => exact .literal listed

section Fixed

variable {kind : Text → Prop} [HasFixed kind]

theorem composed_strings {t : Text} (parts : List String) (same : t = parts.flatMap String.toList)
    (each : ∀ part ∈ parts, Plain part.toList ∨ part ∈ tags) : Composed kind t := by
  rw [same]
  refine composed_flatMap fun part member => ?_
  rcases each part member with plain | listed
  · exact composed_of_plain plain
  · exact composed_of_tag (HasFixed.fixed (.literal listed))

theorem composed_tag {tag : String} (listed : tag ∈ tags) : Composed kind tag.toList :=
  composed_of_tag (HasFixed.fixed (.literal listed))

theorem composed_between {first last : String} {t : Text} (opening : first ∈ tags) (closing : last ∈ tags)
    (inner : Composed kind t) : Composed kind (first.toList ++ t ++ last.toList) :=
  ((composed_tag opening).append inner).append (composed_tag closing)

theorem composed_element {name content : Text} (known : name ∈ (["li", "tr", "th", "td"] : List Text))
    (inner : Composed kind content) : Composed kind (element name content) := by
  have around : ∀ first last : String, startTag name = first.toList → endTag name = last.toList → first ∈ tags →
      last ∈ tags → Composed kind (element name content) := by
    intro first last opening closing listed listedToo
    rw [element, opening, closing]
    exact composed_between listed listedToo inner
  simp only [List.mem_cons, List.not_mem_nil, or_false] at known
  rcases known with rfl | rfl | rfl | rfl
  · exact around "<li>" "</li>" (by simp [startTag]) (by simp [endTag]) (by simp [tags]) (by simp [tags])
  · exact around "<tr>" "</tr>" (by simp [startTag]) (by simp [endTag]) (by simp [tags]) (by simp [tags])
  · exact around "<th>" "</th>" (by simp [startTag]) (by simp [endTag]) (by simp [tags]) (by simp [tags])
  · exact around "<td>" "</td>" (by simp [startTag]) (by simp [endTag]) (by simp [tags]) (by simp [tags])

theorem composed_row {name : Text} (known : name ∈ (["li", "tr", "th", "td"] : List Text)) {cells : List Text}
    (each : ∀ cell ∈ cells, Composed kind cell) : Composed kind (row name cells) :=
  composed_element (by simp) (composed_flatMap fun cell member => composed_element known (each cell member))

theorem composed_table {headers : List Text} {rows : List (List Text)}
    (titles : ∀ title ∈ headers, Composed kind title) (cells : ∀ row ∈ rows, ∀ cell ∈ row, Composed kind cell) :
    Composed kind (table headers rows "docparams") := by
  unfold table
  split
  · exact composed_nil
  · refine composed_join composed_lineFeed ?_
    simp only [List.forall_mem_append, List.forall_mem_cons, List.forall_mem_map]
    refine ⟨⟨⟨?_, composed_row (by simp) titles, nofun⟩, fun row member => composed_row (by simp) (cells row member)⟩,
      ?_, nofun⟩
    · exact composed_strings ["<table class=\"docparams\">"] (by simp [tableTag]) (by simp [tags])
    · exact composed_strings ["</table>"] (by simp [endTag]) (by simp [tags])

theorem composed_headed {cssClass body : Text} (opening : Composed kind ("<div class=\"" ++ cssClass ++ "\"><h2>"))
    (title : Text) (inner : Composed kind body) : Composed kind (headed cssClass title body) :=
  (((opening.append (composed_escape title)).append (composed_tag (by simp [tags]))).append inner).append
    (composed_tag (by simp [tags]))

theorem composed_typeCode (type : Text) : Composed kind (typeCode type) := by
  unfold typeCode
  split
  · exact composed_nil
  · exact composed_between (by simp [tags]) (by simp [tags]) (composed_escape type)

theorem composed_signatureLine (s : Signature) (b : Block) : Composed kind (signatureLine s b) :=
  composed_between (by simp [tags]) (by simp [tags]) (composed_escape _)

theorem composed_withBreaks (t : Text) : Composed kind (withBreaks (escape t)) := by
  refine composed_flatMap fun c member => ?_
  split
  · exact composed_strings ["<br>", "\n"] (by simp) (by simp [tags, Plain])
  · exact composed_of_plain fun other same => List.mem_singleton.mp same ▸ plain_escape t c member

theorem composed_problemsPart (style : Style) (messages : List Text) :
    Composed kind (problemsPart style messages) := by
  have count : Composed kind (decimal messages.length) := by
    refine composed_of_plain fun c member => ?_
    have digit := isDigit_of_mem_decimal member
    refine ⟨?_, ?_, ?_⟩ <;> (rintro rfl; exact absurd digit (by decide))
  have items : Composed kind (messages.flatMap fun m => element "li" (escape m)) :=
    composed_flatMap fun m _ => composed_element (by simp) (composed_escape m)
  have opening : Composed kind "<details class=\"docerrors\" open><summary>".toList :=
    composed_strings ["<details class=\"docerrors\" open>", "<summary>"] (by simp) (by simp [tags])
  have between : Composed kind ")</summary><ul>".toList :=
    composed_strings [")", "</summary>", "<ul>"] (by simp) (by simp [tags, Plain])
  have closing : Composed kind "</ul></details>".toList :=
    composed_strings ["</ul>", "</details>"] (by simp) (by simp [tags])
  have parenthesis : Composed kind " (".toList := composed_of_plain (by simp [Plain])
  exact (((((opening.append (composed_escape _)).append parenthesis).append count).append between).append items).append
    closing

end Fixed

theorem ownTag_query (query : Text) : OwnTag ("<a href=\"" ++ escape ("?" ++ query) ++ "\">") := by
  have same : "<a href=\"".toList ++ escape ("?" ++ query) = "<a href=\"?" ++ escape query := by
    simp [escape, escapeChar]
  rw [same]
  exact .link fun _ => isActive_of_mem_escape

theorem composed_link (l : LinkBuilder) (title : Text) (name : Option Text) : Composed OwnTag (l.link title name) :=
  ((composed_of_tag (ownTag_query _)).append (composed_escape title)).append (composed_tag (by simp [tags]))

theorem composed_jump {anchor : Text} (slug : IsAnchor anchor) (name : Text) :
    Composed OwnTag ("<a href=\"#" ++ anchor ++ "\"><b>" ++ escape name ++ "</b></a>") := by
  have tag : OwnTag ("<a href=\"#" ++ anchor ++ "\">") := .jump slug
  have same : "<a href=\"#".toList ++ anchor ++ "\"><b>".toList = "<a href=\"#" ++ anchor ++ "\">" ++ "<b>" := by simp
  rw [same]
  have closing : Composed OwnTag "</b></a>".toList := composed_strings ["</b>", "</a>"] (by simp) (by simp [tags])
  exact (((composed_of_tag tag).append (composed_tag (by simp [tags]))).append (composed_escape name)).append closing

theorem composed_place {anchor : Text} (slug : IsAnchor anchor) (name : Text) :
    Composed OwnTag ("<p class=\"docfunction\" id=\"" ++ anchor ++ "\">" ++ escape name ++ "</p>") :=
  ((composed_of_tag (.place slug)).append (composed_escape name)).append (composed_tag (by simp [tags]))

theorem composed_header (style : Style) (backLink : Bool) (filename : Text) :
    Composed OwnTag (header style backLink filename) := by
  unfold header
  dsimp only
  split
  · exact ((composed_escape _).append (composed_of_plain (by simp [Plain]))).append (composed_link ..)
  · exact composed_escape _

/-! ## Blocks -/

section Blocks

variable {kind : Text → Prop} [HasFixed kind] {style : Style} (usual : style.converter = Prose.render)
include usual

theorem composed_converted (inline : Bool) (target t : Text) :
    Composed kind (convert style.converter inline target t) := by
  rw [usual]
  exact (composed_convert inline target t).mono fun _ listed => HasFixed.fixed (.prose listed)

theorem composed_usedModule (module description : Text) :
    Composed kind (usedModule style.converter module description) := by
  have name : Composed kind ("<b>" ++ escape module.lower ++ "</b>") :=
    composed_between (by simp [tags]) (by simp [tags]) (composed_escape _)
  unfold usedModule
  dsimp only
  split
  · exact name
  · exact (name.append (composed_of_plain (by simp [Plain]))).append (composed_converted usual ..)

theorem composed_usesSection (b : Block) : ∀ part ∈ usesSection style b, Composed kind part := by
  unfold usesSection
  split
  · exact nofun
  · refine List.forall_mem_singleton.mpr (composed_headed
      (composed_strings ["<div class=\"docuses\">", "<h2>"] (by simp) (by simp [tags])) _ ?_)
    refine composed_between (by simp [tags]) (by simp [tags]) (composed_flatMap fun entry _ => ?_)
    exact composed_between (by simp [tags]) (by simp [tags]) (composed_usedModule usual ..)

theorem composed_paramsSection (b : Block) : ∀ part ∈ paramsSection style b, Composed kind part := by
  unfold paramsSection
  split
  · exact nofun
  · refine List.forall_mem_singleton.mpr (composed_headed
      (composed_strings ["<div class=\"docparam\">", "<h2>"] (by simp) (by simp [tags])) _ ?_)
    refine (composed_lineFeed.append (composed_table ?_ fun row member => ?_)).append composed_lineFeed
    · simp only [List.forall_mem_cons]
      exact ⟨composed_of_plain (by simp [Plain]), composed_of_plain (by simp [Plain]),
        composed_of_plain (by simp [Plain]), nofun⟩
    · obtain ⟨entry, -, rfl⟩ := List.mem_map.mp member
      simp only [List.forall_mem_cons]
      exact ⟨composed_between (by simp [tags]) (by simp [tags]) (composed_escape _), composed_typeCode _,
        composed_converted usual .., nofun⟩

theorem composed_returnsSection (b : Block) : ∀ part ∈ returnsSection style b, Composed kind part := by
  unfold returnsSection
  split
  · exact nofun
  · next r _ =>
    refine List.forall_mem_singleton.mpr (composed_headed
      (composed_strings ["<div class=\"docreturn\">", "<h2>"] (by simp) (by simp [tags])) _ ?_)
    have opening : Composed kind "<ul><li>".toList := composed_strings ["<ul>", "<li>"] (by simp) (by simp [tags])
    have closing : Composed kind "</li></ul>".toList :=
      composed_strings ["</li>", "</ul>"] (by simp) (by simp [tags])
    refine ((opening.append (composed_typeCode _)).append ?_).append closing
    split
    · exact composed_nil
    · refine Composed.append ?_ (composed_converted usual ..)
      split
      · exact composed_strings [""] rfl (by simp [Plain])
      · exact composed_of_plain (by simp [Plain])

omit usual in
theorem composed_infoLine {b : Block} {l : Label} {part : Text} (shown : infoLine style b l = some part) :
    Composed kind part := by
  unfold infoLine at shown
  split at shown
  · cases shown
  · dsimp only at shown
    split at shown
    · cases shown
    · obtain rfl := Option.some.inj shown
      have opening : Composed kind "<p class=\"docinfo\"><b>".toList :=
        composed_strings ["<p class=\"docinfo\">", "<b>"] (by simp) (by simp [tags])
      have between : Composed kind ":</b> ".toList :=
        composed_strings [":", "</b>", " "] (by simp) (by simp [tags, Plain])
      exact (((opening.append (composed_escape _)).append between).append (composed_withBreaks _)).append
        (composed_tag (by simp [tags]))

theorem composed_details (b : Block) : ∀ part ∈ details style b, Composed kind part := by
  simp only [details, List.forall_mem_append]
  refine ⟨⟨⟨composed_usesSection usual b, composed_paramsSection usual b⟩, composed_returnsSection usual b⟩, ?_⟩
  intro part member
  obtain ⟨l, -, shown⟩ := List.mem_filterMap.mp member
  exact composed_infoLine shown

theorem composed_summaryPart (b : Block) : ∀ part ∈ summaryPart style b, Composed kind part := by
  unfold summaryPart
  split
  · exact nofun
  · exact List.forall_mem_singleton.mpr
      (composed_between (by simp [tags]) (by simp [tags]) (composed_converted usual ..))

theorem composed_descriptionPart (b : Block) : ∀ part ∈ descriptionPart style b, Composed kind part := by
  unfold descriptionPart
  split
  · exact nofun
  · exact List.forall_mem_singleton.mpr
      (composed_between (by simp [tags]) (by simp [tags]) (composed_converted usual ..))

theorem composed_declaration {anchor : Text} (slug : IsAnchor anchor) (d : Declaration) :
    Composed OwnTag (declaration style anchor d) := by
  have id : IsAnchor (if anchor.isEmpty then Anchor.slug d.name else anchor) := by
    split
    · exact isAnchor_slug _
    · exact slug
  refine composed_join composed_lineFeed ?_
  simp only [List.forall_mem_append, List.forall_mem_singleton]
  exact ⟨⟨⟨⟨composed_place id _, composed_summaryPart usual _⟩, composed_signatureLine _ _⟩,
    composed_descriptionPart usual _⟩, composed_details usual _⟩

end Blocks

/-! ## Listings -/

/-- The members of a group are declarations that hold no others, with their anchors. -/
theorem mem_of_mem_groupsFrom (separator : Text) {current : Group} {space : Text}
    {entries : List (Declaration × Text)} {g : Group} (member : g ∈ groupsFrom separator current space entries)
    {entry : Declaration × Text} (inside : entry ∈ g.members) :
    entry ∈ current.members ∨ entry ∈ entries ∧ entry.1.kind.isContainer = false := by
  have later : ∀ {first : Declaration × Text} {rest : List (Declaration × Text)},
      entry ∈ rest ∧ entry.1.kind.isContainer = false → entry ∈ first :: rest ∧ entry.1.kind.isContainer = false :=
    fun found => ⟨List.mem_cons_of_mem _ found.1, found.2⟩
  induction entries generalizing current space with
  | nil =>
    obtain rfl := List.mem_singleton.mp member
    exact .inl (List.mem_reverse.mp inside)
  | cons first rest ih =>
    obtain ⟨d, anchor⟩ := first
    rw [groupsFrom] at member
    split at member
    · exact (ih member).imp_right later
    · rcases List.mem_cons.mp member with rfl | next
      · exact .inl (List.mem_reverse.mp inside)
      · rcases ih next with none | found
        · cases none
        · exact .inr (later found)
    · next notNamespace notClass =>
      rcases ih member with earlier | found
      · rcases List.mem_cons.mp earlier with rfl | before
        · refine .inr ⟨List.mem_cons_self, ?_⟩
          unfold Kind.isContainer
          split
          · contradiction
          · contradiction
          · rfl
        · exact .inl before
      · exact .inr (later found)

theorem mem_zip_of_mem_groups {separator : Text} {declarations : List Declaration} {g : Group}
    (member : g ∈ groups separator declarations) {entry : Declaration × Text} (inside : entry ∈ g.members) :
    entry ∈ declarations.zip (anchors declarations) ∧ entry.1.kind.isContainer = false :=
  (mem_of_mem_groupsFrom separator member inside).resolve_left List.not_mem_nil

theorem isAnchor_of_mem_groups {separator : Text} {declarations : List Declaration} {g : Group}
    (member : g ∈ groups separator declarations) {entry : Declaration × Text} (inside : entry ∈ g.members) :
    IsAnchor entry.2 :=
  isAnchor_assign _ _ _ _ (List.of_mem_zip (mem_zip_of_mem_groups member inside).1).2

section Listings

variable {style : Style} (usual : style.converter = Prose.render)
include usual

theorem composed_listingItem (clickable : Bool) (d : Declaration) {anchor : Text} (slug : IsAnchor anchor) :
    Composed OwnTag (listingItem style clickable d anchor) := by
  unfold listingItem
  refine (Composed.append ?_ ?_).append ?_
  · split
    · exact composed_link ..
    · exact composed_jump slug _
  · split
    · exact composed_nil
    · exact ((composed_of_plain (by simp [Plain])).append (composed_escape _)).append
        (composed_of_plain (by simp [Plain]))
  · split
    · exact composed_nil
    · exact (composed_of_plain (by simp [Plain])).append (composed_converted usual ..)

theorem composed_sortedItems (clickable : Bool) {g : Group} (slugs : ∀ entry ∈ g.members, IsAnchor entry.2) :
    ∀ item ∈ sortedItems (groupItems style clickable g), Composed OwnTag item := by
  intro item member
  obtain ⟨entry, sorted, rfl⟩ := List.mem_map.mp member
  have stored := List.mem_mergeSort.mp sorted
  rcases Entries.mem_insertAll stored with none | found
  · cases none
  · obtain ⟨listed, inside, rfl⟩ := List.mem_map.mp found
    exact composed_listingItem usual clickable _ (slugs listed inside)

theorem composed_groupIntro (clickable : Bool) (d : Declaration) : Composed OwnTag (groupIntro style clickable d) := by
  have summary : Composed OwnTag (if d.doc.summary.isEmpty then [] else prose style d.doc.summary) := by
    split
    · exact composed_nil
    · exact composed_converted usual ..
  unfold groupIntro
  dsimp only
  split
  · exact ((summary.append (composed_tag (by simp [tags]))).append (composed_link ..)).append
      (composed_tag (by simp [tags]))
  · exact summary

theorem composed_groupSection {clickable : Bool} {g : Group} (slugs : ∀ entry ∈ g.members, IsAnchor entry.2)
    {part : Text} (shown : groupSection style clickable g = some part) : Composed OwnTag part := by
  have opening : Composed OwnTag ("<div class=\"" ++ "docfun" ++ "\"><h2>") :=
    composed_strings ["<div class=\"docfun\">", "<h2>"] (by simp) (by simp [tags])
  have items : Composed OwnTag (if (groupItems style clickable g).isEmpty then []
      else "<ul>" ++ (sortedItems (groupItems style clickable g)).flatMap (element "li") ++ "</ul>") := by
    split
    · exact composed_nil
    · refine composed_between (by simp [tags]) (by simp [tags]) (composed_flatMap fun item member => ?_)
      exact composed_element (by simp) (composed_sortedItems usual clickable slugs item member)
  unfold groupSection at shown
  dsimp only at shown
  split at shown
  · obtain rfl := Option.some.inj shown
    exact composed_headed opening _ ((composed_groupIntro usual ..).append items)
  · split at shown
    · cases shown
    · next some =>
      rw [if_neg some] at items
      obtain rfl := Option.some.inj shown
      exact composed_headed opening _ items

theorem composed_listing (clickable : Bool) (declarations : List Declaration) :
    ∀ part ∈ listing style clickable declarations, Composed OwnTag part := by
  intro part member
  obtain ⟨g, listed, shown⟩ := List.mem_filterMap.mp member
  exact composed_groupSection usual (fun _ inside => isAnchor_of_mem_groups listed inside) shown

/-! ## Pages -/

theorem composed_overview (clickable : Bool) (main : Block) (declarations : List Declaration) :
    Composed OwnTag (overview style clickable main declarations) := by
  refine composed_join composed_lineFeed ?_
  simp only [List.forall_mem_append]
  exact ⟨⟨⟨composed_summaryPart usual _, composed_descriptionPart usual _⟩, composed_listing usual _ _⟩,
    composed_details usual _⟩

theorem composed_contents (declarations : List Declaration) : Composed OwnTag (contents style declarations) := by
  unfold contents
  dsimp only
  split
  · exact composed_nil
  · have opening : Composed OwnTag "<div class=\"docnonav\"><h1>".toList :=
      composed_strings ["<div class=\"docnonav\">", "<h1>"] (by simp) (by simp [tags])
    refine (((opening.append (composed_escape _)).append ?_).append ?_).append ?_
    · exact composed_strings ["</h1>", "\n"] (by simp) (by simp [tags, Plain])
    rotate_left
    · exact composed_strings ["\n", "</div>"] (by simp) (by simp [tags, Plain])
    refine composed_join composed_lineFeed fun part member => ?_
    obtain ⟨entry, listed, shown⟩ := List.mem_filterMap.mp member
    split at shown
    · cases shown
    · obtain rfl := Option.some.inj shown
      exact composed_declaration usual (isAnchor_assign _ _ _ _ (List.of_mem_zip listed).2) _

theorem composed_body (options : Options) (d : Document) : ∀ part ∈ body style options d, Composed OwnTag part := by
  unfold body
  dsimp only
  split
  · exact List.forall_mem_singleton.mpr (composed_declaration usual (by decide) _)
  · simp only [List.forall_mem_append, List.forall_mem_singleton]
    refine ⟨⟨?_, composed_overview usual _ _ _⟩, ?_⟩
    · split
      · exact nofun
      · exact List.forall_mem_singleton.mpr (composed_problemsPart _ _)
    · split
      · exact nofun
      · exact List.forall_mem_singleton.mpr (composed_contents usual _)

/-- Every page in a style with the usual prose is composed of plain text and of the tags of pages. -/
theorem composed_layout (options : Options) (d : Document) : Composed OwnTag (layout style options d) := by
  refine (composed_join composed_lineFeed fun part member => ?_).append composed_lineFeed
  have each : ∀ part ∈ "<div class=\"docblock\">".toList :: ("<div class=\"docfile\">"
      ++ header style ((inScope d options.scope).1.isSome && options.clickable) d.filename ++ "</div>")
      :: body style options d ++ ["</div>".toList], Composed OwnTag part := by
    simp only [List.forall_mem_append, List.forall_mem_cons]
    exact ⟨⟨composed_tag (by simp [tags]),
      composed_between (by simp [tags]) (by simp [tags]) (composed_header ..), composed_body usual options d⟩,
      composed_tag (by simp [tags]), nofun⟩
  exact each part (List.mem_of_mem_filter member)

end Listings

end Page

/-! ## Settings of pages -/

namespace Style

/-- The members of a section of settings. A section that counts as false has none. -/
def Section (v : Value) (members : Entries Value) : Prop := v.orElse (.object []) = .object members

/-- A text. -/
def isText : Value → Bool
  | .text _ => true
  | _ => false

theorem exists_text {v : Value} (text : isText v = true) : ∃ t, v = .text t := by
  cases v with
  | text t => exact ⟨t, rfl⟩
  | null | bool | int | float | list | object => cases text

/-- Settings of pages whose words, separator and links are texts, as far as they are given. -/
structure Spelled (page words : Entries Value) : Prop where
  labels : Section ((page.get? "labels").getD .null) words
  label : ∀ l v, words.get? (Label.name l) = some v → isText v = true
  other : ∀ name ∈ (["namespace_separator", "link_param", "link_target"] : List Text),
    ∀ v, page.get? name = some v → isText v = true

theorem members_of_section {v : Value} {ms : Entries Value} (given : Section v ms) (fault : Fault) :
    members fault v = .ok ms := by
  unfold Section Value.orElse at given
  unfold members
  cases truth : v.truthy with
  | true =>
    rw [truth, if_pos rfl] at given
    rw [given]
    rfl
  | false =>
    rw [truth] at given
    cases given
    rfl

theorem isText_labelOr {page words : Entries Value} (spelled : Spelled page words) (l : Label) :
    isText (labelOr words l) = true := by
  have usual : ∀ l ∈ Label.all, isText ((Settings.labels.member? l.name).getD .null) = true := by decide +kernel
  unfold labelOr
  cases given : words.get? l.name with
  | none => exact usual l (by cases l <;> decide)
  | some v => exact spelled.label l v given

theorem isText_settingOr {page words : Entries Value} (spelled : Spelled page words) {name : Text}
    (known : name ∈ (["namespace_separator", "link_param", "link_target"] : List Text)) :
    isText (settingOr page name) = true := by
  have usual : ∀ name ∈ (["namespace_separator", "link_param", "link_target"] : List Text),
      isText (settingOr [] name) = true := by decide +kernel
  unfold settingOr
  cases given : page.get? name with
  | none => exact usual name known
  | some v => exact spelled.other name known v given

/-- Where all words are texts, everything in the style can be used. -/
theorem exists_usable {settings : Value} {sections page words : Entries Value} (top : Section settings sections)
    (given : Section ((sections.get? "render").getD .null) page) (spelled : Spelled page words)
    (converter : Converter) :
    ∃ style, ofSettings settings converter none = .ok style ∧ style.converter = converter ∧ style.unusable = [] := by
  have part : Settings.part (settings.orElse (.object [])) "render" = .ok ((sections.get? "render").getD .null) := by
    rw [top]
    rfl
  have labels : Label.all.filterMap (labelFault? words) = [] := by
    rw [List.filterMap_eq_nil_iff]
    intro l _
    obtain ⟨t, same⟩ := exists_text (isText_labelOr spelled l)
    unfold labelFault?
    rw [same]
    cases l <;> rfl
  obtain ⟨separator, separated⟩ := exists_text (isText_settingOr spelled (by simp : "namespace_separator".toList ∈ _))
  obtain ⟨param, linked⟩ := exists_text (isText_settingOr spelled (by simp : "link_param".toList ∈ _))
  simp only [ofSettings, part, members_of_section given, members_of_section spelled.labels, bind, Except.bind,
    separated, linked, labels]
  exact ⟨_, rfl, rfl, rfl⟩

end Style

/-- Whatever the document and the words of the settings are, the page is plain text and tags of its own. -/
theorem Page.render_composed {settings : Value} {sections page words : Entries Value}
    (top : Style.Section settings sections) (given : Style.Section ((sections.get? "render").getD .null) page)
    (spelled : Style.Spelled page words) (options : Options) (d : Document) :
    ∃ style shown, Style.ofSettings settings Prose.render none = .ok style
      ∧ render style options d = .ok shown ∧ Composed OwnTag shown := by
  obtain ⟨style, styled, usual, usable⟩ := Style.exists_usable top given spelled Prose.render
  exact ⟨style, _, styled, render_of_usable usable options d, composed_layout usual options d⟩

/-- Markup that would do harm if it came into a page as it is. -/
def Page.hostile : Text := "\"><script>f('<')</script>"

/-- Settings of pages with hostile text in a word and in the target of links. -/
def Page.hostileSettings : Entries Value :=
  [("labels", .object [("functions", .text hostile)]), ("link_target", .text hostile)]

/-- Hostile text in the settings and all over the document, on a page that links to its declarations. -/
theorem Page.render_composed_hostile : ∃ style shown,
    Style.ofSettings (.object [("render", .object hostileSettings)]) Prose.render none = .ok style
    ∧ render style { clickable := true }
      { filename := hostile, main := { summary := hostile }, problems := [⟨.lookupNotFound, hostile⟩],
        declarations := [{ signature := { kind := .function, keyword := hostile, name := hostile },
                           doc := { returns := some { type := hostile, description := hostile } } }] } = .ok shown
    ∧ Composed OwnTag shown := by
  have top : Style.Section (.object [("render", .object hostileSettings)])
      [("render", .object hostileSettings)] := rfl
  have given : Style.Section ((Entries.get? [("render", Value.object hostileSettings)] "render").getD .null)
      hostileSettings := rfl
  have labels : Style.Section ((hostileSettings.get? "labels").getD .null) [("functions", .text hostile)] := rfl
  refine render_composed top given ⟨labels, fun l v found => ?_, ?_⟩ _ _
  · rw [Entries.get?] at found
    split at found
    · cases found
      rfl
    · cases found
  · simp only [List.forall_mem_cons]
    refine ⟨fun v found => ?_, fun v found => ?_, fun v found => ?_,
      fun _ member => absurd member List.not_mem_nil⟩ <;>
      simp [hostileSettings, Entries.get?] at found
    rw [← found]
    rfl

end Marginalia
