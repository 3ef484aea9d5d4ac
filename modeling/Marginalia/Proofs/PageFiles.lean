import Marginalia.Proofs.Actions
import Marginalia.Proofs.Jumps
import Marginalia.Proofs.Shelf

/-!
# Page files

A page is named after its source without the directory and the extension. A run with a directory for its pages writes
one page after the other, and the file of its cache last. So a page is lost where another one of the same name comes
after it, or where the cache has its file. It counts the sources, whatever becomes of their pages.
-/

namespace Marginalia

open Fallible

theorem Page.head?_layout (style : Style) (options : Page.Options) (d : Document) :
    (Page.layout style options d).head? = some '<' := by
  unfold Page.layout
  dsimp only
  rw [List.cons_append, List.filter_cons_of_pos (by decide)]
  obtain ⟨more, whole⟩ := Text.exists_join_cons "\n" "<div class=\"docblock\">"
    ((_ :: Page.body style options d ++ ["</div>".toList]).filter (!·.isEmpty))
  rw [whole]
  rfl

theorem Json.head?_write_object (layout : Json.Layout) (members : Entries Value) :
    (Json.write layout (.object members)).head? = some '\x7b' := by
  unfold Json.write Json.writeAt Json.enclose
  split
  · rfl
  · split <;> rfl

namespace Command

/-- A page with what it is made from. -/
structure PageFile where
  source : Path
  document : Document
  html : Text

/-- The path of the page of a source. -/
def pagePath (dir source : Path) : Path := dir.child (pageName source)

/-- The page lies in the directory under its name. -/
def PageFile.Lies (page : PageFile) (dir : Path) (tree : FileTree) : Prop :=
  tree.read (pagePath dir page.source) = .ok page.html.toUtf8

/-- The document that a page shows, and the cache after it was asked for. -/
def Job.ask (job : Job) (tree : FileTree) (cache : Cache) (source : Path) : Except Fault Document × Cache × List Event :=
  Document.ofFile tree job.settings cache source.toText { lookup := job.options.lookup }

/-- How the pages of a run show their documents. -/
def Job.shown (job : Job) : Page.Options := { clickable := job.options.clickable, showProblems := !job.options.noErrors }

/-- Pages that are written one after the other, each in the files and with the cache that the ones before it have
    left. -/
inductive Filed (job : Job) (dir : Path) : FileTree → Cache → List PageFile → FileTree → Cache → Prop
  | done (tree : FileTree) (cache : Cache) : Filed job dir tree cache [] tree cache
  | next {tree tree' last : FileTree} {cache closing : Cache} {page : PageFile} {rest : List PageFile}
      (parsed : (job.ask tree cache page.source).1 = .ok page.document)
      (rendered : Page.render job.style job.shown page.document = .ok page.html)
      (written : tree.write (pagePath dir page.source) page.html.toUtf8 = .ok tree')
      (others : Filed job dir tree' (job.ask tree cache page.source).2.1 rest last closing) :
      Filed job dir tree cache (page :: rest) last closing

/-! ## The pages of a run -/

section

variable {job : Job} {dir : Path} (inDir : job.outDir = some dir) {cache closing : Cache} {n : Nat} {w w' : World}
include inDir

theorem gives_page {source : Path} (given : Gives (page job cache source) w (closing, n) w') :
    ∃ document html, (job.ask w.tree cache source).1 = .ok document ∧ (job.ask w.tree cache source).2.1 = closing
      ∧ Page.render job.style job.shown document = .ok html
      ∧ w.tree.write (pagePath dir source) html.toUtf8 = .ok w'.tree := by
  unfold page at given
  simp only [inDir, gives_bind, gives_currentTree, gives_report, gives_lift, gives_setTree, gives_printLine, gives_pure]
    at given
  obtain ⟨_, _, ⟨rfl, rfl⟩, _, _, rfl, document, _, ⟨parsed, rfl⟩, html, _, ⟨rendered, rfl⟩, given⟩ := given
  obtain ⟨_, _, ⟨rfl, rfl⟩, tree, _, ⟨written, rfl⟩, _, _, rfl, _, _, rfl, result, rfl⟩ := given
  obtain ⟨rfl, -⟩ := Prod.mk.inj result
  exact ⟨document, html, parsed, rfl, rendered, written⟩

theorem filed_pages {sources : List Path} (given : Gives (pages job cache sources) w (closing, n) w') :
    ∃ written : List PageFile, written.map PageFile.source = sources
      ∧ Filed job dir w.tree cache written w'.tree closing := by
  induction sources generalizing cache w n with
  | nil =>
    obtain ⟨result, rfl⟩ := gives_pure.mp given
    obtain ⟨rfl, -⟩ := Prod.mk.inj result
    exact ⟨[], rfl, .done _ _⟩
  | cons source rest ih =>
    unfold pages at given
    simp only [gives_bind, gives_pure] at given
    obtain ⟨⟨between, missing⟩, v, first, ⟨last, more⟩, v', others, result, rfl⟩ := given
    obtain ⟨rfl, -⟩ := Prod.mk.inj result
    obtain ⟨document, html, parsed, rfl, rendered, written⟩ := gives_page inDir first
    obtain ⟨later, same, filed⟩ := ih others
    exact ⟨⟨source, document, html⟩ :: later, by rw [List.map_cons, same], .next parsed rendered written filed⟩

end

/-! ## Pages that are kept -/

theorem pageName_ne_up (source : Path) : pageName source ≠ FileTree.up := by
  intro same
  have length := congrArg List.length same
  simp [pageName, FileTree.up] at length

/-- Pages of one name are the same page. -/
def Unambiguous (pages : List PageFile) : Prop :=
  ∀ page ∈ pages, ∀ other ∈ pages, pageName page.source = pageName other.source → page.html = other.html

theorem unambiguous_of_lies {dir : Path} {tree : FileTree} {pages : List PageFile}
    (lie : ∀ page ∈ pages, page.Lies dir tree) : Unambiguous pages := by
  intro page member other otherMember same
  have here := lie page member
  have there := lie other otherMember
  rw [PageFile.Lies, pagePath, same] at here
  rw [PageFile.Lies, pagePath, here] at there
  exact Text.toUtf8_injective (Except.ok.inj there)

section

variable {job : Job} {dir : Path} {tree tree' last : FileTree} {cache closing : Cache} {pages : List PageFile}

theorem pagePath_apart {source other : Path} (distinct : pageName source ≠ pageName other)
    {place : Place} (located : tree.locate (pagePath dir source) = .ok place) :
    tree.locate (pagePath dir source) ≠ tree.locate (pagePath dir other) := by
  intro same
  have otherLocated : tree.locate (pagePath dir other) = .ok place := same ▸ located
  exact distinct (FileTree.child_inj_of_locate (pageName_ne_up source) (pageName_ne_up other) located otherLocated)

/-- A page is kept as long as all later ones of its name are the same. -/
theorem Filed.lies_of_lies (filed : Filed job dir tree cache pages last closing) {page : PageFile}
    (lies : page.Lies dir tree)
    (same : ∀ other ∈ pages, pageName page.source = pageName other.source → page.html = other.html) :
    page.Lies dir last := by
  induction filed with
  | done tree cache => exact lies
  | @next tree tree' last cache closing other rest parsed rendered written others ih =>
    rw [List.forall_mem_cons] at same
    refine ih ?_ same.2
    by_cases name : pageName page.source = pageName other.source
    · rw [PageFile.Lies, pagePath, name, same.1 name]
      exact FileTree.read_write written
    · obtain ⟨place, located⟩ := FileTree.exists_locate_of_read (FileTree.read_write written)
      exact FileTree.read_of_write written (pagePath_apart (Ne.symm name) located) lies

theorem Filed.lies (filed : Filed job dir tree cache pages last closing) (unambiguous : Unambiguous pages) :
    ∀ page ∈ pages, page.Lies dir last := by
  induction filed with
  | done tree cache =>
    intro page member
    cases member
  | @next tree tree' last cache closing first rest parsed rendered written others ih =>
    rw [List.forall_mem_cons]
    constructor
    · have same := unambiguous first List.mem_cons_self
      exact others.lies_of_lies (FileTree.read_write written) fun other member => same other (List.mem_cons_of_mem _ member)
    · apply ih
      intro page member other otherMember
      exact unambiguous page (List.mem_cons_of_mem _ member) other (List.mem_cons_of_mem _ otherMember)

theorem Filed.locate (filed : Filed job dir tree cache pages last closing) {p : Path} {place : Place}
    (located : tree.locate p = .ok place) : last.locate p = .ok place := by
  induction filed with
  | done tree cache => exact located
  | next parsed rendered written others ih => exact ih (FileTree.locate_of_write written located)

theorem Filed.located (filed : Filed job dir tree cache pages last closing) (page : PageFile) (member : page ∈ pages) :
    ∃ place, last.locate (pagePath dir page.source) = .ok place := by
  induction filed with
  | done tree cache => cases member
  | next parsed rendered written others ih =>
    cases member with
    | head =>
      obtain ⟨place, located⟩ := FileTree.exists_locate_of_read (FileTree.read_write written)
      exact ⟨place, others.locate located⟩
    | tail _ member => exact ih member

theorem Filed.rendered (filed : Filed job dir tree cache pages last closing) (page : PageFile) (member : page ∈ pages) :
    Page.render job.style job.shown page.document = .ok page.html := by
  induction filed with
  | done tree cache => cases member
  | next parsed rendered written others ih =>
    cases member with
    | head => exact rendered
    | tail _ member => exact ih member

end

/-! ## The file of the cache -/

/-- The path of the file that is written when a cache is closed, if one is. -/
def writtenFile? : Cache → Option Path
  | .shelf s => if s.dirty then some s.path else none
  | _ => none

/-- What becomes of the files when a cache is closed. -/
def Saved (cache : Cache) (tree after : FileTree) : Prop :=
  match cache with
  | .shelf s => ∃ closed, s.save tree = .ok (closed, after)
  | _ => after = tree

theorem saved_of_closeCache {cache : Cache} {w w' : World} {u : Unit} (given : Gives (closeCache cache) w u w') :
    Saved cache w.tree w'.tree := by
  cases cache with
  | off =>
    obtain ⟨-, rfl⟩ := gives_pure.mp given
    rfl
  | slot s =>
    obtain ⟨-, rfl⟩ := gives_pure.mp given
    rfl
  | shelf s =>
    unfold closeCache at given
    simp only [gives_bind, gives_currentTree, gives_lift, gives_setTree] at given
    obtain ⟨_, _, ⟨rfl, rfl⟩, ⟨closed, after⟩, _, ⟨saved, rfl⟩, rfl⟩ := given
    exact ⟨closed, saved⟩

/-- The last thing that is written is an object, if anything is written. -/
theorem Saved.cases {cache : Cache} {tree after : FileTree} (saved : Saved cache tree after) :
    writtenFile? cache = none ∧ after = tree
    ∨ ∃ path grown members, writtenFile? cache = some path ∧ tree.Grows grown
      ∧ grown.write path (Json.write .pretty (.object members)).toUtf8 = .ok after := by
  cases cache with
  | off => exact .inl ⟨rfl, saved⟩
  | slot s => exact .inl ⟨rfl, saved⟩
  | shelf s =>
    obtain ⟨closed, saved⟩ := saved
    unfold Shelf.save at saved
    cases dirty : s.dirty with
    | false =>
      rw [dirty] at saved
      exact .inl ⟨by simp [writtenFile?, dirty], (Prod.mk.inj (Except.ok.inj saved)).2.symm⟩
    | true =>
      rw [dirty] at saved
      obtain ⟨grown, made, saved⟩ := bind_eq_ok.mp saved
      obtain ⟨written, written_eq, saved⟩ := bind_eq_ok.mp saved
      obtain ⟨-, rfl⟩ := Prod.mk.inj (Except.ok.inj saved)
      exact .inr ⟨s.path, grown, _, by simp [writtenFile?, dirty], FileTree.grows_makeDirectories made, written_eq⟩

theorem Saved.locate {cache : Cache} {tree after : FileTree} (saved : Saved cache tree after) {p : Path} {place : Place}
    (located : tree.locate p = .ok place) : after.locate p = .ok place := by
  obtain ⟨-, rfl⟩ | ⟨path, grown, members, -, grows, written⟩ := saved.cases
  · exact located
  · exact FileTree.locate_of_write written (grows.locate located)

/-! ## Runs that write pages -/

/-- How a run gets from the files it starts with to the files it leaves when it writes pages to a directory. -/
structure Publication (settings : Value) (options : Options) (dir : Path) (tree after : FileTree) where
  style : Style
  /-- The cache as it is opened, and as it is closed. -/
  cache : Cache
  closing : Cache
  /-- The files before the first page and after the last one. -/
  made : FileTree
  filled : FileTree
  pages : List PageFile
  opens : ∃ w w', Gives (openCache settings options.cache) w cache w' ∧ w.tree = tree
  styled : Style.ofSettings settings Prose.render none = .ok style
  makes : tree.makeDirectories dir = .ok made
  filed : Filed ⟨settings, style, options, some dir⟩ dir made cache pages filled closing
  closes : Saved closing filled after

section

variable {settings : Value} {options : Options} {dir : Path} {tree after : FileTree}

/-- The cache has its file somewhere else than the pages. -/
def Publication.CacheApart (r : Publication settings options dir tree after) : Prop :=
  ∀ path ∈ writtenFile? r.closing, ∀ page ∈ r.pages, after.locate path ≠ after.locate (pagePath dir page.source)

variable (r : Publication settings options dir tree after)

theorem Publication.cacheApart_of_lies (lie : ∀ page ∈ r.pages, page.Lies dir after) : r.CacheApart := by
  intro path isFile page member same
  obtain ⟨noFile, -⟩ | ⟨path', grown, members, file, -, written⟩ := r.closes.cases
  · rw [noFile] at isFile
    cases isFile
  · rw [file] at isFile
    cases isFile
    have lies := lie page member
    rw [PageFile.Lies, ← FileTree.read_congr same, FileTree.read_write written] at lies
    -- an object starts with a brace and a page with a bracket
    have content := Text.toUtf8_injective (Except.ok.inj lies)
    have start := Json.head?_write_object .pretty members
    rw [content, Page.layout_of_render (r.filed.rendered page member), Page.head?_layout] at start
    cases start

theorem Publication.lies (unambiguous : Unambiguous r.pages) (apart : r.CacheApart) (page : PageFile)
    (member : page ∈ r.pages) : page.Lies dir after := by
  have lies := r.filed.lies unambiguous page member
  obtain ⟨-, same⟩ | ⟨path, grown, members, file, grows, written⟩ := r.closes.cases
  · rw [same]
    exact lies
  · exact FileTree.read_of_write written (apart path file page member) (grows.read lies)

theorem Publication.lies_iff : (∀ page ∈ r.pages, page.Lies dir after) ↔ Unambiguous r.pages ∧ r.CacheApart :=
  ⟨fun lie => ⟨unambiguous_of_lies lie, r.cacheApart_of_lies lie⟩, fun h => r.lies h.1 h.2⟩

/-! ### The number of pages -/

/-- The place of the page of a source. -/
def pagePlace? (tree : FileTree) (dir source : Path) : Option Place := (tree.locate (pagePath dir source)).toOption

theorem pagePlace?_eq_some {source : Path} {place : Place} (located : tree.locate (pagePath dir source) = .ok place) :
    pagePlace? tree dir source = some place := by
  rw [pagePlace?, located]
  rfl

/-- The places of the pages of sources, each once. -/
def pagePlaces (tree : FileTree) (dir : Path) (sources : List Path) : List Place :=
  (sources.filterMap (pagePlace? tree dir)).dedup

theorem length_pagePlaces {sources : List Path}
    (located : ∀ source ∈ sources, ∃ place, tree.locate (pagePath dir source) = .ok place) :
    (pagePlaces tree dir sources).length = sources.length ↔ (sources.map pageName).Nodup := by
  have all : (sources.filterMap (pagePlace? tree dir)).length = sources.length := by
    rw [List.filterMap_length_eq_length]
    intro source member
    obtain ⟨place, found⟩ := located source member
    rw [pagePlace?_eq_some found]
    rfl
  have once : (pagePlaces tree dir sources).length = sources.length
      ↔ (sources.filterMap (pagePlace? tree dir)).Nodup := by
    rw [← List.dedup_eq_self, ← all]
    exact ⟨(List.dedup_sublist _).eq_of_length, congrArg List.length⟩
  rw [once, List.Nodup, List.Nodup, List.pairwise_filterMap, List.pairwise_map]
  apply List.Pairwise.iff_of_mem
  intro source other member otherMember
  obtain ⟨place, found⟩ := located source member
  obtain ⟨otherPlace, otherFound⟩ := located other otherMember
  rw [pagePlace?_eq_some found, pagePlace?_eq_some otherFound]
  constructor
  · intro apart same
    have samePlace : otherPlace = place := by
      rw [pagePath, same] at found
      exact Except.ok.inj (otherFound.symm.trans found)
    exact apart place rfl otherPlace rfl samePlace.symm
  · rintro distinct here isHere there isThere rfl
    cases isHere
    cases isThere
    exact pagePath_apart distinct found (found.trans otherFound.symm)

theorem Publication.located (source : Path) (documented : source ∈ r.pages.map PageFile.source) :
    ∃ place, after.locate (pagePath dir source) = .ok place := by
  obtain ⟨page, member, rfl⟩ := List.mem_map.mp documented
  obtain ⟨place, located⟩ := r.filed.located page member
  exact ⟨place, r.closes.locate located⟩

end

theorem tree_of_openCache {settings : Value} {file : Option Path} {cache : Cache} {w w' : World}
    (given : Gives (openCache settings file) w cache w') : w'.tree = w.tree := by
  cases file with
  | none =>
    obtain ⟨-, rfl⟩ := gives_pure.mp given
    rfl
  | some path =>
    unfold openCache at given
    simp only [gives_bind, gives_currentTree, gives_lift, gives_report, gives_pure] at given
    obtain ⟨print, _, ⟨-, rfl⟩, _, _, ⟨rfl, rfl⟩, _, _, rfl, -, rfl⟩ := given
    rfl

theorem tree_of_openOutDir {out : Path} {dir : Option Path} {w w' : World}
    (given : Gives (openOutDir (some out)) w dir w') :
    dir = some ⟨['/'], w.tree.absolute out⟩ ∧ w.tree.makeDirectories ⟨['/'], w.tree.absolute out⟩ = .ok w'.tree := by
  unfold openOutDir at given
  simp only [gives_bind, gives_currentTree, gives_lift, gives_setTree, gives_pure] at given
  obtain ⟨_, _, ⟨rfl, rfl⟩, made, _, ⟨makes, rfl⟩, _, _, rfl, rfl, rfl⟩ := given
  exact ⟨rfl, makes⟩

/-- What a run says at the end. -/
def generatedLine (count : Nat) (dir : Path) : Text :=
  "Generated " ++ decimal count ++ " HTML pages into: " ++ dir.toText ++ ['\n']

theorem publication_of_documentSources {settings : Value} {options : Options} {out : Path}
    (toDirectory : options.outDir = some out) {sources : List Path} {n : Nat} {w w' : World}
    (given : Gives (documentSources settings options sources) w n w') :
    ∃ r : Publication settings options ⟨['/'], w.tree.absolute out⟩ w.tree w'.tree,
      r.pages.map PageFile.source = sources
      ∧ generatedLine sources.length ⟨['/'], w.tree.absolute out⟩ <:+ w'.output := by
  unfold documentSources at given
  simp only [toDirectory, gives_bind, gives_lift] at given
  obtain ⟨cache, _, opens, style, v, ⟨styled, rfl⟩, dir, v₁, opensDir, given⟩ := given
  obtain ⟨⟨closing, missing⟩, v₂, filled, _, v₃, closes, given⟩ := given
  obtain ⟨rfl, makes⟩ := tree_of_openOutDir opensDir
  rw [tree_of_openCache opens] at makes filled given
  simp only [gives_bind, gives_printLine, gives_pure] at given
  obtain ⟨_, _, rfl, rfl, rfl⟩ := given
  obtain ⟨pages, same, filed⟩ := filed_pages rfl filled
  have saved := saved_of_closeCache closes
  refine ⟨⟨style, cache, closing, v₁.tree, v₂.tree, pages, ⟨w, v, opens, rfl⟩, styled, makes, filed, saved⟩, same, ?_⟩
  rw [List.append_assoc]
  exact List.suffix_append _ _

theorem tree_of_printSummary {settings : Value} {source : Path} {u : Unit} {w w' : World}
    (given : Gives (printSummary settings source) w u w') : w'.tree = w.tree := by
  unfold printSummary at given
  simp only [gives_bind, gives_currentTree, gives_report, gives_lift, gives_printLine] at given
  obtain ⟨_, _, ⟨rfl, rfl⟩, _, _, rfl, facts, _, ⟨-, rfl⟩, rfl⟩ := given
  rfl

theorem tree_of_printSummaries {settings : Value} {sources : List Path} {u : Unit} {w w' : World}
    (given : Gives (sources.forM (printSummary settings)) w u w') : w'.tree = w.tree := by
  induction sources generalizing w with
  | nil =>
    obtain ⟨-, rfl⟩ := gives_pure.mp given
    rfl
  | cons source rest ih =>
    obtain ⟨_, v, first, others⟩ := gives_bind.mp given
    rw [ih others, tree_of_printSummary first]

/-- A run that is given a directory for its pages says that it has generated as many pages as there are sources. All of
    them lie in the directory exactly if pages of one name are the same page and the cache has its file somewhere else,
    and there are as many page files as the run says exactly if no two sources give their pages the same name. -/
theorem perform_pages {options : Options} {out : Path} (toDirectory : options.outDir = some out) {tree : FileTree}
    {ending : Ending} {world : World} (ran : Gives (perform options) { tree } ending world) :
    ∃ settings sources, Settings.load tree options.config = .ok settings
      ∧ collectSources tree settings options.sources = .ok sources
      ∧ if sources.isEmpty || options.summaryOnly then world.tree = tree
        else
          let dir : Path := ⟨['/'], tree.absolute out⟩
          ∃ r : Publication settings options dir tree world.tree,
            r.pages.map PageFile.source = sources
            ∧ ((∀ page ∈ r.pages, page.Lies dir world.tree) ↔ Unambiguous r.pages ∧ r.CacheApart)
            ∧ generatedLine sources.length dir <:+ world.output
            ∧ ((pagePlaces world.tree dir sources).length = sources.length ↔ (sources.map pageName).Nodup) := by
  unfold perform at ran
  simp only [gives_bind, gives_currentTree, gives_lift] at ran
  obtain ⟨_, _, ⟨rfl, rfl⟩, settings, _, ⟨loaded, rfl⟩, _, _, ⟨rfl, rfl⟩, sources, _, ⟨collected, rfl⟩, ran⟩ := ran
  refine ⟨settings, sources, loaded, collected, ?_⟩
  by_cases empty : sources.isEmpty = true
  · rw [if_pos empty] at ran
    obtain ⟨-, rfl⟩ := gives_pure.mp ran
    rw [if_pos (by simp [empty])]
  · rw [if_neg empty] at ran
    by_cases brief : options.summaryOnly = true
    · rw [if_pos brief, gives_bind] at ran
      obtain ⟨_, v, printed, rest⟩ := ran
      obtain ⟨-, rfl⟩ := gives_pure.mp rest
      rw [if_pos (by simp [brief])]
      exact tree_of_printSummaries printed
    · rw [if_neg brief, gives_bind] at ran
      obtain ⟨missing, v, documented, rest⟩ := ran
      obtain ⟨-, rfl⟩ := gives_pure.mp rest
      rw [if_neg (by simp [empty, brief])]
      obtain ⟨r, same, told⟩ := publication_of_documentSources toDirectory documented
      have located := r.located
      rw [same] at located
      exact ⟨r, same, r.lies_iff, told, length_pagePlaces located⟩

/-- Two sources of the same name in different directories. -/
def twins : FileTree where
  nodes := [(["a".toList], .directory ⟨1, 0⟩), (["b".toList], .directory ⟨1, 0⟩),
    (["a".toList, "x.php".toList], .file (Text.toUtf8 "<?php\n/** First. */\n") ⟨1, 0⟩),
    (["b".toList, "x.php".toList], .file (Text.toUtf8 "<?php\n/** Second. */\n") ⟨1, 0⟩)]
  clock := ⟨2, 0⟩

/-- The first of `twins`. -/
def firstTwin : Path := ⟨[], ["a".toList, "x.php".toList]⟩

/-- A run on `twins`. -/
def twinRun : Options where
  sources := [firstTwin, ⟨[], ["b".toList, "x.php".toList]⟩]
  outDir := some ⟨[], ["out".toList]⟩

/-- The directory for the pages of `twins`. -/
def twinDir : Path := ⟨['/'], twins.absolute ⟨[], ["out".toList]⟩⟩

/-- The page of the first of `twins`. -/
def firstTwinPage : Except Fault Text := do
  let tree ← twins.makeDirectories twinDir
  let style ← Style.ofSettings Settings.defaults Prose.render none
  let job : Job := ⟨Settings.defaults, style, twinRun, some twinDir⟩
  let document ← (job.ask tree .off firstTwin).1
  Page.render style job.shown document

theorem firstTwinPage_eq {after : FileTree} (r : Publication Settings.defaults twinRun twinDir twins after)
    {first : PageFile} {others : List PageFile} (pages : r.pages = first :: others) (source : first.source = firstTwin) :
    firstTwinPage = .ok first.html := by
  have noCache : r.cache = .off := by
    obtain ⟨w, w', opens, -⟩ := r.opens
    exact (gives_pure.mp opens).1
  have filed := r.filed
  rw [noCache, pages] at filed
  cases filed with
  | next parsed rendered written later =>
    rw [source] at parsed
    unfold firstTwinPage
    simp only [r.makes, r.styled, parsed, bind, Except.bind]
    exact rendered

theorem exists_twinRun : ∃ world, Gives (perform twinRun) { tree := twins } (.done 0) world
    ∧ (world.tree.read (pagePath twinDir firstTwin)).toOption ≠ firstTwinPage.toOption.map Text.toUtf8 := by
  refine ⟨_, gives_of_ok (eq_ok_of_toOption ?_), ?_⟩
  · decide +kernel
  · decide +kernel

/-- The page of the second of `twins` takes the place of the first one, and still two pages are told. -/
theorem perform_pages_twins :
    ∃ (world : World) (r : Publication Settings.defaults twinRun twinDir twins world.tree),
      Gives (perform twinRun) { tree := twins } (.done 0) world
      ∧ r.pages.map PageFile.source = twinRun.sources
      ∧ (∃ page ∈ r.pages, ¬ page.Lies twinDir world.tree)
      ∧ generatedLine 2 twinDir <:+ world.output
      ∧ (pagePlaces world.tree twinDir twinRun.sources).length ≠ 2 := by
  obtain ⟨world, ran, other⟩ := exists_twinRun
  obtain ⟨settings, sources, loaded, collected, documented⟩ := perform_pages rfl ran
  have usual : Settings.load twins twinRun.config = .ok Settings.defaults := rfl
  have both : collectSources twins Settings.defaults twinRun.sources = .ok twinRun.sources :=
    eq_ok_of_toOption (by decide +kernel)
  obtain rfl : Settings.defaults = settings := Except.ok.inj (usual.symm.trans loaded)
  obtain rfl : twinRun.sources = sources := Except.ok.inj (both.symm.trans collected)
  rw [if_neg (by decide)] at documented
  obtain ⟨r, same, -, told, count⟩ := documented
  have repeated : ¬ (twinRun.sources.map pageName).Nodup := by decide +kernel
  refine ⟨world, r, ran, same, ?_, told, mt count.mp repeated⟩
  cases pages : r.pages with
  | nil =>
    rw [pages] at same
    cases same
  | cons first others =>
    rw [pages] at same
    have source : first.source = firstTwin := (List.cons.inj same).1
    refine ⟨first, List.mem_cons_self, fun lies => other ?_⟩
    rw [PageFile.Lies, source] at lies
    rw [lies, firstTwinPage_eq r pages source]
    rfl

end Command

end Marginalia
