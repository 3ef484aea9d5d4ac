import Marginalia.Proofs.PageOrder
import Marginalia.Proofs.Php
import Marginalia.Proofs.Requests
import Marginalia.Settings.Fingerprint

/-!
# Pages from a shelf that is opened again

A document that a run has put on a shelf is served by a later run if its source has not changed. It comes back with
all its maps in the order of their keys. So its page is the page of the first run exactly if the blocks on the page
had that order from the start.
-/

namespace Marginalia

open Fallible

/-- Two runs with one shelf and the same settings. The first one reads a source afresh, keeps its document and
    writes the file of the shelf. The later one finds this file as it was left, and asks for the source again, which
    has not changed. -/
structure Rerun where
  path : Path
  settings : Value
  fingerprint : Text
  hashed : Settings.fingerprint settings = .ok fingerprint
  /-- The files when the first run starts. -/
  start : FileTree
  /-- What the first run is asked before. -/
  earlier : List Ask
  /-- The request that is looked at. -/
  ask : Ask
  whole : ask.request.summaryOnly = false
  miss : ((Shelf.inRun path settings fingerprint start earlier).get ask.tree ask.filename).1 = none
  document : Document
  parsed : Document.ParsedFrom ask.tree settings ask.filename document
  /-- What the first run is asked afterwards. -/
  later : List Ask
  undisturbed : ∀ a ∈ later, a.Undisturbed ask.tree ask.filename
  /-- The files when the first run ends, before and after the shelf is written. -/
  stop : FileTree
  closed : Shelf
  saved : FileTree
  written : (Shelf.inRun path settings fingerprint start (earlier ++ ask :: later)).save stop = .ok (closed, saved)
  /-- The files when the later run starts. -/
  restart : FileTree
  left : restart.read path = saved.read path
  /-- What the later run is asked before. -/
  again : List Ask
  undisturbedAgain : ∀ a ∈ again, a.Undisturbed ask.tree ask.filename
  /-- The files when the later run is asked for the source. -/
  tree : FileTree
  there : tree.isFile (Path.ofText ask.filename) = true
  unchanged : (Shelf.modified ask.tree ask.filename).same (Shelf.modified tree ask.filename) = true

namespace Rerun

variable (r : Rerun)

/-- The shelf of the first run when the source is asked for. -/
def shelf : Shelf := Shelf.inRun r.path r.settings r.fingerprint r.start r.earlier

/-- The shelf of the first run when it ends. -/
def final : Shelf := Shelf.inRun r.path r.settings r.fingerprint r.start (r.earlier ++ r.ask :: r.later)

/-- The shelf of the later run when the source is asked for. -/
def reopened : Shelf := Shelf.inRun r.path r.settings r.fingerprint r.restart r.again

/-- The request in the later run. -/
def askAgain : Ask := { r.ask with tree := r.tree }

theorem final_eq : r.final = (r.ask.shelfAfter r.settings r.shelf).afterAsks r.settings r.later := by
  rw [final, Shelf.inRun, Shelf.afterAsks, List.foldl_append]
  rfl

theorem final_kept : r.final.dirty = true
    ∧ r.final.entries.get? r.ask.filename.lower = some (Shelf.entry r.ask.tree r.ask.filename r.document) := by
  obtain ⟨-, dirty, put⟩ := Shelf.get?_of_miss r.whole r.miss r.parsed
  have kept : (r.ask.shelfAfter r.settings r.shelf).entries.get? r.ask.filename.lower
      = some ((Shelf.entry r.ask.tree r.ask.filename r.document).ordered false) := put
  rw [final_eq]
  exact ⟨Shelf.dirty_afterAsks dirty _, Shelf.get?_afterAsks kept r.undisturbed⟩

theorem reopened_kept : r.reopened.entries.get? r.ask.filename.lower
    = some ((Shelf.entry r.ask.tree r.ask.filename r.document).ordered true) := by
  obtain ⟨dirty, kept⟩ := r.final_kept
  have content : r.restart.read r.path = .ok (Json.write .pretty r.final.content).toUtf8 := by
    have saved := Shelf.save_eq_ok r.written
    rw [← Rerun.final, if_pos dirty, final, Shelf.path_inRun] at saved
    rw [r.left, saved, final]
  have entries : r.final.Each fun _ => Value.WellFormed :=
    Shelf.wellFormed_afterAsks (Shelf.wellFormed_opened _ _ _) _
  have path : r.final.path = r.path := Shelf.path_inRun ..
  have fingerprint : r.final.fingerprint = r.fingerprint := Shelf.fingerprint_inRun ..
  rw [← path] at content
  have found := Shelf.get?_opened entries content r.fingerprint r.ask.filename.lower
  rw [path, if_pos fingerprint, kept] at found
  exact Shelf.get?_afterAsks found r.undisturbedAgain

theorem hit : r.reopened.Hit r.settings r.askAgain (r.document.stored.ordered true) := by
  obtain ⟨profile, noted, known, -⟩ := r.parsed
  refine ⟨⟨profile, ?_⟩, r.whole, ?_⟩
  · obtain ⟨debug, -, found⟩ := Document.profileOfFile_eq_inr.mp known
    exact Document.profileOfFile_eq_inr.mpr ⟨debug, r.there, found⟩
  · have found : r.reopened.get r.tree r.ask.filename = _ := Shelf.get_of_entry r.reopened_kept
    rw [if_pos r.unchanged] at found
    exact found

end Rerun

/-- The later run serves the document of the first one from the shelf. It shows the same page exactly if all blocks
    on the page have their parameters, and list their modules, in the order of their names. -/
theorem render_reopened (r : Rerun) :
    ∃ first later, r.ask.answer r.settings r.shelf = .ok first ∧ r.askAgain.answer r.settings r.reopened = .ok later
      ∧ Event.cacheHit r.ask.filename ∈ r.askAgain.events r.settings r.reopened
      ∧ ∀ style options,
        (∀ fault, Page.render style options first = .error fault → Page.render style options later = .error fault)
        ∧ ∀ page, Page.render style options first = .ok page → ∃ page', Page.render style options later = .ok page'
          ∧ (page' = page ↔ ∀ b ∈ Page.shownBlocks options first, Page.InOrder style b) := by
  obtain ⟨answered, -, -⟩ := Shelf.get?_of_miss r.whole r.miss r.parsed
  obtain ⟨trace, later⟩ := Document.exists_lookingFor_stored true r.settings r.ask.request.lookup
    (Document.selected_of_parsedFrom r.parsed)
  have served := r.hit.ofFile
  refine ⟨_, _, answered, congrArg Prod.fst served, ?_, fun style options => ?_⟩
  · rw [Ask.events, served]
    exact List.mem_singleton_self _
  · rw [show r.askAgain.request.lookup = r.ask.request.lookup from rfl, later]
    exact Page.render_ordered style options _

/-- Two runs with one request each, for a source that is there, on a shelf without a file so far. -/
theorem Rerun.exists_of_parsed (path : Path) (ask : Ask) {settings : Value} {fingerprint : Text} {d : Document}
    (hashed : Settings.fingerprint settings = .ok fingerprint)
    (whole : ask.request.summaryOnly = false) (parsed : Document.ParsedFrom ask.tree settings ask.filename d)
    (timed : (Shelf.modified ask.tree ask.filename).same (Shelf.modified ask.tree ask.filename) = true)
    (absent : ask.tree.at? path = none) (made : ask.tree.makeDirectories path.parent = .ok ask.tree)
    (writable : ∀ content, ∃ saved, ask.tree.write path content = .ok saved) :
    ∃ r : Rerun, r.settings = settings ∧ r.ask = ask ∧ r.askAgain = ask ∧ r.document = d := by
  have miss : ((Shelf.inRun path settings fingerprint ask.tree []).get ask.tree ask.filename).1 = none :=
    Shelf.get_opened_of_absent absent fingerprint ask.tree ask.filename
  obtain ⟨-, dirty, -⟩ := Shelf.get?_of_miss whole miss parsed
  obtain ⟨closed, saved, written⟩ : ∃ closed saved,
      (Shelf.inRun path settings fingerprint ask.tree ([] ++ ask :: [])).save ask.tree = .ok (closed, saved) := by
    have changed : (Shelf.inRun path settings fingerprint ask.tree ([] ++ ask :: [])).dirty = true := dirty
    obtain ⟨saved, written⟩ := writable
      (Json.write .pretty (Shelf.inRun path settings fingerprint ask.tree ([] ++ ask :: [])).content).toUtf8
    simp only [Shelf.save, changed, Shelf.path_inRun, made, written, bind, Except.bind]
    exact ⟨_, _, rfl⟩
  obtain ⟨profile, noted, known, read⟩ := parsed
  have there := (Document.profileOfFile_eq_inr.mp known).2.1
  let r : Rerun :=
    { path
      settings
      fingerprint
      hashed
      start := ask.tree
      earlier := []
      ask
      whole
      miss
      document := d
      parsed := ⟨profile, noted, known, read⟩
      later := []
      undisturbed := fun _ member => absurd member List.not_mem_nil
      stop := ask.tree
      closed
      saved
      written
      restart := saved
      left := rfl
      again := []
      undisturbedAgain := fun _ member => absurd member List.not_mem_nil
      tree := ask.tree
      there
      unchanged := timed }
  exact ⟨r, rfl, rfl, rfl, rfl⟩

/-- A source whose main block has two parameters that are not in the order of their names. -/
def Rerun.unordered : FileTree where
  nodes := [(["p.php".toList],
    .file (Text.toUtf8 "<?php\n/**\n * @param int $z last\n * @param int $a first\n */\n") ⟨1, 0⟩)]
  clock := ⟨2, 0⟩

theorem Rerun.parsed_unordered : ∃ d, Document.ParsedFrom unordered Settings.defaults "p.php" d
    ∧ d.main.params.keys = ["$z".toList, "$a".toList] := by
  have known : Document.profileOfFile unordered Settings.defaults "p.php" = .ok (.inr .php) :=
    eq_ok_of_toOption (by decide +kernel)
  have read : ((Document.parseFile unordered Settings.defaults .php (Path.ofText "p.php") false).1.toOption.any
      fun d => decide (d.main.params.keys = ["$z".toList, "$a".toList])) = true := by decide +kernel
  cases parsed : Document.parseFile unordered Settings.defaults .php (Path.ofText "p.php") false with
  | mk result noted =>
    rw [parsed] at read
    cases result with
    | error fault => cases read
    | ok d => exact ⟨d, ⟨.php, noted, known, parsed⟩, of_decide_eq_true read⟩

theorem Rerun.exists_unordered : ∃ r : Rerun, r.settings = Settings.defaults
    ∧ r.ask = { tree := unordered, filename := "p.php" } ∧ r.askAgain = r.ask
    ∧ r.document.main.params.keys = ["$z".toList, "$a".toList] := by
  obtain ⟨d, parsed, keys⟩ := parsed_unordered
  obtain ⟨fingerprint, hashed⟩ : ∃ fingerprint, Settings.fingerprint Settings.defaults = .ok fingerprint := ⟨_, rfl⟩
  obtain ⟨r, usual, asked, askedAgain, same⟩ := exists_of_parsed ⟨[], ["c.json".toList]⟩ ⟨unordered, "p.php", {}⟩
    hashed rfl parsed (by decide +kernel) (by decide +kernel) rfl fun content => ⟨_, rfl⟩
  exact ⟨r, usual, asked, askedAgain.trans asked.symm, same ▸ keys⟩

/-- A map that sorting leaves alone has its keys in order. -/
theorem Dict.pairwise_of_sorted {α : Type} {d : Dict α} (same : d.sorted = d) :
    d.keys.Pairwise fun a b => Text.le a b = true := by
  have pairs := Entries.sorted_pairwise d.entries
  rw [d.sorted_eq_iff.mp same] at pairs
  exact List.pairwise_map.mpr pairs

/-- The two parameters of `Rerun.unordered` change places on the page of the later run. -/
theorem render_reopened_unordered :
    ∃ (r : Rerun) (style : Style) (first later : Document) (page page' : Text),
      r.settings = Settings.defaults ∧ r.ask = { tree := Rerun.unordered, filename := "p.php" } ∧ r.askAgain = r.ask
      ∧ Style.ofSettings r.settings Prose.render none = .ok style
      ∧ r.ask.answer r.settings r.shelf = .ok first ∧ r.askAgain.answer r.settings r.reopened = .ok later
      ∧ Page.render style {} first = .ok page ∧ Page.render style {} later = .ok page' ∧ page' ≠ page := by
  obtain ⟨r, usual, asked, again, keys⟩ := Rerun.exists_unordered
  have readable : ((Style.ofSettings Settings.defaults Prose.render none).toOption.any
      fun style => style.unusable.isEmpty) = true := by decide +kernel
  cases styled : Style.ofSettings Settings.defaults Prose.render none with
  | error fault =>
    rw [styled] at readable
    cases readable
  | ok style =>
    rw [styled] at readable
    have usable : style.unusable = [] := List.isEmpty_iff.mp readable
    obtain ⟨first, later, answered, answeredAgain, -, pages⟩ := render_reopened r
    obtain ⟨page', rendered, iff⟩ := (pages style {}).2 _ (Page.render_of_usable usable {} first)
    refine ⟨r, style, first, later, _, page', usual, asked, again, usual ▸ styled, answered, answeredAgain,
      Page.render_of_usable usable {} first, rendered, ?_⟩
    intro unchanged
    obtain ⟨fresh, -, -⟩ := Shelf.get?_of_miss r.whole r.miss r.parsed
    have whole : first = r.document := by
      have same := Except.ok.inj (answered.symm.trans fresh)
      rw [same, asked]
      rfl
    have shown : first.main ∈ Page.shownBlocks {} first := by
      have nothing : first.selection = none := by
        rw [whole, Document.selection, Document.selected_of_parsedFrom r.parsed]
        rfl
      simp [Page.shownBlocks, Page.inScope, nothing]
    have sorted := Dict.pairwise_of_sorted (iff.mp unchanged first.main shown).1
    rw [whole, keys] at sorted
    exact absurd sorted (by decide)

end Marginalia
