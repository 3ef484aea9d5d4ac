import Marginalia.Proofs.Reopened
import Marginalia.Proofs.Reread
import Mathlib.Logic.Relation

/-!
# Histories of runs with one shelf

Runs with settings of their own share the file of one shelf, and files are made, changed and removed in between. All
the time every entry, on the shelf of the run in progress or in the file, is the document that was read from its
source at some moment, under settings with the fingerprint of the shelf. An entry answers only if its source has the
time of that moment, and then the source has the content of that moment. So a request is answered as without a shelf.
-/

namespace Marginalia

open Fallible

/-! ## Documents that count as equal -/

/-- Two maps with the same values, whatever the order of their keys. -/
def Dict.Alike {α : Type} (a b : Dict α) : Prop := ∀ key, a.get? key = b.get? key

/-- Two blocks that differ in the order of their maps only. -/
structure Block.Alike (a b : Block) : Prop where
  summary : a.summary = b.summary
  description : a.description = b.description
  tags : a.tags.Alike b.tags
  uses : a.uses.Alike b.uses
  params : a.params.Alike b.params
  returns : a.returns = b.returns
  others : a.others.Alike b.others

/-- Two declarations that differ in the order of maps only. -/
structure Declaration.Alike (a b : Declaration) : Prop where
  signature : a.signature = b.signature
  doc : a.doc.Alike b.doc

/-- Two documents that differ in the order of maps and in their traces only. -/
structure Document.Alike (a b : Document) : Prop where
  filename : a.filename = b.filename
  main : a.main.Alike b.main
  declarations : List.Forall₂ Declaration.Alike a.declarations b.declarations
  index : a.index.Alike b.index
  problems : a.problems = b.problems
  selected : a.selected = b.selected
  selection : Option.Rel Declaration.Alike a.selection b.selection

theorem Dict.alike_ordered {α : Type} (inOrder : Bool) (d : Dict α) : (d.ordered inOrder).Alike d := by
  intro key
  cases inOrder with
  | false => rfl
  | true => exact d.get?_sorted key

theorem Block.alike_ordered (inOrder : Bool) (b : Block) : (b.ordered inOrder).Alike b where
  summary := rfl
  description := rfl
  tags := b.tags.alike_ordered inOrder
  uses := b.uses.alike_ordered inOrder
  params := b.params.alike_ordered inOrder
  returns := rfl
  others := b.others.alike_ordered inOrder

theorem Declaration.alike_ordered (inOrder : Bool) (d : Declaration) : (d.ordered inOrder).Alike d :=
  ⟨rfl, d.doc.alike_ordered inOrder⟩

/-- A document counts as equal to itself with its maps in order and another trace. -/
theorem Document.alike_ordered (inOrder : Bool) (d : Document) (trace : List Text) :
    { d.ordered inOrder with debug := trace }.Alike d where
  filename := rfl
  main := d.main.alike_ordered inOrder
  declarations := by
    rw [show ({ d.ordered inOrder with debug := trace } : Document).declarations
      = d.declarations.map (Declaration.ordered inOrder) from rfl, List.forall₂_map_left_iff]
    exact List.forall₂_same.mpr fun x _ => x.alike_ordered inOrder
  index := by
    have same : ({ d.ordered inOrder with debug := trace } : Document).index = d.index := d.index_ordered inOrder
    intro key
    rw [same]
  problems := rfl
  selected := rfl
  selection := by
    have same : ({ d.ordered inOrder with debug := trace } : Document).selection
        = d.selection.map (Declaration.ordered inOrder) := d.selection_ordered inOrder
    rw [same]
    cases d.selection with
    | none => exact .none
    | some x => exact .some (x.alike_ordered inOrder)

theorem Document.Alike.refl (d : Document) : d.Alike d where
  filename := rfl
  main := d.main.alike_ordered false
  declarations := List.forall₂_same.mpr fun x _ => x.alike_ordered false
  index := fun _ => rfl
  problems := rfl
  selected := rfl
  selection := by
    cases d.selection with
    | none => exact .none
    | some x => exact .some (x.alike_ordered false)

/-- Traces do not count. -/
theorem Document.Alike.with_debug {a b : Document} (alike : a.Alike b) (trace : List Text) :
    a.Alike { b with debug := trace } :=
  ⟨alike.filename, alike.main, alike.declarations, alike.index, alike.problems, alike.selected, alike.selection⟩

/-! ## Steps of a history -/

/-- Files over time, and the run in progress with its settings and its shelf. -/
structure World where
  tree : FileTree
  /-- The files as they were before, the latest first. -/
  past : List FileTree := []
  run : Option (Value × Shelf) := none

namespace World

/-- The files at all moments so far. -/
def moments (w : World) : List FileTree := w.tree :: w.past

/-- The files change. -/
def become (w : World) (tree : FileTree) : World := { w with tree, past := w.moments }

/-- Every requested file that is there after a change is as it was, or has a time that it never had before. -/
def Fresh (requested : Text → Prop) (w : World) (tree : FileTree) : Prop :=
  ∀ filename, requested filename → tree.isFile (Path.ofText filename) = true →
    tree.at? (Path.ofText filename) = w.tree.at? (Path.ofText filename)
      ∨ ∀ before ∈ w.moments, before.isFile (Path.ofText filename) = true →
        (Shelf.modified before filename).same (Shelf.modified tree filename) = false

/-- What happens in a history of runs that use some settings, are asked for some files and share the file of one
    shelf. -/
inductive Step (path : Path) (used : Value → Prop) (requested : Text → Prop) : World → World → Prop where
  /-- Files are made, changed and removed. The file of the shelf stays as it is or is removed. -/
  | change {w : World} {tree : FileTree} (fresh : w.Fresh requested tree)
    (kept : ∀ content, tree.read path = .ok content → w.tree.read path = .ok content) :
    Step path used requested w (w.become tree)
  /-- A run starts and reads the file of the shelf. -/
  | start {w : World} {settings : Value} {fingerprint : Text} (uses : used settings)
    (hashed : Settings.fingerprint settings = .ok fingerprint) :
    Step path used requested w { w with run := some (settings, Shelf.opened path fingerprint w.tree) }
  /-- The run is asked for a file. -/
  | ask {w : World} {settings : Value} {s : Shelf} (running : w.run = some (settings, s)) {filename : Text}
    (asked : requested filename) (request : Request) :
    Step path used requested w
      { w with run := some (settings, Ask.shelfAfter settings s { tree := w.tree, filename, request }) }
  /-- The run ends and writes the file of the shelf. -/
  | finish {w : World} {settings : Value} {s closed : Shelf} {tree : FileTree} (running : w.run = some (settings, s))
    (saved : s.save w.tree = .ok (closed, tree)) (fresh : w.Fresh requested tree) :
    Step path used requested w { w.become tree with run := none }
  /-- The run ends without writing. -/
  | abandon {w : World} : Step path used requested w { w with run := none }

/-! ## What every history keeps -/

section Invariant

variable {path : Path} {used : Value → Prop} {requested : Text → Prop} {w w' : World}

/-- An entry was put on a shelf at some moment, under settings with the given fingerprint. -/
def Kept (used : Value → Prop) (requested : Text → Prop) (w : World) (fingerprint key : Text) (v : Value) : Prop :=
  ∃ before ∈ w.moments, ∃ settings filename d inOrder, used settings ∧ Settings.fingerprint settings = .ok fingerprint
    ∧ requested filename ∧ filename.lower = key ∧ Document.ParsedFrom before settings filename d
    ∧ v = (Shelf.entry before filename d).ordered inOrder

theorem Kept.mono {fingerprint key : Text} {v : Value} (kept : w.Kept used requested fingerprint key v)
    (more : w.moments ⊆ w'.moments) : w'.Kept used requested fingerprint key v := by
  obtain ⟨before, moment, rest⟩ := kept
  exact ⟨before, more moment, rest⟩

theorem Kept.wellFormed {fingerprint key : Text} {v : Value} (kept : w.Kept used requested fingerprint key v) :
    v.WellFormed := by
  obtain ⟨before, -, -, filename, d, inOrder, -, -, -, -, -, rfl⟩ := kept
  exact (Shelf.wellFormed_entry before filename d).ordered inOrder

theorem Kept.sorted {fingerprint key : Text} {v : Value} (kept : w.Kept used requested fingerprint key v) :
    w.Kept used requested fingerprint key v.sorted := by
  obtain ⟨before, moment, settings, filename, d, inOrder, uses, hashed, asked, lower, parsed, rfl⟩ := kept
  exact ⟨before, moment, settings, filename, d, true, uses, hashed, asked, lower, parsed, Value.sorted_ordered _ _⟩

/-- A requested file that has the time of an earlier moment has the content of that moment. -/
def Timed (requested : Text → Prop) (w : World) : Prop :=
  ∀ filename, requested filename → ∀ before ∈ w.moments, before.isFile (Path.ofText filename) = true →
    w.tree.isFile (Path.ofText filename) = true →
    (Shelf.modified before filename).same (Shelf.modified w.tree filename) = true →
    w.tree.read (Path.ofText filename) = before.read (Path.ofText filename)

theorem Timed.become (timed : w.Timed requested) {tree : FileTree} (fresh : w.Fresh requested tree) :
    (w.become tree).Timed requested := by
  intro filename asked before moment wasFile isFile time
  change tree.isFile (Path.ofText filename) = true at isFile
  change (Shelf.modified before filename).same (Shelf.modified tree filename) = true at time
  rcases List.mem_cons.mp moment with rfl | earlier
  · rfl
  · rcases fresh filename asked isFile with same | never
    · obtain ⟨content, stamp, there⟩ := FileTree.isFile_iff.mp isFile
      have thereBefore : w.tree.at? (Path.ofText filename) = some (.file content stamp) := same ▸ there
      have read : tree.read (Path.ofText filename) = w.tree.read (Path.ofText filename) := by
        rw [FileTree.read_of_at? there, FileTree.read_of_at? thereBefore]
      have modified : Shelf.modified tree filename = Shelf.modified w.tree filename := by
        simp only [Shelf.modified, FileTree.stamp?, there, thereBefore]
      refine read.trans (timed filename asked before earlier wasFile (FileTree.isFile_iff.mpr ⟨_, _, thereBefore⟩) ?_)
      rw [← modified]
      exact time
    · rw [never before earlier wasFile] at time
      cases time

/-- Every entry, in the file and on the shelf of the run in progress, was put there in the history. -/
structure Sound (path : Path) (used : Value → Prop) (requested : Text → Prop) (w : World) : Prop where
  timed : w.Timed requested
  file : ∀ fingerprint, (Shelf.opened path fingerprint w.tree).Each (w.Kept used requested fingerprint)
  shelf : ∀ settings s, w.run = some (settings, s) → used settings
    ∧ Settings.fingerprint settings = .ok s.fingerprint ∧ s.path = path
    ∧ s.Each (w.Kept used requested s.fingerprint)

theorem sound_start {start : FileTree} (absent : start.at? path = none) :
    Sound path used requested { tree := start } where
  timed := by
    intro filename asked before moment wasFile isFile time
    rw [List.mem_singleton.mp moment]
  file := by
    intro fingerprint
    rw [Shelf.opened_of_absent absent]
    exact fun kept member => absurd member List.not_mem_nil
  shelf settings s running := by cases running

theorem subset_become (w : World) (tree : FileTree) : w.moments ⊆ (w.become tree).moments :=
  fun _ moment => List.mem_cons_of_mem _ moment

/-- What the file of a shelf holds after the shelf is written. -/
theorem each_opened_save {s closed : Shelf} {tree : FileTree} (sound : Sound path used requested w)
    {settings : Value} (running : w.run = some (settings, s)) (saved : s.save w.tree = .ok (closed, tree))
    (fingerprint : Text) : (Shelf.opened path fingerprint tree).Each (w.Kept used requested fingerprint) := by
  obtain ⟨-, -, rfl, each⟩ := sound.shelf settings s running
  cases dirty : s.dirty with
  | false =>
    have same := Shelf.save_eq_ok saved
    rw [if_neg (by simp [dirty])] at same
    rw [same]
    exact sound.file fingerprint
  | true =>
    apply Shelf.each_of_get?
    intro key v found
    rw [Shelf.get?_opened_save (each.mono fun _ _ kept => kept.wellFormed) dirty saved] at found
    split at found
    · next same =>
      obtain ⟨found, -⟩ := Option.filter_eq_some_iff.mp found
      obtain ⟨original, there, rfl⟩ := Option.map_eq_some_iff.mp found
      exact same ▸ (each.of_get? there).sorted
    · cases found

theorem Sound.step (sound : Sound path used requested w) (step : Step path used requested w w') :
    Sound path used requested w' := by
  cases step with
  | @change tree fresh kept =>
    refine ⟨sound.timed.become fresh, fun fingerprint => ?_, fun settings s running => ?_⟩
    · rcases Shelf.opened_of_read kept fingerprint with same | empty
      · rw [show (w.become tree).tree = tree from rfl, same]
        exact (sound.file fingerprint).mono fun _ _ old => old.mono (w.subset_become tree)
      · rw [show (w.become tree).tree = tree from rfl, empty]
        exact nofun
    · obtain ⟨uses, hashed, path, each⟩ := sound.shelf settings s running
      exact ⟨uses, hashed, path, each.mono fun _ _ old => old.mono (w.subset_become tree)⟩
  | @start settings fingerprint uses hashed =>
    refine ⟨sound.timed, sound.file, fun settings' s running => ?_⟩
    obtain ⟨rfl, rfl⟩ := Prod.mk.inj (Option.some.inj running)
    rw [Shelf.fingerprint_opened]
    exact ⟨uses, hashed, Shelf.path_opened .., sound.file fingerprint⟩
  | @ask settings s running filename asked request =>
    refine ⟨sound.timed, sound.file, fun settings' s' now => ?_⟩
    obtain ⟨rfl, rfl⟩ := Prod.mk.inj (Option.some.inj now)
    obtain ⟨uses, hashed, path, each⟩ := sound.shelf settings s running
    have left := s.leftBy_shelfAfter settings { tree := w.tree, filename, request }
    rw [left.fingerprint, left.path]
    refine ⟨uses, hashed, path, left.each each fun d parsed => ?_⟩
    exact ⟨w.tree, List.mem_cons_self, settings, filename, d, false, uses, hashed, asked, rfl, parsed, rfl⟩
  | @finish settings s closed tree running saved fresh =>
    refine ⟨sound.timed.become fresh, fun fingerprint => ?_, nofun⟩
    exact (each_opened_save sound running saved fingerprint).mono fun _ _ old => old.mono (w.subset_become tree)
  | abandon => exact ⟨sound.timed, sound.file, nofun⟩

theorem sound_of_history {start : FileTree} (absent : start.at? path = none)
    (history : Relation.ReflTransGen (Step path used requested) { tree := start } w) :
    Sound path used requested w := by
  induction history with
  | refl => exact sound_start absent
  | tail _ step sound => exact sound.step step

end Invariant

end World

/-! ## Requests in a history -/

/-- No two of the settings in use have relevant sections with one digest, unless these are the same text. -/
def CollisionFree (used : Value → Prop) : Prop :=
  ∀ v w, used v → used w → ∀ s t, Settings.relevantText v = .ok s → Settings.relevantText w = .ok t →
    Sha256.digest s.toUtf8 = Sha256.digest t.toUtf8 → s.toUtf8 = t.toUtf8

theorem hexadecimal_flatMap_inj {xs ys : Bytes}
    (same : (xs.flatMap fun b => hexadecimal 2 b.toNat) = ys.flatMap fun b => hexadecimal 2 b.toNat) : xs = ys := by
  have reads : ∀ (b : UInt8) (rest : Text), readHex? 2 (hexadecimal 2 b.toNat ++ rest) = some (b.toNat, rest) :=
    fun b rest => readHex?_hexadecimal (by decide) b.toNat_lt rest
  induction xs generalizing ys with
  | nil =>
    cases ys with
    | nil => rfl
    | cons b ys =>
      have read := congrArg (readHex? 2) same
      rw [List.flatMap_cons, reads] at read
      cases read
  | cons a xs ih =>
    have read := congrArg (readHex? 2) same
    rw [List.flatMap_cons, reads] at read
    cases ys with
    | nil => cases read
    | cons b ys =>
      rw [List.flatMap_cons, reads] at read
      obtain ⟨octet, rest⟩ := Prod.mk.inj (Option.some.inj read)
      rw [UInt8.toNat_inj.mp octet, ih rest]

/-- Settings in use with one fingerprint are alike. -/
theorem CollisionFree.alike {used : Value → Prop} (free : CollisionFree used)
    (wellFormed : ∀ settings, used settings → settings.WellFormed) {v w : Value} (first : used v) (second : used w)
    {fingerprint : Text} (left : Settings.fingerprint v = .ok fingerprint)
    (right : Settings.fingerprint w = .ok fingerprint) : Settings.Alike v w := by
  obtain ⟨s, text, left⟩ := bind_eq_ok.mp left
  obtain ⟨t, textToo, right⟩ := bind_eq_ok.mp right
  have digests := hexadecimal_flatMap_inj ((Except.ok.inj left).trans (Except.ok.inj right).symm)
  have octets := free v w first second s t text textToo digests
  have same : s = t := by
    obtain ⟨_, _, _, -, -, -, rfl⟩ := Settings.relevantText_eq_ok text
    obtain ⟨_, _, _, -, -, -, rfl⟩ := Settings.relevantText_eq_ok textToo
    have decoded := congrArg Bytes.decode? octets
    rw [Bytes.decode?_toUtf8, Bytes.decode?_toUtf8] at decoded
    exact Option.some.inj decoded
  exact Settings.alike_of_relevantText (wellFormed v first) (wellFormed w second) text (same ▸ textToo)

/-- What a shelf serves was read from the file at a moment when the file had the time that it has now. -/
theorem World.exists_kept_of_hit {used : Value → Prop} {requested : Text → Prop} {w : World} {s : Shelf}
    (each : s.Each (w.Kept used requested s.fingerprint))
    (caseless : ∀ a b, requested a → requested b → a.lower = b.lower → a = b) {settings : Value} {filename : Text}
    (asked : requested filename) {request : Request} {d : Document}
    (hit : s.Hit settings { tree := w.tree, filename, request } d) :
    ∃ before ∈ w.moments, ∃ settings' d' inOrder, used settings'
      ∧ Settings.fingerprint settings' = .ok s.fingerprint ∧ Document.ParsedFrom before settings' filename d'
      ∧ (Shelf.modified before filename).same (Shelf.modified w.tree filename) = true
      ∧ d = d'.stored.ordered inOrder := by
  have found : s.get w.tree filename = (some d, s, []) := hit.2.2
  cases there : s.entries.get? filename.lower with
  | none => simp [Shelf.get, Shelf.consult, there] at found
  | some v =>
    obtain ⟨before, moment, settings', name, d', inOrder, uses, hashed, askedThen, lower, parsed, rfl⟩ :=
      each.of_get? there
    obtain rfl := caseless name filename askedThen asked lower
    rw [Shelf.get_of_entry there] at found
    split at found
    · next time =>
      cases found
      exact ⟨before, moment, settings', d', inOrder, uses, hashed, parsed, time, rfl⟩
    · cases found

/-- Whatever has happened to the files, to the settings and to the file of the shelf, a run answers a request as it
    would without a shelf: it fails with the same fault, or gives a document that differs in the order of maps and in
    its trace only. -/
theorem answer_alike {path : Path} {used : Value → Prop} {requested : Text → Prop}
    (wellFormed : ∀ settings, used settings → settings.WellFormed) (free : CollisionFree used)
    (caseless : ∀ a b, requested a → requested b → a.lower = b.lower → a = b)
    {start : FileTree} (absent : start.at? path = none) {w : World}
    (history : Relation.ReflTransGen (World.Step path used requested) { tree := start } w)
    {settings : Value} {s : Shelf} (running : w.run = some (settings, s)) {filename : Text}
    (asked : requested filename) (request : Request) :
    Agree Document.Alike (Ask.answer settings s { tree := w.tree, filename, request })
      (Ask.afresh settings { tree := w.tree, filename, request }) := by
  have sound := World.sound_of_history absent history
  obtain ⟨uses, hashed, -, each⟩ := sound.shelf settings s running
  rcases s.answer_cases settings { tree := w.tree, filename, request } with ⟨d, hit⟩ | ⟨same, -⟩
  · obtain ⟨before, moment, settings', d', inOrder, usesThen, hashedThen, parsed, time, rfl⟩ :=
      World.exists_kept_of_hit each caseless asked hit
    obtain ⟨profileThen, -, knownThen, -⟩ := id parsed
    obtain ⟨⟨profile, known⟩, whole, -⟩ := id hit
    have read := sound.timed filename asked before moment (Document.profileOfFile_eq_inr.mp knownThen).2.1
      (Document.profileOfFile_eq_inr.mp known).2.1 time
    have alike := free.alike wellFormed usesThen uses hashedThen hashed
    obtain ⟨trace, noted, again⟩ := Document.parsedFrom_alike alike parsed known read
    have afresh : Ask.afresh settings { tree := w.tree, filename, request }
        = .ok (Document.lookingFor request.lookup { d' with debug := trace }) := by
      simp only [Ask.afresh, Document.ofFile, known, show request.summaryOnly = false from whole, again]
      rfl
    obtain ⟨trace', served⟩ := Document.exists_lookingFor_stored inOrder settings request.lookup
      (Document.selected_of_parsedFrom parsed)
    rw [afresh, Document.lookingFor_debug request.lookup d' trace, Ask.answer, hit.ofFile, served]
    exact ((Document.lookingFor request.lookup d').alike_ordered inOrder trace').with_debug trace
  · rw [same]
    exact agree_refl Document.Alike.refl _

/-- A run that is asked for one source, on a shelf without a file so far, and the start of the next run. -/
theorem World.reaches_second_run {path : Path} {settings : Value} {fingerprint : Text}
    (hashed : Settings.fingerprint settings = .ok fingerprint) {a : Ask} {closed : Shelf} {saved : FileTree}
    (written : (a.shelfAfter settings (Shelf.opened path fingerprint a.tree)).save a.tree = .ok (closed, saved))
    (untouched : saved.at? (Path.ofText a.filename) = a.tree.at? (Path.ofText a.filename)) :
    Relation.ReflTransGen (World.Step path (· = settings) (· = a.filename)) { tree := a.tree }
      { tree := saved, past := [a.tree], run := some (settings, Shelf.opened path fingerprint saved) } := by
  let step := World.Step path (· = settings) (· = a.filename)
  let first := Shelf.opened path fingerprint a.tree
  have opened : step { tree := a.tree } { tree := a.tree, run := some (settings, first) } := .start rfl hashed
  have asked : step { tree := a.tree, run := some (settings, first) }
      { tree := a.tree, run := some (settings, a.shelfAfter settings first) } := by
    refine World.Step.ask (s := first) rfl ?_ a.request
    rfl
  have ended : step { tree := a.tree, run := some (settings, a.shelfAfter settings first) }
      { tree := saved, past := [a.tree] } := by
    refine .finish rfl written ?_
    rintro _ rfl -
    exact .inl untouched
  exact (((Relation.ReflTransGen.single opened).tail asked).tail ended).tail (.start rfl hashed)

/-- The next run has the document of that source on its shelf. -/
theorem Shelf.hit_of_saved {path : Path} {settings : Value} {fingerprint : Text} {a : Ask} {d : Document}
    (absent : a.tree.at? path = none) (whole : a.request.summaryOnly = false)
    (parsed : Document.ParsedFrom a.tree settings a.filename d) {closed : Shelf} {saved : FileTree}
    (written : (a.shelfAfter settings (Shelf.opened path fingerprint a.tree)).save a.tree = .ok (closed, saved))
    (untouched : saved.at? (Path.ofText a.filename) = a.tree.at? (Path.ofText a.filename))
    (timed : (Shelf.modified a.tree a.filename).same (Shelf.modified a.tree a.filename) = true) :
    (Shelf.opened path fingerprint saved).Hit settings { a with tree := saved } (d.stored.ordered true) := by
  have miss := Shelf.get_opened_of_absent absent fingerprint a.tree a.filename
  obtain ⟨-, dirty, kept⟩ := Shelf.get?_of_miss whole miss parsed
  have left := (Shelf.opened path fingerprint a.tree).leftBy_shelfAfter settings a
  have each := left.each (Shelf.wellFormed_opened _ _ _) fun d _ => Shelf.wellFormed_entry ..
  have found := Shelf.get?_opened_save each dirty written fingerprint a.filename.lower
  rw [left.path, Shelf.path_opened, if_pos (left.fingerprint.trans (Shelf.fingerprint_opened ..)), kept] at found
  have stored : (Shelf.opened path fingerprint saved).entries.get? a.filename.lower
      = some ((Shelf.entry a.tree a.filename d).ordered true) := found
  have modified : Shelf.modified saved a.filename = Shelf.modified a.tree a.filename := by
    simp only [Shelf.modified, FileTree.stamp?, untouched]
  have served : (Shelf.opened path fingerprint saved).get saved a.filename = _ := Shelf.get_of_entry stored
  rw [modified, if_pos timed] at served
  obtain ⟨profile, -, known, -⟩ := parsed
  obtain ⟨debug, there, profiled⟩ := Document.profileOfFile_eq_inr.mp known
  have still : saved.isFile (Path.ofText a.filename) = true := by
    rw [FileTree.isFile, untouched]
    exact there
  exact ⟨⟨profile, Document.profileOfFile_eq_inr.mpr ⟨debug, still, profiled⟩⟩, whole, served⟩

/-- Two runs with the defaults: the first is asked for the source `Rerun.unordered`, and the second has it on the
    shelf. -/
theorem World.exists_second_run : ∃ (w : World) (s : Shelf) (d : Document),
    Relation.ReflTransGen (World.Step ⟨[], ["c.json".toList]⟩ (· = Settings.defaults) (· = "p.php".toList))
      { tree := Rerun.unordered } w
    ∧ w.run = some (Settings.defaults, s) ∧ s.Hit Settings.defaults { tree := w.tree, filename := "p.php" } d := by
  obtain ⟨d, parsed, -⟩ := Rerun.parsed_unordered
  obtain ⟨fingerprint, hashed⟩ : ∃ fingerprint, Settings.fingerprint Settings.defaults = .ok fingerprint := ⟨_, rfl⟩
  let path : Path := ⟨[], ["c.json".toList]⟩
  let a : Ask := { tree := Rerun.unordered, filename := "p.php" }
  have absent : a.tree.at? path = none := by decide +kernel
  obtain ⟨closed, saved, written, untouched⟩ : ∃ closed saved,
      (a.shelfAfter Settings.defaults (Shelf.opened path fingerprint a.tree)).save a.tree = .ok (closed, saved)
      ∧ saved.at? (Path.ofText a.filename) = a.tree.at? (Path.ofText a.filename) := by
    have miss := Shelf.get_opened_of_absent absent fingerprint a.tree a.filename
    obtain ⟨-, dirty, -⟩ := Shelf.get?_of_miss rfl miss parsed
    have left := (Shelf.opened path fingerprint a.tree).leftBy_shelfAfter Settings.defaults a
    rw [Shelf.save, dirty, left.path, Shelf.path_opened]
    exact ⟨_, _, rfl, rfl⟩
  exact ⟨_, _, _, reaches_second_run hashed written untouched, rfl,
    Shelf.hit_of_saved absent rfl parsed written untouched (by decide +kernel)⟩

/-- In the second run the answer comes from the shelf. -/
theorem answer_alike_second_run : ∃ (w : World) (s : Shelf),
    Relation.ReflTransGen (World.Step ⟨[], ["c.json".toList]⟩ (· = Settings.defaults) (· = "p.php".toList))
      { tree := Rerun.unordered } w
    ∧ w.run = some (Settings.defaults, s)
    ∧ Event.cacheHit "p.php" ∈ Ask.events Settings.defaults s { tree := w.tree, filename := "p.php" }
    ∧ Agree Document.Alike (Ask.answer Settings.defaults s { tree := w.tree, filename := "p.php" })
      (Ask.afresh Settings.defaults { tree := w.tree, filename := "p.php" }) := by
  obtain ⟨w, s, d, history, running, hit⟩ := World.exists_second_run
  refine ⟨w, s, history, running, ?_, ?_⟩
  · rw [Ask.events, hit.ofFile]
    exact List.mem_singleton_self _
  · refine answer_alike ?_ ?_ ?_ ?_ history running rfl {}
    · rintro settings rfl
      decide +kernel
    · rintro v w rfl rfl s t left right -
      rw [Except.ok.inj (left.symm.trans right)]
    · rintro a b rfl rfl -
      rfl
    · decide +kernel

end Marginalia
