import Marginalia.Proofs.Collected
import Marginalia.Proofs.Shelf

/-!
# Requests to a shelf

What one request to a shelf comes to: a document that the shelf has kept, or the same answer as without a shelf.
From this follows what a list of requests leaves on the shelf.
-/

namespace Marginalia

/-- The document is what is read afresh from a file. -/
def Document.ParsedFrom (tree : FileTree) (settings : Value) (filename : Text) (d : Document) : Prop :=
  ∃ profile noted, profileOfFile tree settings filename = .ok (.inr profile)
    ∧ parseFile tree settings profile (Path.ofText filename) false = (.ok d, noted)

/-- A profile is found for a file that is there and has an extension with a profile. -/
theorem Document.profileOfFile_eq_inr {tree : FileTree} {settings : Value} {filename : Text} {profile : Profile} :
    profileOfFile tree settings filename = .ok (.inr profile) ↔
      (∃ debug, Settings.debug settings = .ok debug) ∧ tree.isFile (Path.ofText filename) = true
        ∧ Settings.profileFor? settings (Path.ofText filename).extension = .ok (some profile) := by
  constructor
  · intro known
    obtain ⟨debug, asked, known⟩ := Fallible.bind_eq_ok.mp known
    dsimp only at known
    cases there : tree.isFile (Path.ofText filename) with
    | false =>
      rw [there] at known
      cases known
    | true =>
      rw [there] at known
      obtain ⟨found, read, known⟩ := Fallible.bind_eq_ok.mp known
      cases found with
      | none => cases known
      | some other =>
        cases known
        exact ⟨⟨debug, asked⟩, rfl, read⟩
  · rintro ⟨⟨debug, asked⟩, there, read⟩
    simp only [profileOfFile, asked, there, read]
    rfl

/-- What a source has that can be read. -/
theorem Source.load_eq_ok {tree : FileTree} {p : Path} {source : Source} (loaded : Source.load tree p = .ok source) :
    ∃ content, tree.read p = .ok content ∧ source.filename = p.toText
      ∧ source.content = (Bytes.decodeLossy content).unifyNewlines := by
  obtain ⟨content, read, rest⟩ := Fallible.bind_eq_ok.mp loaded
  refine ⟨content, read, ?_⟩
  split at rest
  · cases rest
    exact ⟨rfl, rfl⟩
  · exact absurd rest Fallible.throw_ne_ok

theorem Source.exists_load {tree : FileTree} {p : Path} {content : Bytes} (read : tree.read p = .ok content) :
    ∃ source, Source.load tree p = .ok source := by
  obtain ⟨stamp, there⟩ := FileTree.at?_of_read read
  have time : tree.stamp? p = some stamp := congrArg (Option.map Node.stamp) there
  simp only [Source.load, read, bind, Except.bind, time]
  exact ⟨_, rfl⟩

theorem Document.selected_of_parsedFrom {tree : FileTree} {settings : Value} {filename : Text} {d : Document}
    (parsed : ParsedFrom tree settings filename d) : d.selected = none := by
  obtain ⟨profile, noted, -, read⟩ := parsed
  unfold parseFile at read
  split at read
  · cases read
  · obtain ⟨collected, -⟩ := Prod.mk.inj read
    rw [show ({ summaryOnly := false } : Request) = { lookup := [] } from rfl, ofCollected_eq] at collected
    obtain ⟨debug, -, collected⟩ := Fallible.bind_eq_ok.mp collected
    obtain ⟨rules, -, collected⟩ := Fallible.bind_eq_ok.mp collected
    obtain ⟨problems, -, collected⟩ := Fallible.bind_eq_ok.mp collected
    cases collected
    rfl

/-- A document from the shelf is the document that was put on it, with its maps as they were stored, but for its
    trace. -/
theorem Document.exists_lookingFor_stored (inOrder : Bool) (settings : Value) (lookup : Text) {d : Document}
    (whole : d.selected = none) :
    ∃ trace, lookingFor lookup (noteCache settings (d.stored.ordered inOrder).detached)
      = { (lookingFor lookup d).ordered inOrder with debug := trace } := by
  have noted : ∃ trace, noteCache settings (d.stored.ordered inOrder).detached
      = { d.ordered inOrder with debug := trace } := by
    have plain : (d.stored.ordered inOrder).detached = { d.ordered inOrder with debug := [] } := by
      simp [Document.stored, Document.ordered, detached, whole]
    rw [plain]
    unfold noteCache
    split
    · exact ⟨_, rfl⟩
    · exact ⟨_, rfl⟩
  obtain ⟨trace, noted⟩ := noted
  refine ⟨trace, ?_⟩
  rw [noted]
  unfold lookingFor
  split
  · rfl
  · rw [← select_ordered]
    unfold select
    rw [show ({ d.ordered inOrder with debug := trace } : Document).position? lookup
      = (d.ordered inOrder).position? lookup from rfl]
    split <;> rfl

/-- A request for the document of a file, with the files as they are when it is made. -/
structure Ask where
  tree : FileTree
  filename : Text
  request : Request := {}

namespace Ask

/-- The answer to a request without a cache. -/
def afresh (settings : Value) (a : Ask) : Except Fault Document :=
  (Document.ofFile a.tree settings .off a.filename a.request).1

/-- The answer to a request with a shelf. -/
def answer (settings : Value) (s : Shelf) (a : Ask) : Except Fault Document :=
  (Document.ofFile a.tree settings (.shelf s) a.filename a.request).1

/-- The shelf after a request. -/
def shelfAfter (settings : Value) (s : Shelf) (a : Ask) : Shelf :=
  match (Document.ofFile a.tree settings (.shelf s) a.filename a.request).2.1 with
  | .shelf s' => s'
  | _ => s

/-- What is told of a request. -/
def events (settings : Value) (s : Shelf) (a : Ask) : List Event :=
  (Document.ofFile a.tree settings (.shelf s) a.filename a.request).2.2

/-- The source has the time that it had in another tree, if the request is for the same file. -/
def Undisturbed (before : FileTree) (filename : Text) (a : Ask) : Prop :=
  a.filename.lower = filename.lower →
    a.filename = filename ∧ (Shelf.modified before filename).same (Shelf.modified a.tree filename) = true

end Ask

namespace Shelf

theorem get_cases (s : Shelf) (tree : FileTree) (name : Text) :
    (∃ d, s.get tree name = (some d, s, []))
      ∨ ∃ s' events, s.get tree name = (none, s', events) ∧ (s' = s ∨ s' = s.drop name) := by
  unfold Shelf.get
  rcases s.consult_cases name (modified tree name) with ⟨_, r, -, -, found⟩ | ⟨-, found⟩ | ⟨_, _, -, -, -, found⟩
  · rw [found]
    dsimp only
    split
    · exact .inl ⟨_, rfl⟩
    · exact .inr ⟨_, _, rfl, .inr rfl⟩
  · rw [found]
    exact .inr ⟨_, _, rfl, .inl rfl⟩
  · rw [found]
    exact .inr ⟨_, _, rfl, .inr rfl⟩

/-- The shelf has a document for the request. -/
def Hit (settings : Value) (s : Shelf) (a : Ask) (d : Document) : Prop :=
  (∃ profile, Document.profileOfFile a.tree settings a.filename = .ok (.inr profile))
    ∧ a.request.summaryOnly = false ∧ s.get a.tree a.filename = (some d, s, [])

theorem Hit.ofFile {settings : Value} {s : Shelf} {a : Ask} {d : Document} (hit : s.Hit settings a d) :
    Document.ofFile a.tree settings (.shelf s) a.filename a.request
      = (.ok (Document.lookingFor a.request.lookup (Document.noteCache settings d.detached)), .shelf s,
          [.cacheHit a.filename]) := by
  obtain ⟨⟨profile, known⟩, whole, kept⟩ := hit
  simp [Document.ofFile, known, whole, Cache.get, kept]

/-- What can become of a shelf by a request. It changes only if nothing is found on it: an entry that does not count
    is thrown away, and what is read afresh is put in. -/
def LeftBy (settings : Value) (s : Shelf) (a : Ask) (s' : Shelf) : Prop :=
  s' = s ∨ (s.get a.tree a.filename).1 = none
    ∧ (s' = s.drop a.filename ∨ ∃ d, Document.ParsedFrom a.tree settings a.filename d
      ∧ (s' = s.put a.tree a.filename d ∨ s' = (s.drop a.filename).put a.tree a.filename d))

/-- A request finds a document on the shelf, or is answered as without a shelf. -/
theorem answer_cases (settings : Value) (s : Shelf) (a : Ask) :
    (∃ d, s.Hit settings a d)
      ∨ a.answer settings s = a.afresh settings ∧ s.LeftBy settings a (a.shelfAfter settings s) := by
  unfold Ask.answer Ask.afresh Ask.shelfAfter Document.ofFile
  cases known : Document.profileOfFile a.tree settings a.filename with
  | error fault => exact .inr ⟨rfl, .inl rfl⟩
  | ok found =>
    cases found with
    | inl d => exact .inr ⟨rfl, .inl rfl⟩
    | inr profile =>
      cases whole : a.request.summaryOnly with
      | true => exact .inr ⟨rfl, .inl rfl⟩
      | false =>
        rcases s.get_cases a.tree a.filename with ⟨d, kept⟩ | ⟨s', told, kept, left⟩
        · exact .inl ⟨d, ⟨profile, known⟩, whole, kept⟩
        · right
          have miss : (s.get a.tree a.filename).1 = none := by rw [kept]
          simp only [Bool.false_eq_true, if_false, Cache.get, kept]
          cases parsed : Document.parseFile a.tree settings profile (Path.ofText a.filename) false with
          | mk result noted =>
            cases result with
            | error fault => exact ⟨rfl, left.imp_right fun dropped => ⟨miss, .inl dropped⟩⟩
            | ok d =>
              refine ⟨rfl, .inr ⟨miss, .inr ⟨d, ⟨profile, noted, known, parsed⟩, ?_⟩⟩⟩
              rcases left with rfl | rfl
              · exact .inl rfl
              · exact .inr rfl

theorem Hit.shelfAfter {settings : Value} {s : Shelf} {a : Ask} {d : Document} (hit : s.Hit settings a d) :
    a.shelfAfter settings s = s := by
  unfold Ask.shelfAfter
  rw [hit.ofFile]

theorem leftBy_shelfAfter (settings : Value) (s : Shelf) (a : Ask) : s.LeftBy settings a (a.shelfAfter settings s) := by
  rcases s.answer_cases settings a with ⟨d, hit⟩ | ⟨-, left⟩
  · exact .inl hit.shelfAfter
  · exact left

/-! ## What a request leaves alone -/

section Left

variable {settings : Value} {s s' : Shelf} {a : Ask}

theorem LeftBy.path (left : s.LeftBy settings a s') : s'.path = s.path := by
  rcases left with rfl | ⟨-, rfl | ⟨d, -, rfl | rfl⟩⟩ <;> rfl

theorem LeftBy.fingerprint (left : s.LeftBy settings a s') : s'.fingerprint = s.fingerprint := by
  rcases left with rfl | ⟨-, rfl | ⟨d, -, rfl | rfl⟩⟩ <;> rfl

theorem LeftBy.dirty (left : s.LeftBy settings a s') (dirty : s.dirty = true) : s'.dirty = true := by
  rcases left with rfl | ⟨-, rfl | ⟨d, -, rfl | rfl⟩⟩
  · exact dirty
  · rfl
  · rfl
  · rfl

/-- A property of all entries is kept if it holds of what is read afresh. -/
theorem LeftBy.each {P : Text → Value → Prop} (left : s.LeftBy settings a s') (each : s.Each P)
    (new : ∀ d, Document.ParsedFrom a.tree settings a.filename d → P a.filename.lower (entry a.tree a.filename d)) :
    s'.Each P := by
  rcases left with rfl | ⟨-, rfl | ⟨d, parsed, rfl | rfl⟩⟩
  · exact each
  · exact each.drop _
  · exact each.put (new d parsed)
  · exact (each.drop _).put (new d parsed)

theorem LeftBy.get?_of_ne (left : s.LeftBy settings a s') {key : Text} (other : a.filename.lower ≠ key) :
    s'.entries.get? key = s.entries.get? key := by
  have dropped : (s.drop a.filename).entries.get? key = s.entries.get? key := Entries.get?_erase_of_ne _ other
  have put : ∀ (t : Shelf) (d : Document), (t.put a.tree a.filename d).entries.get? key = t.entries.get? key :=
    fun t d => (Entries.get?_insert ..).trans (if_neg other)
  rcases left with rfl | ⟨-, rfl | ⟨d, -, rfl | rfl⟩⟩
  · rfl
  · exact dropped
  · exact put s d
  · exact (put _ d).trans dropped

end Left

/-- A request that finds nothing and reads the file puts its document on the shelf. -/
theorem get?_of_miss {settings : Value} {s : Shelf} {a : Ask} {d : Document} (whole : a.request.summaryOnly = false)
    (miss : (s.get a.tree a.filename).1 = none) (parsed : Document.ParsedFrom a.tree settings a.filename d) :
    a.answer settings s = .ok (Document.lookingFor a.request.lookup d)
      ∧ (a.shelfAfter settings s).dirty = true
      ∧ (a.shelfAfter settings s).entries.get? a.filename.lower = some (entry a.tree a.filename d) := by
  obtain ⟨profile, noted, known, read⟩ := parsed
  rcases s.get_cases a.tree a.filename with ⟨kept, hit⟩ | ⟨s', told, nothing, -⟩
  · rw [hit] at miss
    cases miss
  · unfold Ask.answer Ask.shelfAfter Document.ofFile
    simp only [known, whole, Cache.get, nothing, read, Bool.false_eq_true, if_false, Cache.put]
    exact ⟨trivial, rfl, (Entries.get?_insert ..).trans (if_pos rfl)⟩

/-- An entry stays on the shelf as long as its source is undisturbed. -/
theorem get?_shelfAfter {settings : Value} {s : Shelf} {a : Ask} {before : FileTree} {name : Text} {d : Document}
    {inOrder : Bool} (kept : s.entries.get? name.lower = some ((entry before name d).ordered inOrder))
    (undisturbed : a.Undisturbed before name) :
    (a.shelfAfter settings s).entries.get? name.lower = some ((entry before name d).ordered inOrder) := by
  by_cases same : a.filename.lower = name.lower
  · obtain ⟨rfl, time⟩ := undisturbed same
    have found : s.get a.tree a.filename = _ := get_of_entry kept
    rw [if_pos time] at found
    rcases s.leftBy_shelfAfter settings a with unchanged | ⟨miss, -⟩
    · rw [unchanged, kept]
    · rw [found] at miss
      cases miss
  · rw [(s.leftBy_shelfAfter settings a).get?_of_ne same, kept]

/-! ## Lists of requests -/

/-- The shelf after some requests. -/
def afterAsks (settings : Value) (s : Shelf) (asks : List Ask) : Shelf :=
  asks.foldl (fun s a => a.shelfAfter settings s) s

section Asks

variable {settings : Value} {s : Shelf}

theorem path_afterAsks (asks : List Ask) : (s.afterAsks settings asks).path = s.path := by
  induction asks generalizing s with
  | nil => rfl
  | cons a rest ih => exact ih.trans (s.leftBy_shelfAfter settings a).path

theorem fingerprint_afterAsks (asks : List Ask) : (s.afterAsks settings asks).fingerprint = s.fingerprint := by
  induction asks generalizing s with
  | nil => rfl
  | cons a rest ih => exact ih.trans (s.leftBy_shelfAfter settings a).fingerprint

theorem dirty_afterAsks (dirty : s.dirty = true) (asks : List Ask) : (s.afterAsks settings asks).dirty = true := by
  induction asks generalizing s with
  | nil => exact dirty
  | cons a rest ih => exact ih ((s.leftBy_shelfAfter settings a).dirty dirty)

theorem wellFormed_afterAsks (each : s.Each fun _ => Value.WellFormed) (asks : List Ask) :
    (s.afterAsks settings asks).Each fun _ => Value.WellFormed := by
  induction asks generalizing s with
  | nil => exact each
  | cons a rest ih =>
    exact ih ((s.leftBy_shelfAfter settings a).each each fun d _ => wellFormed_entry a.tree a.filename d)

theorem get?_afterAsks {before : FileTree} {name : Text} {d : Document} {inOrder : Bool}
    (kept : s.entries.get? name.lower = some ((entry before name d).ordered inOrder)) {asks : List Ask}
    (undisturbed : ∀ a ∈ asks, a.Undisturbed before name) :
    (s.afterAsks settings asks).entries.get? name.lower = some ((entry before name d).ordered inOrder) := by
  induction asks generalizing s with
  | nil => exact kept
  | cons a rest ih =>
    obtain ⟨first, others⟩ := List.forall_mem_cons.mp undisturbed
    exact ih (get?_shelfAfter kept first) others

end Asks

/-- The shelf of a run after some requests. -/
def inRun (path : Path) (settings : Value) (fingerprint : Text) (start : FileTree) (asks : List Ask) : Shelf :=
  (opened path fingerprint start).afterAsks settings asks

section Run

variable (path : Path) (settings : Value) (fingerprint : Text) (start : FileTree) (asks : List Ask)

theorem path_inRun : (inRun path settings fingerprint start asks).path = path :=
  (path_afterAsks asks).trans (path_opened ..)

theorem fingerprint_inRun : (inRun path settings fingerprint start asks).fingerprint = fingerprint :=
  (fingerprint_afterAsks asks).trans (fingerprint_opened ..)

end Run

end Shelf

end Marginalia
