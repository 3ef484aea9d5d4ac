import Marginalia.Proofs.History

/-!
# Edits while a file is read

A request that finds nothing on the shelf reads its file, asks for the time of the file, makes the document and puts
it on the shelf, and the shelf asks for the time of the file again. Here any number of requests for one file take
these steps one at a time, and between any two steps the file may be edited. The time of an entry is the time that
the file has when the document is put in, while the document is that of the moment when the file was read. So an edit
after the put is noticed by the next request, and an edit between the read and the put is not: the entry then answers
with the old document for as long as the file stays as it is.
-/

namespace Marginalia

open Fallible

/-! ## Documents by the content of their files -/

/-- Files of this name have a profile. -/
def Document.Supported (settings : Value) (filename : Text) (profile : Profile) : Prop :=
  (∃ debug, Settings.debug settings = .ok debug)
    ∧ Settings.profileFor? settings (Path.ofText filename).extension = .ok (some profile)

/-- The text that can be read at a path. -/
def FileTree.Shows (tree : FileTree) (p : Path) (content : Text) : Prop :=
  ∃ octets, tree.read p = .ok octets ∧ content = (Bytes.decodeLossy octets).unifyNewlines

theorem FileTree.isFile_of_shows {tree : FileTree} {p : Path} {content : Text} (shown : tree.Shows p content) :
    tree.isFile p = true := by
  obtain ⟨octets, given, -⟩ := shown
  obtain ⟨stamp, there⟩ := FileTree.at?_of_read given
  exact FileTree.isFile_iff.mpr ⟨octets, stamp, there⟩

/-- The document that is read from a file depends on the content of the file only. -/
theorem Document.parsedFrom_iff {tree : FileTree} {settings : Value} {filename : Text} {d : Document} :
    ParsedFrom tree settings filename d ↔
      ∃ profile content, Supported settings filename profile ∧ tree.Shows (Path.ofText filename) content
        ∧ ofSource profile settings (Path.ofText filename).toText content {} = .ok d := by
  constructor
  · rintro ⟨profile, noted, known, parsed⟩
    obtain ⟨debug, -, found⟩ := profileOfFile_eq_inr.mp known
    unfold parseFile at parsed
    cases loaded : Source.load tree (Path.ofText filename) with
    | error fault =>
      rw [loaded] at parsed
      cases parsed
    | ok source =>
      rw [loaded] at parsed
      obtain ⟨octets, given, named, text⟩ := Source.load_eq_ok loaded
      have made := (Prod.mk.inj parsed).1
      rw [named] at made
      exact ⟨profile, source.content, ⟨debug, found⟩, ⟨octets, given, text⟩, made⟩
  · rintro ⟨profile, content, ⟨debug, found⟩, shown, made⟩
    have known := profileOfFile_eq_inr.mpr ⟨debug, FileTree.isFile_of_shows shown, found⟩
    obtain ⟨octets, given, rfl⟩ := shown
    obtain ⟨source, loaded⟩ := Source.exists_load given
    obtain ⟨octets', given', named, text⟩ := Source.load_eq_ok loaded
    obtain rfl : octets' = octets := Except.ok.inj (given'.symm.trans given)
    refine ⟨profile, (parseFile tree settings profile (Path.ofText filename) false).2, known, Prod.ext ?_ rfl⟩
    rw [parseFile, loaded]
    rw [← named, ← text] at made
    exact made

/-- A file that is read has a document with what is found in it. -/
theorem Document.exists_parsedFrom {tree : FileTree} {settings : Value} {filename : Text} {profile : Profile}
    (holds : Document → Bool) (known : profileOfFile tree settings filename = .ok (.inr profile))
    (found : (parseFile tree settings profile (Path.ofText filename) false).1.toOption.any holds = true) :
    ∃ d, ParsedFrom tree settings filename d ∧ holds d = true := by
  cases parsed : parseFile tree settings profile (Path.ofText filename) false with
  | mk result noted =>
    rw [parsed] at found
    cases result with
    | error fault => cases found
    | ok d => exact ⟨d, ⟨profile, noted, known, parsed⟩, found⟩

/-- Files with the same content have the same document. -/
theorem Document.ParsedFrom.of_read {before tree : FileTree} {settings : Value} {filename : Text} {d : Document}
    (parsed : ParsedFrom before settings filename d)
    (same : tree.read (Path.ofText filename) = before.read (Path.ofText filename)) :
    ParsedFrom tree settings filename d := by
  obtain ⟨profile, content, supported, ⟨octets, given, text⟩, made⟩ := parsedFrom_iff.mp parsed
  exact parsedFrom_iff.mpr ⟨profile, content, supported, ⟨octets, same.trans given, text⟩, made⟩

/-- A file has one document. -/
theorem Document.ParsedFrom.unique {tree : FileTree} {settings : Value} {filename : Text} {d d' : Document}
    (parsed : ParsedFrom tree settings filename d) (parsed' : ParsedFrom tree settings filename d') : d = d' := by
  obtain ⟨profile, noted, known, read⟩ := parsed
  obtain ⟨profile', noted', known', read'⟩ := parsed'
  obtain rfl : profile = profile' := Sum.inr.inj (Except.ok.inj (known.symm.trans known'))
  exact Except.ok.inj (Prod.mk.inj (read.symm.trans read')).1

/-- The answer of an entry with its maps as they were put in. -/
theorem Shelf.get_of_kept {s : Shelf} {stored : FileTree} {filename : Text} {d : Document}
    (kept : s.entries.get? filename.lower = some (entry stored filename d)) (tree : FileTree) :
    s.get tree filename
      = if (modified stored filename).same (modified tree filename) then (some d.stored, s, [])
        else (none, s.drop filename, [.staleEntry filename]) := by
  have asStored : s.entries.get? filename.lower = some ((entry stored filename d).ordered false) := kept
  rw [get_of_entry asStored, Document.ordered_false]

/-! ## Requests in progress -/

/-- How far a request for a file has come. -/
inductive Call where
  /-- The file is there and has a profile. -/
  | begun
  /-- There is nothing on the shelf. -/
  | missed
  /-- The file has been read. -/
  | read (content : Text)
  /-- The time of the file is known too. -/
  | loaded (source : Source)
  /-- The document has been made and is to be put on the shelf. -/
  | parsed (d : Document)

/-- The next step of a request that does not need the shelf; the others stay as they are. -/
def Call.turn (settings : Value) (profile : Profile) (p : Path) (tree : FileTree) : Call → Except Fault Call
  | .missed => tree.read p >>= fun octets => .ok (.read (Bytes.decodeLossy octets).unifyNewlines)
  | .read content =>
    match tree.stamp? p with
    | some stamp => .ok (.loaded ⟨p.toText, content, stamp.toSeconds⟩)
    | none => .error .noSuchFile
  | .loaded source =>
    Document.ofSource profile settings source.filename source.content {} >>= fun d => .ok (.parsed d)
  | .begun => .ok .begun
  | .parsed d => .ok (.parsed d)

/-- The three steps at one moment read the document of the file. -/
theorem Call.turns_missed (settings : Value) (profile : Profile) (p : Path) (tree : FileTree) :
    (Call.turn settings profile p tree .missed >>= turn settings profile p tree >>= turn settings profile p tree)
      = ((Document.parseFile tree settings profile p false).1 >>= fun d => .ok (.parsed d)) := by
  unfold Document.parseFile Source.load
  cases given : tree.read p with
  | error fault =>
    simp only [turn, given]
    rfl
  | ok octets =>
    simp only [turn, given, ok_bind]
    cases tree.stamp? p with
    | none => rfl
    | some stamp => rfl

/-- The files over time, a shelf, and the requests in progress for one file. -/
structure Scene where
  files : World
  shelf : Shelf
  calls : List Call := []

namespace Scene

/-- A path that leads anywhere leads to a file. -/
def Plain (filename : Text) (tree : FileTree) : Prop :=
  ∀ stamp, tree.stamp? (Path.ofText filename) = some stamp → tree.isFile (Path.ofText filename) = true

section Steps

variable (settings : Value) (profile : Profile) (filename : Text)

/-- What happens one thing at a time. -/
inductive Step : Scene → Scene → Prop where
  /-- The file is made, edited or removed, or other files change. -/
  | edit {w : Scene} {tree : FileTree} (fresh : w.files.Fresh (· = filename) tree) (plain : Plain filename tree) :
    Step w { w with files := w.files.become tree }
  /-- A request begins. -/
  | begin {w : Scene} (known : Document.profileOfFile w.files.tree settings filename = .ok (.inr profile)) :
    Step w { w with calls := .begun :: w.calls }
  /-- A request is answered from the shelf. -/
  | answer {w : Scene} {front back : List Call} {d : Document} (calling : w.calls = front ++ .begun :: back)
    (hit : (w.shelf.get w.files.tree filename).1 = some d) : Step w { w with calls := front ++ back }
  /-- A request finds nothing on the shelf. -/
  | miss {w : Scene} {front back : List Call} (calling : w.calls = front ++ .begun :: back)
    (missed : (w.shelf.get w.files.tree filename).1 = none) :
    Step w { w with shelf := (w.shelf.get w.files.tree filename).2.1, calls := front ++ .missed :: back }
  /-- A request goes on. -/
  | turn {w : Scene} {front back : List Call} {c c' : Call} (calling : w.calls = front ++ c :: back)
    (turned : c.turn settings profile (Path.ofText filename) w.files.tree = .ok c') :
    Step w { w with calls := front ++ c' :: back }
  /-- A request fails. -/
  | fail {w : Scene} {front back : List Call} {c : Call} {fault : Fault} (calling : w.calls = front ++ c :: back)
    (failed : c.turn settings profile (Path.ofText filename) w.files.tree = .error fault) :
    Step w { w with calls := front ++ back }
  /-- A request puts its document on the shelf. -/
  | put {w : Scene} {front back : List Call} {d : Document} (calling : w.calls = front ++ .parsed d :: back) :
    Step w { w with shelf := w.shelf.put w.files.tree filename d, calls := front ++ back }
  /-- The shelf is used for other files. -/
  | other {w : Scene} {s : Shelf} (apart : s.entries.get? filename.lower = w.shelf.entries.get? filename.lower) :
    Step w { w with shelf := s }

end Steps

/-! ## What every run of steps keeps -/

section Invariant

variable {settings : Value} {profile : Profile} {filename : Text} {w w' : Scene}

/-- What a request in progress has in hand was there at some moment. -/
def Progress (settings : Value) (filename : Text) (files : World) : Call → Prop
  | .begun => True
  | .missed => True
  | .read content => ∃ seen ∈ files.moments, seen.Shows (Path.ofText filename) content
  | .loaded source => source.filename = (Path.ofText filename).toText
    ∧ ∃ seen ∈ files.moments, seen.Shows (Path.ofText filename) source.content
  | .parsed d => ∃ seen ∈ files.moments, Document.ParsedFrom seen settings filename d

/-- An entry holds the document of a moment not later than that of its time. -/
def Noted (settings : Value) (filename : Text) (files : World) (v : Value) : Prop :=
  ∃ later stored earlier, files.moments = later ++ stored :: earlier
    ∧ ∃ seen ∈ stored :: earlier, ∃ d, Document.ParsedFrom seen settings filename d
      ∧ v = Shelf.entry stored filename d

/-- What holds all the time. -/
structure Sound (settings : Value) (profile : Profile) (filename : Text) (w : Scene) : Prop where
  timed : w.files.Timed (· = filename)
  plain : ∀ before ∈ w.files.moments, Plain filename before
  shelf : w.shelf.Each fun key v => key = filename.lower → Noted settings filename w.files v
  calls : ∀ c ∈ w.calls, Document.Supported settings filename profile ∧ Progress settings filename w.files c

theorem Progress.become {files : World} {c : Call} (progress : Progress settings filename files c)
    (tree : FileTree) : Progress settings filename (files.become tree) c := by
  have more := files.subset_become tree
  cases c with
  | begun => trivial
  | missed => trivial
  | read content =>
    obtain ⟨seen, moment, shown⟩ := progress
    exact ⟨seen, more moment, shown⟩
  | loaded source =>
    obtain ⟨named, seen, moment, shown⟩ := progress
    exact ⟨named, seen, more moment, shown⟩
  | parsed d =>
    obtain ⟨seen, moment, parsed⟩ := progress
    exact ⟨seen, more moment, parsed⟩

theorem Noted.become {files : World} {v : Value} (noted : Noted settings filename files v) (tree : FileTree) :
    Noted settings filename (files.become tree) v := by
  obtain ⟨later, stored, earlier, order, rest⟩ := noted
  exact ⟨tree :: later, stored, earlier, congrArg (tree :: ·) order, rest⟩

theorem Progress.turn {files : World} {c c' : Call} (supported : Document.Supported settings filename profile)
    (progress : Progress settings filename files c)
    (turned : c.turn settings profile (Path.ofText filename) files.tree = .ok c') :
    Progress settings filename files c' := by
  cases c with
  | begun =>
    cases turned
    trivial
  | missed =>
    obtain ⟨octets, given, turned⟩ := bind_eq_ok.mp turned
    cases turned
    exact ⟨files.tree, List.mem_cons_self, octets, given, rfl⟩
  | read content =>
    obtain ⟨seen, moment, shown⟩ := progress
    rw [Call.turn] at turned
    split at turned
    · cases turned
      exact ⟨rfl, seen, moment, shown⟩
    · cases turned
  | loaded source =>
    obtain ⟨named, seen, moment, shown⟩ := progress
    obtain ⟨d, made, turned⟩ := bind_eq_ok.mp turned
    cases turned
    rw [named] at made
    exact ⟨seen, moment, Document.parsedFrom_iff.mpr ⟨profile, source.content, supported, shown, made⟩⟩
  | parsed d =>
    cases turned
    exact progress

/-- One step keeps what holds all the time. -/
theorem Step.sound (step : Step settings profile filename w w') (sound : Sound settings profile filename w) :
    Sound settings profile filename w' := by
  cases step with
  | @edit tree fresh plain =>
    refine ⟨sound.timed.become fresh, ?_, ?_, ?_⟩
    · intro before moment
      rcases List.mem_cons.mp moment with rfl | earlier
      · exact plain
      · exact sound.plain before earlier
    · intro kept member key
      exact (sound.shelf kept member key).become tree
    · intro c member
      exact ⟨(sound.calls c member).1, (sound.calls c member).2.become tree⟩
  | begin known =>
    refine ⟨sound.timed, sound.plain, sound.shelf, ?_⟩
    intro c member
    rcases List.mem_cons.mp member with rfl | before
    · obtain ⟨debug, -, found⟩ := Document.profileOfFile_eq_inr.mp known
      exact ⟨⟨debug, found⟩, trivial⟩
    · exact sound.calls c before
  | answer calling hit =>
    refine ⟨sound.timed, sound.plain, sound.shelf, fun c member => sound.calls c ?_⟩
    grind
  | @miss front back calling missed =>
    have supported := (sound.calls .begun (by simp [calling])).1
    refine ⟨sound.timed, sound.plain, ?_, ?_⟩
    · rcases w.shelf.get_cases w.files.tree filename with ⟨d, kept⟩ | ⟨s, told, kept, rfl | rfl⟩
      · simp only [kept]
        exact sound.shelf
      · simp only [kept]
        exact sound.shelf
      · simp only [kept]
        exact sound.shelf.drop filename
    · intro c member
      have cases : c = .missed ∨ c ∈ w.calls := by grind
      rcases cases with rfl | before
      · exact ⟨supported, trivial⟩
      · exact sound.calls c before
  | @turn front back c c' calling turned =>
    obtain ⟨supported, progress⟩ := sound.calls c (by simp [calling])
    refine ⟨sound.timed, sound.plain, sound.shelf, ?_⟩
    intro x member
    have cases : x = c' ∨ x ∈ w.calls := by grind
    rcases cases with rfl | before
    · exact ⟨supported, progress.turn supported turned⟩
    · exact sound.calls x before
  | fail calling failed =>
    refine ⟨sound.timed, sound.plain, sound.shelf, fun c member => sound.calls c ?_⟩
    grind
  | @put front back d calling =>
    obtain ⟨seen, moment, parsed⟩ := (sound.calls (.parsed d) (by simp [calling])).2
    refine ⟨sound.timed, sound.plain, sound.shelf.put ?_, fun c member => sound.calls c (by grind)⟩
    intro key
    exact ⟨[], w.files.tree, w.files.past, rfl, seen, moment, d, parsed, rfl⟩
  | other apart =>
    refine ⟨sound.timed, sound.plain, ?_, sound.calls⟩
    rintro ⟨key, v⟩ member rfl
    have kept := apart.symm.trans ((Entries.get?_eq_some_iff (Dict.nodup _)).mpr member)
    exact sound.shelf.of_get? kept rfl

/-- The start of a run of steps: the shelf has no entry for the file. -/
structure Start (filename : Text) (w : Scene) : Prop where
  past : w.files.past = []
  plain : Plain filename w.files.tree
  absent : w.shelf.entries.get? filename.lower = none
  idle : w.calls = []

theorem Start.sound (start : Start filename w) : Sound settings profile filename w where
  timed := by
    intro name asked before moment wasFile isFile time
    rw [World.moments, start.past, List.mem_singleton] at moment
    rw [moment]
  plain := by
    intro before moment
    rw [World.moments, start.past, List.mem_singleton] at moment
    exact moment ▸ start.plain
  shelf := by
    rintro ⟨key, v⟩ member rfl
    have kept := (Entries.get?_eq_some_iff w.shelf.entries.nodup).mpr member
    exact absurd (start.absent.symm.trans kept) (by simp)
  calls := by simp [start.idle]

theorem sound_of_steps {start : Scene} (begins : Start filename start)
    (history : Relation.ReflTransGen (Step settings profile filename) start w) : Sound settings profile filename w := by
  induction history with
  | refl => exact begins.sound
  | tail _ step ih => exact step.sound ih

/-! ## What the shelf answers -/

/-- Where the file is there and has the time of an earlier moment, it was there at that moment. -/
theorem isFile_of_same {stored tree : FileTree} (plain : Plain filename stored)
    (isFile : tree.isFile (Path.ofText filename) = true)
    (time : (Shelf.modified stored filename).same (Shelf.modified tree filename) = true) :
    stored.isFile (Path.ofText filename) = true := by
  obtain ⟨content, stamp, there⟩ := FileTree.isFile_iff.mp isFile
  have now : Shelf.modified tree filename = .float stamp.toSeconds := by
    simp only [Shelf.modified, FileTree.stamp?, there, Option.map_some, Node.stamp]
  cases known : stored.stamp? (Path.ofText filename) with
  | some before => exact plain before known
  | none =>
    have nothing : Shelf.modified stored filename = .null := by simp only [Shelf.modified, known]
    rw [nothing, now] at time
    cases time

/-- A document that the shelf answers with was put there with the time that the file still has. -/
theorem Sound.get (sound : Sound settings profile filename w) {d : Document}
    (hit : (w.shelf.get w.files.tree filename).1 = some d) :
    ∃ later stored earlier, w.files.moments = later ++ stored :: earlier
      ∧ ∃ seen ∈ stored :: earlier, ∃ d', Document.ParsedFrom seen settings filename d' ∧ d = d'.stored
        ∧ (Shelf.modified stored filename).same (Shelf.modified w.files.tree filename) = true := by
  cases there : w.shelf.entries.get? filename.lower with
  | none => simp [Shelf.get, Shelf.consult, there] at hit
  | some v =>
    obtain ⟨later, stored, earlier, order, seen, moment, d', parsed, rfl⟩ := sound.shelf.of_get? there rfl
    have found := Shelf.get_of_kept there w.files.tree
    cases time : (Shelf.modified stored filename).same (Shelf.modified w.files.tree filename) with
    | false =>
      rw [found, time] at hit
      cases hit
    | true =>
      rw [found, time] at hit
      cases hit
      exact ⟨later, stored, earlier, order, seen, moment, d', parsed, rfl, time⟩

/-- A document that has been put on the shelf answers for the file with the time that it had then, whatever it had
    when it was read. -/
theorem get_put (s : Shelf) (stored tree : FileTree) (filename : Text) (d : Document) :
    (s.put stored filename d).get tree filename
      = if (Shelf.modified stored filename).same (Shelf.modified tree filename) then
          (some d.stored, s.put stored filename d, [])
        else (none, (s.put stored filename d).drop filename, [.staleEntry filename]) := by
  have kept : (s.put stored filename d).entries.get? filename.lower = some (Shelf.entry stored filename d) :=
    (Entries.get?_insert ..).trans (if_pos rfl)
  exact Shelf.get_of_kept kept tree

/-- A request that finds nothing reads the file, then the file is edited, then the document is put on the shelf. -/
theorem steps_of_edit {d : Document} {tree : FileTree}
    (known : Document.profileOfFile w.files.tree settings filename = .ok (.inr profile))
    (parsed : Document.ParsedFrom w.files.tree settings filename d)
    (missed : (w.shelf.get w.files.tree filename).1 = none) (fresh : w.files.Fresh (· = filename) tree)
    (plain : Plain filename tree) :
    Relation.ReflTransGen (Step settings profile filename) w
      { files := w.files.become tree
        shelf := (w.shelf.get w.files.tree filename).2.1.put tree filename d
        calls := w.calls } := by
  obtain ⟨profile', noted, known', read⟩ := parsed
  obtain rfl : profile = profile' := Sum.inr.inj (Except.ok.inj (known.symm.trans known'))
  have turns := Call.turns_missed settings profile (Path.ofText filename) w.files.tree
  rw [read] at turns
  obtain ⟨second, turned, third⟩ := bind_eq_ok.mp turns
  obtain ⟨first, begun, turned⟩ := bind_eq_ok.mp turned
  have begins := Relation.ReflTransGen.single (Step.begin known)
  have misses := begins.tail (@Step.miss _ _ _ _ [] w.calls rfl missed)
  have reads := misses.tail (@Step.turn _ _ _ _ [] w.calls _ _ rfl begun)
  have times := reads.tail (@Step.turn _ _ _ _ [] w.calls _ _ rfl turned)
  have parses := times.tail (@Step.turn _ _ _ _ [] w.calls _ _ rfl third)
  have edits := parses.tail (Step.edit fresh plain)
  exact edits.tail (@Step.put _ _ _ _ [] w.calls d rfl)

end Invariant

/-- The document that the shelf answers with is the one that the file had when it was read, and the file is as it was
    when the document was put in. It is the document of the file as it is now if no edit fell in between. From the put
    on, the shelf answers with it as long as the file keeps the time that it had at the put, and notices every later
    edit. An edit between the read and the put is never noticed: wherever a request finds nothing on the shelf, such an
    edit leaves the document of the old content on the shelf for the new one. -/
theorem get_while_edited {settings : Value} {profile : Profile} {filename : Text} {start w : Scene}
    (begins : Start filename start) (history : Relation.ReflTransGen (Step settings profile filename) start w) :
    (∀ d, (w.shelf.get w.files.tree filename).1 = some d → w.files.tree.isFile (Path.ofText filename) = true →
      ∃ later stored earlier, w.files.moments = later ++ stored :: earlier
        ∧ ∃ seen ∈ stored :: earlier, ∃ d', Document.ParsedFrom seen settings filename d' ∧ d = d'.stored
          ∧ w.files.tree.read (Path.ofText filename) = stored.read (Path.ofText filename)
          ∧ (stored.read (Path.ofText filename) = seen.read (Path.ofText filename) →
            Document.ParsedFrom w.files.tree settings filename d'))
    ∧ (∀ d, .parsed d ∈ w.calls → (∃ seen ∈ w.files.moments, Document.ParsedFrom seen settings filename d)
      ∧ ∀ tree, (w.shelf.put w.files.tree filename d).get tree filename
        = if (Shelf.modified w.files.tree filename).same (Shelf.modified tree filename) then
            (some d.stored, w.shelf.put w.files.tree filename d, [])
          else (none, (w.shelf.put w.files.tree filename d).drop filename, [.staleEntry filename]))
    ∧ ∀ d tree, Document.profileOfFile w.files.tree settings filename = .ok (.inr profile) →
      Document.ParsedFrom w.files.tree settings filename d → (w.shelf.get w.files.tree filename).1 = none →
      w.files.Fresh (· = filename) tree → Plain filename tree →
      (Shelf.modified tree filename).same (Shelf.modified tree filename) = true →
      ∃ w', Relation.ReflTransGen (Step settings profile filename) w w' ∧ w'.files.tree = tree
        ∧ (w'.shelf.get tree filename).1 = some d.stored := by
  have sound := sound_of_steps begins history
  refine ⟨?_, ?_, ?_⟩
  · intro d hit isFile
    obtain ⟨later, stored, earlier, order, seen, moment, d', parsed, same, time⟩ := sound.get hit
    have among : stored ∈ w.files.moments := by simp [order]
    have wasFile := isFile_of_same (sound.plain stored among) isFile time
    have read := sound.timed filename rfl stored among wasFile isFile time
    refine ⟨later, stored, earlier, order, seen, moment, d', parsed, same, read, ?_⟩
    intro unedited
    exact parsed.of_read (read.trans unedited)
  · intro d member
    exact ⟨(sound.calls _ member).2, fun tree => get_put w.shelf w.files.tree tree filename d⟩
  · intro d tree known parsed missed fresh plain timed
    refine ⟨_, steps_of_edit known parsed missed fresh plain, rfl, ?_⟩
    simp only [get_put, timed, if_true]

/-- A file with a comment of one line. -/
def remark (summary : Text) (seconds : Int) : FileTree where
  nodes := [(["p.php".toList], .file (Text.toUtf8 ("<?php\n/** " ++ summary ++ " */\n")) ⟨seconds, 0⟩)]
  clock := ⟨0, 0⟩

theorem plain_remark (summary : Text) (seconds : Int) : Plain "p.php" (remark summary seconds) :=
  fun _ _ => rfl

theorem profile_remark (summary : Text) (seconds : Int) :
    Document.profileOfFile (remark summary seconds) Settings.defaults "p.php" = .ok (.inr .php) :=
  Document.profileOfFile_eq_inr.mpr ⟨⟨_, rfl⟩, rfl, eq_ok_of_toOption (by decide +kernel)⟩

theorem parsed_remark : ∃ old new, Document.ParsedFrom (remark "Old." 1) Settings.defaults "p.php" old
    ∧ Document.ParsedFrom (remark "New." 2) Settings.defaults "p.php" new
    ∧ old.main.summary = "Old.".toList ∧ new.main.summary = "New.".toList := by
  obtain ⟨old, read, was⟩ := Document.exists_parsedFrom (fun d => decide (d.main.summary = "Old.".toList))
    (profile_remark "Old." 1) (by decide +kernel)
  obtain ⟨new, reread, is⟩ := Document.exists_parsedFrom (fun d => decide (d.main.summary = "New.".toList))
    (profile_remark "New." 2) (by decide +kernel)
  exact ⟨old, new, read, reread, of_decide_eq_true was, of_decide_eq_true is⟩

/-- The comment has changed between the read and the put, and the old one is given for the new one. -/
theorem get_while_edited_remark : ∃ (start w : Scene) (old new : Document),
    Start "p.php" start ∧ Relation.ReflTransGen (Step Settings.defaults .php "p.php") start w
    ∧ Document.ParsedFrom w.files.tree Settings.defaults "p.php" new ∧ new.main.summary = "New.".toList
    ∧ (w.shelf.get w.files.tree "p.php").1 = some old ∧ old.main.summary = "Old.".toList
    ∧ ∃ seen ∈ w.files.moments, ∃ stored ∈ w.files.moments,
      w.files.tree.read (Path.ofText "p.php") = stored.read (Path.ofText "p.php")
      ∧ stored.read (Path.ofText "p.php") ≠ seen.read (Path.ofText "p.php") := by
  obtain ⟨old, new, read, reread, was, is⟩ := parsed_remark
  let start : Scene :=
    { files := { tree := remark "Old." 1 }, shelf := { path := ⟨[], ["c.json".toList]⟩, fingerprint := [] } }
  have begins : Start "p.php" start := ⟨rfl, plain_remark _ _, rfl, rfl⟩
  have fresh : start.files.Fresh (· = "p.php".toList) (remark "New." 2) := by
    rintro _ rfl -
    right
    intro before moment _
    rw [List.mem_singleton.mp moment]
    decide +kernel
  have idle : Relation.ReflTransGen (Step Settings.defaults .php "p.php") start start := .refl
  obtain ⟨-, -, masks⟩ := get_while_edited begins idle
  obtain ⟨w, history, now, hit⟩ := masks old _ (profile_remark _ _) read rfl fresh (plain_remark _ _)
    (by decide +kernel)
  rw [← now] at reread hit
  refine ⟨start, w, old.stored, new, begins, history, reread, is, hit, was, ?_⟩
  obtain ⟨later, stored, earlier, order, seen, moment, d, parsed, same, read, unedited⟩ :=
    (get_while_edited begins history).1 _ hit (now ▸ rfl)
  refine ⟨seen, by rw [order]; exact List.mem_append_right _ moment, stored, by simp [order], read, ?_⟩
  intro alike
  have unchanged := (unedited alike).unique reread
  have summary : old.main.summary = d.main.summary := congrArg (·.main.summary) same
  rw [was, unchanged, is] at summary
  cases summary

end Scene

end Marginalia
