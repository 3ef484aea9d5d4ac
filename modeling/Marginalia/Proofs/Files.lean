import Marginalia.Files.Tree
import Marginalia.Proofs.Fallible
import Marginalia.Proofs.Printed
import Marginalia.Proofs.Utf8

/-!
# Files that are written and read

What is written to a file is what is read from it: writing changes nothing on the way to the file, since that way
goes through directories only.
-/

namespace Marginalia.FileTree

open Fallible

/-- A place where a file can be written. -/
def Writable (t : FileTree) (place : Place) : Prop := ∀ stamp, t.node? place ≠ some (.directory stamp)

theorem Writable.ne_top {t : FileTree} {place : Place} (writable : t.Writable place) : place ≠ [] := by
  rintro rfl
  exact writable t.clock rfl

theorem node?_put {t : FileTree} {place : Place} (below : place ≠ []) (node : Node) (other : Place) :
    (t.put place node).node? other = if place = other then some node else t.node? other := by
  unfold node?
  cases other with
  | nil => simp [below, put]
  | cons name rest => simp only [List.isEmpty_cons, Bool.false_eq_true, if_false, put, find?_putIn]

theorem follow_put {t : FileTree} {place : Place} (writable : t.Writable place) (node : Node) {here target : Place}
    {names : List Text} (reached : t.follow here names = .ok target) :
    (t.put place node).follow here names = .ok target := by
  induction names generalizing here with
  | nil => exact reached
  | cons name rest ih =>
    rw [follow] at reached ⊢
    cases found : t.node? here with
    | none => simp [found] at reached
    | some old =>
      cases old with
      | file content stamp => simp [found] at reached
      | directory stamp =>
        -- the way leads through a directory, and that is not where the file is
        have elsewhere : place ≠ here := by
          rintro rfl
          exact writable stamp found
        rw [node?_put writable.ne_top, if_neg elsewhere]
        simp only [found] at reached ⊢
        exact ih reached

/-- What writing does if it succeeds. -/
theorem write_eq_ok {t t' : FileTree} {p : Path} {content : Bytes} (written : t.write p content = .ok t') :
    ∃ place, t.locate p = .ok place ∧ t.Writable place ∧ t' = t.put place (.file content t.clock) := by
  obtain ⟨place, located, rest⟩ := bind_eq_ok.mp written
  refine ⟨place, located, ?_, ?_⟩
  · intro stamp directory
    simp [directory] at rest
  · split at rest
    · exact absurd rest throw_ne_ok
    · exact (Except.ok.inj rest).symm

theorem locate_write {t t' : FileTree} {p : Path} {content : Bytes} (written : t.write p content = .ok t') :
    ∃ place, t'.locate p = .ok place ∧ t'.node? place = some (.file content t.clock) := by
  obtain ⟨place, located, writable, rfl⟩ := write_eq_ok written
  refine ⟨place, follow_put writable _ located, ?_⟩
  rw [node?_put writable.ne_top, if_pos rfl]

theorem read_write {t t' : FileTree} {p : Path} {content : Bytes} (written : t.write p content = .ok t') :
    t'.read p = .ok content := by
  obtain ⟨place, located, found⟩ := locate_write written
  simp only [read, located, bind, Except.bind, found]
  rfl

theorem readText_of_read {t : FileTree} {p : Path} {text : Text} (printed : text.Printed)
    (content : t.read p = .ok text.toUtf8) : t.readText p = .ok text := by
  simp only [readText, content, bind, Except.bind, Bytes.decode?_toUtf8,
    Text.unifyNewlines_of_printed printed]
  rfl

theorem at?_of_read {t : FileTree} {p : Path} {content : Bytes} (given : t.read p = .ok content) :
    ∃ stamp, t.at? p = some (.file content stamp) := by
  obtain ⟨place, located, rest⟩ := bind_eq_ok.mp given
  rw [at?, located]
  cases found : t.node? place with
  | none => simp [found] at rest
  | some node =>
    cases node with
    | directory stamp => simp [found] at rest
    | file other stamp =>
      simp only [found] at rest
      cases rest
      exact ⟨stamp, found⟩

theorem read_of_at? {t : FileTree} {p : Path} {content : Bytes} {stamp : Stamp}
    (there : t.at? p = some (.file content stamp)) : t.read p = .ok content := by
  unfold at? at there
  cases located : t.locate p with
  | error fault =>
    rw [located] at there
    cases there
  | ok place =>
    rw [located] at there
    have found : t.node? place = some (.file content stamp) := there
    simp only [read, located, bind, Except.bind, found]
    rfl

theorem isFile_iff {t : FileTree} {p : Path} :
    t.isFile p = true ↔ ∃ content stamp, t.at? p = some (.file content stamp) := by
  unfold isFile
  cases t.at? p with
  | none => simp
  | some node => cases node <;> simp [Node.isFile]

/-! ## Files in a directory -/

theorem follow_append (t : FileTree) (here : Place) (names more : List Text) :
    t.follow here (names ++ more) = t.follow here names >>= fun there => t.follow there more := by
  induction names generalizing here with
  | nil => rfl
  | cons name rest ih =>
    rw [List.cons_append, follow, follow]
    split
    · exact ih _
    · rfl
    · rfl

theorem locate_child {t : FileTree} {p : Path} {name : Text} (own : name ≠ up) {place : Place} :
    t.locate (p.child name) = .ok place
      ↔ ∃ above stamp, t.locate p = .ok above ∧ t.node? above = some (.directory stamp) ∧ place = above ++ [name] := by
  have split : t.locate (p.child name) = t.locate p >>= fun above => t.follow above [name] :=
    follow_append t (t.start p) p.parts [name]
  rw [split, bind_eq_ok]
  constructor
  · rintro ⟨above, located, reached⟩
    rw [follow] at reached
    cases found : t.node? above with
    | none => simp [found] at reached
    | some node =>
      cases node with
      | file content stamp => simp [found] at reached
      | directory stamp =>
        simp only [found, if_neg own] at reached
        cases reached
        exact ⟨above, stamp, located, found, rfl⟩
  · rintro ⟨above, stamp, located, found, rfl⟩
    refine ⟨above, located, ?_⟩
    simp only [follow, found, if_neg own]

theorem child_inj_of_locate {t : FileTree} {p : Path} {name other : Text} (own : name ≠ up) (otherOwn : other ≠ up)
    {place : Place} (located : t.locate (p.child name) = .ok place) (otherLocated : t.locate (p.child other) = .ok place) :
    name = other := by
  obtain ⟨above, -, found, -, rfl⟩ := (locate_child own).mp located
  obtain ⟨above', -, found', -, same⟩ := (locate_child otherOwn).mp otherLocated
  rw [found] at found'
  cases found'
  simpa using same

/-! ## Paths besides the one that is written -/

theorem exists_locate_of_read {t : FileTree} {p : Path} {content : Bytes} (held : t.read p = .ok content) :
    ∃ place, t.locate p = .ok place := by
  obtain ⟨place, located, -⟩ := bind_eq_ok.mp held
  exact ⟨place, located⟩

theorem read_congr {t : FileTree} {p q : Path} (same : t.locate p = t.locate q) : t.read p = t.read q := by
  rw [read, read, same]

theorem locate_of_write {t t' : FileTree} {p q : Path} {content : Bytes} (written : t.write p content = .ok t')
    {place : Place} (located : t.locate q = .ok place) : t'.locate q = .ok place := by
  obtain ⟨place, -, writable, rfl⟩ := write_eq_ok written
  exact follow_put writable _ located

theorem read_of_write {t t' : FileTree} {p q : Path} {content held : Bytes} (written : t.write p content = .ok t')
    (apart : t'.locate p ≠ t'.locate q) (read : t.read q = .ok held) : t'.read q = .ok held := by
  obtain ⟨other, otherLocated⟩ := exists_locate_of_read read
  have stays := locate_of_write written otherLocated
  obtain ⟨place, located, writable, rfl⟩ := write_eq_ok written
  have elsewhere : place ≠ other := by
    rintro rfl
    exact apart ((follow_put writable _ located).trans stays.symm)
  simp only [FileTree.read, otherLocated, stays, bind, Except.bind] at read ⊢
  rw [node?_put writable.ne_top, if_neg elsewhere]
  exact read

/-! ## Trees that grow -/

/-- Everything that stands in the first tree stands in the second one as well. -/
structure Grows (t t' : FileTree) : Prop where
  home : t'.home = t.home
  kept : ∀ {place node}, t.node? place = some node → t'.node? place = some node

theorem Grows.refl (t : FileTree) : t.Grows t := ⟨rfl, id⟩

theorem Grows.trans {t t' t'' : FileTree} (first : t.Grows t') (second : t'.Grows t'') : t.Grows t'' :=
  ⟨second.home.trans first.home, fun there => second.kept (first.kept there)⟩

theorem Grows.follow {t t' : FileTree} (grows : t.Grows t') {here target : Place} {names : List Text}
    (reached : t.follow here names = .ok target) : t'.follow here names = .ok target := by
  induction names generalizing here with
  | nil => exact reached
  | cons name rest ih =>
    rw [FileTree.follow] at reached ⊢
    cases found : t.node? here with
    | none => simp [found] at reached
    | some node =>
      rw [grows.kept found]
      cases node with
      | file content stamp => simp [found] at reached
      | directory stamp =>
        simp only [found] at reached ⊢
        exact ih reached

theorem Grows.locate {t t' : FileTree} (grows : t.Grows t') {p : Path} {place : Place}
    (located : t.locate p = .ok place) : t'.locate p = .ok place := by
  have sameStart : t'.start p = t.start p := by rw [start, start, grows.home]
  rw [FileTree.locate, sameStart]
  exact grows.follow located

theorem Grows.read {t t' : FileTree} (grows : t.Grows t') {p : Path} {content : Bytes} (held : t.read p = .ok content) :
    t'.read p = .ok content := by
  obtain ⟨stamp, there⟩ := at?_of_read held
  obtain ⟨place, located⟩ := exists_locate_of_read held
  have stays : t'.at? p = some (.file content stamp) := by
    rw [at?, located] at there
    rw [at?, grows.locate located]
    exact grows.kept there
  exact read_of_at? stays

theorem grows_put {t : FileTree} {place : Place} (free : t.node? place = none) (node : Node) :
    t.Grows (t.put place node) := by
  refine ⟨rfl, fun {other old} there => ?_⟩
  have below : place ≠ [] := by
    rintro rfl
    cases free
  have elsewhere : place ≠ other := by
    rintro rfl
    rw [free] at there
    cases there
  rw [node?_put below, if_neg elsewhere, there]

theorem grows_makeDirectory {t t' : FileTree} {p : Path} (made : t.makeDirectory p = .ok t') : t.Grows t' := by
  obtain ⟨place, -, rest⟩ := bind_eq_ok.mp made
  cases found : t.node? place with
  | none =>
    simp only [found] at rest
    cases rest
    exact grows_put found _
  | some node =>
    cases node with
    | file content stamp => simp [found] at rest
    | directory stamp =>
      simp only [found] at rest
      cases rest
      exact .refl t

theorem grows_makeUpwards {root : Text} {t t' : FileTree} {names : List Text}
    (made : makeUpwards root t names = .ok t') : t.Grows t' := by
  induction names generalizing t' with
  | nil =>
    cases made
    exact .refl t
  | cons name above ih =>
    rw [makeUpwards] at made
    split at made
    · obtain ⟨higher, madeAbove, made⟩ := bind_eq_ok.mp made
      exact (ih madeAbove).trans (grows_makeDirectory made)
    · exact grows_makeDirectory made

theorem grows_makeDirectories {t t' : FileTree} {p : Path} (made : t.makeDirectories p = .ok t') : t.Grows t' :=
  grows_makeUpwards made

end Marginalia.FileTree
