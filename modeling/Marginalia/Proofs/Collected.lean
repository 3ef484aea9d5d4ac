import Marginalia.Document.File
import Marginalia.Proofs.Audit

/-!
# Documents of what has been collected

The document of a collection is the collection itself with the problems that an audit finds. The settings have a
say in the trace and in the audit only.
-/

namespace Marginalia

/-- The trace of a collection. -/
def Collected.trace (c : Collected) (filename : Text) (debug : Bool) : List Text :=
  Document.orphanNotes debug c ++
    if debug then ["Found " ++ decimal c.declarations.length ++ " declarations in " ++ filename] else []

/-- The document of a collection with some problems. -/
def Collected.document (c : Collected) (filename : Text) (debug : Bool) (problems : List Problem) : Document where
  filename
  main := c.main.getD {}
  declarations := c.declarations
  problems
  debug := c.trace filename debug

namespace Document

theorem ofCollected_eq (p : Profile) (settings : Value) (filename lookup : Text) (c : Collected) :
    ofCollected p settings filename { lookup } c =
      (Settings.debug (settings.orElse (.object [])) >>= fun debug =>
        (Settings.part (settings.orElse (.object [])) "lint" >>= Audit.Rules.ofSection) >>= fun rules =>
          audit p rules (c.document filename debug []) >>= fun problems =>
            .ok (lookingFor lookup (c.document filename debug problems))) := by
  simp only [ofCollected, bind, Except.bind]
  cases Settings.debug (settings.orElse (.object [])) with
  | error fault => rfl
  | ok debug =>
    cases Settings.part (settings.orElse (.object [])) "lint" with
    | error fault => rfl
    | ok lint =>
      simp only
      cases Audit.Rules.ofSection lint with
      | error fault => rfl
      | ok rules => rfl

theorem ofCollected_summaryOnly (p : Profile) (settings : Value) (filename lookup : Text) (c : Collected) :
    ofCollected p settings filename { summaryOnly := true, lookup } c =
      (Settings.debug (settings.orElse (.object [])) >>= fun debug =>
        .ok { filename, main := c.main.getD {}, debug := orphanNotes debug c }) := rfl

@[simp] theorem lookingFor_main (name : Text) (d : Document) : (lookingFor name d).main = d.main := by
  unfold lookingFor select
  split
  · rfl
  · split <;> rfl

@[simp] theorem lookingFor_declarations (name : Text) (d : Document) :
    (lookingFor name d).declarations = d.declarations := by
  unfold lookingFor select
  split
  · rfl
  · split <;> rfl

theorem lookingFor_debug (lookup : Text) (d : Document) (trace : List Text) :
    lookingFor lookup { d with debug := trace } = { lookingFor lookup d with debug := trace } := by
  unfold lookingFor select
  rw [show ({ d with debug := trace } : Document).position? lookup = d.position? lookup from rfl]
  split
  · rfl
  · split <;> rfl

@[simp] theorem debug_lookingFor (name : Text) (d : Document) : (lookingFor name d).debug = d.debug := by
  unfold lookingFor select
  split
  · rfl
  · split <;> rfl

end Document

theorem Settings.part_orElse {v a : Value} {name : Text} (given : part v name = .ok a) :
    v.orElse (.object []) = v := by
  cases v with
  | object members => cases members <;> rfl
  | _ => cases given

/-- The settings allow an audit: their rules can be read. -/
def Settings.Auditable (settings : Value) : Prop :=
  ∃ rules, (Settings.part (settings.orElse (.object [])) "lint" >>= Audit.Rules.ofSection) = .ok rules

theorem Settings.Auditable.debug {settings : Value} (auditable : Settings.Auditable settings) :
    ∃ debug, Settings.debug (settings.orElse (.object [])) = .ok debug := by
  obtain ⟨rules, readable⟩ := auditable
  obtain ⟨lint, found, -⟩ := Fallible.bind_eq_ok.mp readable
  unfold Settings.part at found
  unfold Settings.debug Settings.part
  generalize settings.orElse (.object []) = merged at found
  cases merged with
  | object members => exact ⟨_, rfl⟩
  | _ => cases found

/-- What has been collected goes into the document as it is. -/
theorem Document.exists_ofCollected {p : Profile} (groups : ∀ pattern ∈ p.paramPattern, pattern.groups ≤ 1)
    {settings : Value} (auditable : Settings.Auditable settings) (filename lookup : Text) (c : Collected) :
    ∃ d, ofCollected p settings filename { lookup } c = .ok d ∧
      d.main = c.main.getD {} ∧ d.declarations = c.declarations := by
  obtain ⟨debug, traced⟩ := auditable.debug
  obtain ⟨rules, readable⟩ := auditable
  obtain ⟨problems, audited⟩ := Audit.exists_audit groups rules (c.document filename debug [])
  refine ⟨lookingFor lookup (c.document filename debug problems), ?_, ?_, ?_⟩
  · rw [ofCollected_eq, traced, readable]
    simp only [bind, Except.bind, audited]
  · rw [lookingFor_main]
    rfl
  · rw [lookingFor_declarations]
    rfl

end Marginalia
