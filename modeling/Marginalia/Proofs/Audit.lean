import Marginalia.Document.Audit
import Marginalia.Proofs.Fallible

/-!
# Audits that succeed

An audit fails only where the pattern of variables has several groups, since then its matches are no texts.
-/

namespace Marginalia.Audit

theorem exists_variableNames {pattern : Pattern} (groups : pattern.groups ≤ 1) (arguments : Text) :
    ∃ names, variableNames pattern arguments = .ok names := by
  obtain none | one : pattern.groups = 0 ∨ pattern.groups = 1 := by omega
  · exact ⟨_, by simp only [variableNames, none]; rfl⟩
  · exact ⟨_, by simp only [variableNames, one]; rfl⟩

variable {p : Profile} (groups : ∀ pattern ∈ p.paramPattern, pattern.groups ≤ 1)
include groups

theorem exists_checkParams (d : Declaration) : ∃ messages, checkParams p d = .ok messages := by
  unfold checkParams
  split
  · exact ⟨_, rfl⟩
  · cases found : p.paramPattern with
    | none => exact ⟨_, rfl⟩
    | some pattern =>
      obtain ⟨names, read⟩ := exists_variableNames (groups pattern found) d.signature.arguments
      simp only [read, bind, Except.bind]
      split <;> exact ⟨_, rfl⟩

theorem exists_checkDeclaration (rules : Rules) (d : Declaration) :
    ∃ messages, checkDeclaration p rules d = .ok messages := by
  obtain ⟨messages, checked⟩ := exists_checkParams groups d
  unfold checkDeclaration
  simp only [checked, bind, Except.bind]
  split <;> exact ⟨_, rfl⟩

theorem exists_audit (rules : Rules) (d : Document) : ∃ problems, audit p rules d = .ok problems := by
  unfold audit
  split
  · exact ⟨_, rfl⟩
  · obtain ⟨messages, checked⟩ := Fallible.exists_mapM
      fun x (_ : x ∈ d.declarations) => exists_checkDeclaration groups rules x
    simp only [checked, bind, Except.bind]
    exact ⟨_, rfl⟩

end Marginalia.Audit
