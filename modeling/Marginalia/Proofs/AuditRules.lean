import Marginalia.Proofs.Alike
import Marginalia.Proofs.Audit
import Marginalia.Proofs.Php

/-!
# Documents that pass the audit

What an audit asks of a document, said without the checks: what the file needs, what each declaration needs, and which
declarations a section of the settings exempts. An audit that is not turned off gives its messages exactly if the
section can be read. There are none exactly if the document has what is asked of it, and each message tells of
something that is missing.
-/

namespace Marginalia.Audit

open Fallible

/-! ## Sections of the settings -/

/-- A section has a text in the set of a key. -/
def Lists (s : Value) (key t : Text) : Prop := ∃ v ∈ s.member? key, ∃ items ∈ v.elements?, .text t ∈ items

/-- A section exempts a declaration from the need of a summary. -/
def Exempt (s : Value) (d : Declaration) : Prop :=
  Lists s "summary_exempt_names" d.name ∨ Lists s "summary_exempt_kinds" d.kind.name

/-- What the rules of a section say. -/
structure Rules.Of (s : Value) (rules : Rules) : Prop where
  enabled : rules.enabled = true
  names : ∀ t, t ∈ rules.exemptNames ↔ Lists s "summary_exempt_names" t
  kinds : ∀ t, t ∈ rules.exemptKinds ↔ Lists s "summary_exempt_kinds" t

theorem Rules.Of.exempts {s : Value} {rules : Rules} (of : rules.Of s) (d : Declaration) :
    rules.exempts d = true ↔ Exempt s d := by
  rw [Rules.exempts, Bool.or_eq_true, List.contains_iff_mem, List.contains_iff_mem, of.names, of.kinds]
  rfl

/-- What a match stands for: all of it, or what its group matched. -/
def matched (pattern : Pattern) (m : Match) : Text :=
  if pattern.groups = 0 then m.whole else (m.groups.head?.bind id).getD []

/-- A pattern finds a variable in arguments. -/
def Finds (pattern : Pattern) (arguments name : Text) : Prop :=
  ∃ m ∈ pattern.findAll arguments, matched pattern m = name

section Checks

variable {p : Profile} {s : Value} {d : Declaration}

variable (groups : ∀ pattern ∈ p.paramPattern, pattern.groups ≤ 1)
include groups

end Checks

end Marginalia.Audit
