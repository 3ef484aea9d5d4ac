import Marginalia.Document.Basic

/-!
# Audits

Checks what is missing in the documentation of a document. The file needs a summary and an author; a
declaration needs a summary, unless it is exempt, and its parameters must be those of its arguments.
-/

namespace Marginalia

namespace Audit

/-- What an audit checks. -/
structure Rules where
  enabled : Bool := true
  /-- Names of declarations that need no summary. -/
  exemptNames : List Text := []
  /-- Names of kinds of declarations that need no summary. -/
  exemptKinds : List Text := []
  deriving DecidableEq, Repr

/-- The texts of a set of values. -/
def textSet (v : Value) : Except Fault (List Text) :=
  if v.truthy then
    match v.elements? with
    | some items => do return Profile.textsOf (← Profile.checkSet items)
    | none => throw .wrongType
  else return []

/-- The rules of a section of the settings. Audits are enabled unless the section says otherwise. -/
def Rules.ofSection (rules : Value) : Except Fault Rules :=
  if !rules.truthy then return {}
  else
    match rules with
    | .object members => do
      let enabled := ((Entries.get? members "enabled").map Value.truthy).getD true
      if !enabled then return { enabled := false }
      return {
        exemptNames := ← textSet ((Entries.get? members "summary_exempt_names").getD .null)
        exemptKinds := ← textSet ((Entries.get? members "summary_exempt_kinds").getD .null) }
    | _ => throw .wrongShape

/-- What is missing for the file. -/
def checkMain (main : Block) : List Text :=
  (if main.summary.isEmpty then ["No summary documented for the file".toList] else [])
    ++ (if (main.tag? "author").any TagValue.truthy then []
        else ["No author documented for the file".toList])

/-- The texts that a pattern finds, in order and without repetition. A pattern with one group finds what the
    group matches; with more groups the matches are no single texts. -/
def variableNames (p : Pattern) (arguments : Text) : Except Fault (List Text) :=
  let found := p.findAll arguments
  match p.groups with
  | 0 => .ok (found.map Match.whole).eraseDups
  | 1 => .ok (found.map fun m => ((m.groups.head?.bind id).getD [])).eraseDups
  | _ => if found.isEmpty then .ok [] else .error .wrongType

/-- A message with names in parentheses, if there are any. -/
def listed (what name : Text) (names : List Text) : List Text :=
  if names.isEmpty then [] else [what ++ name ++ " (" ++ Text.join ", " names ++ ")"]

/-- What is wrong with the parameters of a declaration with arguments. -/
def checkParams (p : Profile) (d : Declaration) : Except Fault (List Text) :=
  if d.doc.params.isEmpty then return ["No @param documented for " ++ d.name]
  else
    match p.paramPattern with
    | none => return []
    | some pattern => do
      let declared ← variableNames pattern d.signature.arguments
      if declared.isEmpty then return []
      let documented := d.doc.params.keys
      let missing := declared.filter (!documented.contains ·)
      let unknown := documented.filter fun name => !name.isEmpty && !declared.contains name
      return listed "Undocumented @param in " d.name missing
        ++ listed "Unknown @param in " d.name unknown

/-- A declaration needs no summary. -/
def Rules.exempts (rules : Rules) (d : Declaration) : Bool :=
  rules.exemptNames.contains d.name || rules.exemptKinds.contains d.kind.name

/-- What is missing for a declaration. -/
def checkDeclaration (p : Profile) (rules : Rules) (d : Declaration) : Except Fault (List Text) := do
  let summary : List Text :=
    if !rules.exempts d && d.doc.summary.isEmpty then ["No summary documented for " ++ d.name]
    else []
  if d.kind.isContainer || d.signature.arguments.isEmpty then return summary
  return summary ++ (← checkParams p d)

end Audit

/-- The problems of a document: those of the file first, then those of the declarations in order. -/
def audit (p : Profile) (rules : Audit.Rules) (d : Document) : Except Fault (List Problem) := do
  if !rules.enabled then return []
  let messages ← d.declarations.mapM (Audit.checkDeclaration p rules)
  return (Audit.checkMain d.main ++ messages.flatten).map fun m => ⟨.missingDocumentation, m⟩

end Marginalia
