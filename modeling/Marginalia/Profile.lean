import Marginalia.Fault
import Marginalia.Kind

/-!
# Profiles

The markers of one source language: how code, comments, strings and declarations are written in it. A
profile is read from a section of the settings; a missing or empty marker means that the language has none,
except where there is a usual one.
-/

namespace Marginalia

/-- The markers of a source language. -/
structure Profile where
  /-- Code starts after this marker; empty if everything is code. -/
  codeStart : Text := []
  /-- The longer form of `codeStart`, taken where it stands. -/
  codeStartFull : Text := []
  codeEnd : Text := []
  lineComment : Text := "//"
  lineCommentEnd : Text := "\n"
  blockCommentStart : Text := "/*"
  blockCommentEnd : Text := "*/"
  docCommentStart : Text := "/**"
  quotes : List Text := ["\"", "'"]
  escape : Text := "\\"
  /-- The keywords of declarations in the order of the settings. -/
  declarations : Dict Kind := Dict.empty
  statementSeparators : List Text := ["\x7b", "\x7d", ";"]
  noSpaceBefore : List Text := ["(", ")", ","]
  argsStart : Text := "("
  argsEnd : Text := ")"
  docLineMarker : Text := "*"
  tagMarker : Text := "@"
  /-- Finds the variables in the arguments of a declaration. -/
  paramPattern : Option Pattern := none
  deriving DecidableEq

namespace Profile

/-- A member of a section, null where there is none. -/
def setting (markers : Value) (name : Text) : Except Fault Value :=
  match markers.member? name with
  | some v => .ok v
  | none => .error .wrongShape

/-- A text setting; a value that counts as false gives the usual text. -/
def textSetting (markers : Value) (name usual : Text) : Except Fault Text := do
  let v ← setting markers name
  if v.truthy then
    match v with
    | .text t => return t
    | _ => throw .wrongType
  else return usual

/-- A setting of several values: the characters of a text, the items of a list or the keys of an object. -/
def textsSetting (markers : Value) (name : Text) : Except Fault (List Value) := do
  let v ← setting markers name
  if v.truthy then
    match v.elements? with
    | some items => return items
    | none => throw .wrongType
  else return []

/-- The texts among values. Other values match nothing in a source and are left out. -/
def textsOf (items : List Value) : List Text :=
  items.filterMap fun v => match v with
    | .text t => some t
    | _ => none

/-- Lists and objects cannot be members of a set. -/
def checkSet (items : List Value) : Except Fault (List Value) :=
  if items.any (fun v => match v with
      | .list _ => true
      | .object _ => true
      | _ => false) then throw .wrongType
  else return items

/-- The kinds of the keywords. -/
def declarationsSetting (markers : Value) : Except Fault (Dict Kind) := do
  let v ← setting markers "declarations"
  if v.truthy then
    match v with
    | .object members =>
      let kinds ← members.mapM fun (keyword, kind) =>
        match kind with
        | .text name =>
          match Kind.ofName? name with
          | some k => Except.ok (keyword, k)
          | none => throw (.unknownKeywordKind kind keyword)
        | _ => throw (.unknownKeywordKind kind keyword)
      return Dict.ofList kinds
    | _ => throw .wrongShape
  else return Dict.empty

/-- The pattern of variables. -/
def patternSetting (markers : Value) : Except Fault (Option Pattern) := do
  let source ← textSetting markers "param_pattern" []
  if source.isEmpty then return none
  else
    match Pattern.read source with
    | .ok p => return some p
    | .error e => throw (.badPattern source e)

/-- The profile of a section of the settings. -/
def ofSection (markers : Value) : Except Fault Profile := do
  let declarations ← declarationsSetting markers
  let paramPattern ← patternSetting markers
  return {
    codeStart := ← textSetting markers "code_start" []
    codeStartFull := ← textSetting markers "code_start_full" []
    codeEnd := ← textSetting markers "code_end" []
    lineComment := ← textSetting markers "line_comment" []
    lineCommentEnd := ← textSetting markers "line_comment_end" "\n"
    blockCommentStart := ← textSetting markers "block_comment_start" []
    blockCommentEnd := ← textSetting markers "block_comment_end" []
    docCommentStart := ← textSetting markers "doc_comment_start" []
    quotes := textsOf (← textsSetting markers "quotes")
    escape := ← textSetting markers "escape" []
    declarations
    statementSeparators := textsOf (← checkSet (← textsSetting markers "statement_separators"))
    noSpaceBefore := textsOf (← checkSet (← textsSetting markers "no_space_before"))
    argsStart := ← textSetting markers "args_start" "("
    argsEnd := ← textSetting markers "args_end" ")"
    docLineMarker := ← textSetting markers "doc_line_marker" "*"
    tagMarker := ← textSetting markers "tag_prefix" "@"
    paramPattern }

end Profile

end Marginalia
