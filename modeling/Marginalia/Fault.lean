import Marginalia.Pattern.Reader
import Marginalia.Value.Shown

/-!
# Faults

The causes for which an operation gives no result. Problems of a documented source are not faults: they are
part of its document.
-/

namespace Marginalia

/-- Why an operation gave no result. -/
inductive Fault where
  /-- A stored record lacks a member it must have. -/
  | missingMember (name : Text)
  /-- A stored declaration has a kind that does not exist. -/
  | unknownKind (value : Value)
  /-- A stored problem has a kind that does not exist. -/
  | unknownProblem (value : Value)
  /-- A profile gives a keyword a kind that does not exist. -/
  | unknownKeywordKind (kind : Value) (keyword : Text)
  /-- A profile has a pattern that cannot be read. -/
  | badPattern (source : Text) (error : Pattern.Error)
  /-- The year of a date is beyond the calendar. -/
  | yearOutOfRange (year : Int)
  /-- A value was used as if it had members or were a text. -/
  | wrongShape
  /-- A value was combined with one it does not go with. -/
  | wrongType
  /-- There is no declaration at a position. -/
  | noSuchPosition
  /-- The name of a file has a NUL. -/
  | nulInName
  /-- A file does not exist. -/
  | noSuchFile
  /-- A file stands where a directory is to be made. -/
  | fileExists
  /-- A directory was used as a file. -/
  | isDirectory
  /-- A file was used as a directory. -/
  | notDirectory
  /-- A file is not well-formed UTF-8. -/
  | notUtf8
  /-- A settings file cannot be read. -/
  | notYaml
  deriving Repr

/-- The wording of a fault that comes with one. -/
def Fault.message? : Fault → Option Text
  | .missingMember name => some name.quoted
  | .unknownKind value => some (value.written ++ " is not a valid DeclarationKind")
  | .unknownProblem value => some (value.written ++ " is not a valid ErrorKind")
  | .unknownKeywordKind kind keyword =>
    some ("Unknown declaration kind " ++ kind.written ++ " for keyword " ++ keyword.quoted)
  | .badPattern source error =>
    some ("Invalid param_pattern " ++ source.quoted ++ ": " ++ error.message source)
  | .yearOutOfRange year => some ("year " ++ decimalInt year ++ " is out of range")
  | .nulInName => some "embedded null byte"
  | _ => none

/-- The fault lies in a value: it is not among those allowed, or lacks a member, or has the wrong shape or type. -/
def Fault.isOfValue : Fault → Bool
  | .missingMember _ | .unknownKind _ | .unknownProblem _ | .unknownKeywordKind .. | .badPattern ..
  | .yearOutOfRange _ | .wrongShape | .wrongType | .nulInName | .notUtf8 => true
  | _ => false

end Marginalia
