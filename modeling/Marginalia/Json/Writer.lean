import Marginalia.Value.Basic

/-!
# Writing JSON

Values as JSON text in ASCII. Members may be written in the order of their keys, and the text may be one
line or indented by two blanks a level.
-/

namespace Marginalia.Json

/-- How values are laid out. -/
structure Layout where
  /-- Members are written in the order of their keys. -/
  sorted : Bool
  /-- Each item stands on a line of its own. -/
  indented : Bool
  deriving DecidableEq, Repr

/-- One line, members as they stand. -/
def Layout.plain : Layout := ⟨false, false⟩

/-- One line, members in the order of their keys. -/
def Layout.canonical : Layout := ⟨true, false⟩

/-- One item a line, members in the order of their keys. -/
def Layout.pretty : Layout := ⟨true, true⟩

/-- One code unit of sixteen bits as an escape. -/
def unitEscape (n : Nat) : Text := "\\u" ++ hexadecimal 4 n

/-- One character inside a JSON string. -/
def escapeChar (c : Char) : Text :=
  if c = '"' then "\\\""
  else if c = '\\' then "\\\\"
  else if c = '\n' then "\\n"
  else if c = '\r' then "\\r"
  else if c = '\t' then "\\t"
  else if c = '\x08' then "\\b"
  else if c = '\x0c' then "\\f"
  else if 0x20 ≤ c.toNat ∧ c.toNat ≤ 0x7e then [c]
  else if c.toNat < 0x10000 then unitEscape c.toNat
  else
    let rest := c.toNat - 0x10000
    unitEscape (0xd800 + rest / 0x400) ++ unitEscape (0xdc00 + rest % 0x400)

/-- A JSON string. -/
def writeText (t : Text) : Text := "\"" ++ t.flatMap escapeChar ++ "\""

/-- A number in floating point. -/
def writeFloat : Binary64 → Text
  | .nan => "NaN"
  | .infinite true => "-Infinity"
  | .infinite false => "Infinity"
  | x => x.toText

/-- A line break and the indentation of a level. -/
def lineBreak (depth : Nat) : Text := '\n' :: List.replicate (2 * depth) ' '

/-- Written items between brackets. -/
def enclose (layout : Layout) (depth : Nat) (left right : Text) (items : List Text) : Text :=
  if items.isEmpty then left ++ right
  else if layout.indented then
    left ++ lineBreak (depth + 1) ++ Text.join ("," ++ lineBreak (depth + 1)) items
      ++ lineBreak depth ++ right
  else left ++ Text.join ", " items ++ right

/-- Written members in the order the layout asks for. -/
def arrange (layout : Layout) (members : List (Text × Text)) : List Text :=
  let ordered := if layout.sorted then members.mergeSort (fun a b => Text.le a.1 b.1) else members
  ordered.map fun (key, value) => writeText key ++ ": " ++ value

mutual

/-- A value at a level of indentation. -/
def writeAt (layout : Layout) (depth : Nat) : Value → Text
  | .null => "null"
  | .bool b => if b then "true" else "false"
  | .int n => decimalInt n
  | .float x => writeFloat x
  | .text t => writeText t
  | .list items => enclose layout depth "[" "]" (writeItems layout (depth + 1) items)
  | .object members =>
    enclose layout depth "\x7b" "\x7d" (arrange layout (writeMembers layout (depth + 1) members))

/-- The items of a list, each written. -/
def writeItems (layout : Layout) (depth : Nat) : List Value → List Text
  | [] => []
  | v :: vs => writeAt layout depth v :: writeItems layout depth vs

/-- The members of an object, each value written. -/
def writeMembers (layout : Layout) (depth : Nat) : List (Text × Value) → List (Text × Text)
  | [] => []
  | (k, v) :: rest => (k, writeAt layout depth v) :: writeMembers layout depth rest

end

/-- A value as JSON text. -/
def write (layout : Layout) (v : Value) : Text := writeAt layout 0 v

end Marginalia.Json
