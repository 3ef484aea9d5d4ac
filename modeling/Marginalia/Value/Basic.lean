import Marginalia.Dict
import Marginalia.Number.Binary64

/-!
# Values

The data that settings and stored documents are made of: texts, numbers, lists and objects whose members
keep their order. A value counts as false when it is null, false, zero or empty.
-/

namespace Marginalia

/-- A value of a data file. -/
inductive Value where
  | null
  | bool (b : Bool)
  | int (n : Int)
  | float (x : Binary64)
  | text (t : Text)
  | list (items : List Value)
  | object (members : List (Text × Value))
  deriving Repr, Inhabited

namespace Value

/-- Neither null, false, zero nor empty. -/
def truthy : Value → Bool
  | .null => false
  | .bool b => b
  | .int n => n != 0
  | .float x => !x.isZero
  | .text t => !t.isEmpty
  | .list items => !items.isEmpty
  | .object members => !members.isEmpty

/-- The member of an object, null where there is none. Other values have no members. -/
def member? (v : Value) (key : Text) : Option Value :=
  match v with
  | .object members => some ((Entries.get? members key).getD .null)
  | _ => none

/-- What a value yields one after the other: the characters of a text, the items of a list, the keys of
    an object. -/
def elements? : Value → Option (List Value)
  | .text t => some (t.map fun c => .text [c])
  | .list items => some items
  | .object members => some (members.map fun entry => .text entry.1)
  | _ => none

/-- A value as the key of a member. Collections are no keys. -/
def keyText? : Value → Option Text
  | .text t => some t
  | .null => some "null"
  | .bool b => some (if b then "true" else "false")
  | .int n => some (decimalInt n)
  | .float x => some x.toText
  | .list _ => none
  | .object _ => none

/-- A value or, where it counts as false, another one. -/
def orElse (v other : Value) : Value := if v.truthy then v else other

/-- The number a value stands for, as an integer over a positive denominator. Truth values count as zero
    and one. -/
def numeric? : Value → Option (Int × Nat)
  | .bool b => some (if b then 1 else 0, 1)
  | .int n => some (n, 1)
  | .float x => x.toDyadic?
  | _ => none

/-- Two plain values are the same: numbers by their value, whatever their form. -/
def same (a b : Value) : Bool :=
  match a, b with
  | .null, .null => true
  | .text s, .text t => s == t
  | .float (.infinite s), .float (.infinite t) => s == t
  | _, _ =>
    match a.numeric?, b.numeric? with
    | some (p, q), some (r, s) => p * (s : Int) == r * (q : Int)
    | _, _ => false

end Value

end Marginalia
