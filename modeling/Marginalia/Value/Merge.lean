import Marginalia.Fault

/-!
# Merging values

An object is merged into another one member by member: objects are merged in turn, and everything else
replaces what was there. Lists under the additive keys are united instead: the result holds the items of both
in increasing order.
-/

namespace Marginalia.Value

/-- Lists under these keys are united. -/
def additiveKeys : List Text := ["summary_exempt_names"]

/-- Items that can be told apart: neither lists nor objects. -/
def isPlain : Value → Bool
  | .list _ => false
  | .object _ => false
  | _ => true

/-- The order of texts, and of numbers; other values have none. -/
def le? (a b : Value) : Option Bool :=
  match a, b with
  | .text s, .text t => some (Text.le s t)
  | _, _ =>
    match a.numeric?, b.numeric? with
    | some (p, q), some (r, s) => some (p * (s : Int) ≤ r * (q : Int))
    | _, _ => none

/-- Items without those that are the same as an earlier one. -/
def distinct (items : List Value) : List Value :=
  (items.foldl (fun seen v => if seen.any (same v) then seen else v :: seen) []).reverse

/-- All items can be compared with each other. -/
def comparable (items : List Value) : Bool :=
  match items with
  | [] => true
  | [_] => true
  | first :: rest => rest.all fun v => (le? first v).isSome

/-- The items of two lists in increasing order without repetition. -/
def union (a b : List Value) : Except Fault (List Value) :=
  let items := distinct (a ++ b)
  if items.all isPlain && comparable items then
    .ok (items.mergeSort fun x y => (le? x y).getD false)
  else .error .wrongType

mutual

/-- The value under a key where `old` was. -/
def mergeValue (key : Text) (old : Option Value) : Value → Except Fault Value
  | .object update =>
    match old with
    | some (.object base) => (mergeMembers base update).map .object
    | _ => .ok (.object update)
  | .list items =>
    match old with
    | some (.list base) =>
      if additiveKeys.contains key then (union base items).map .list else .ok (.list items)
    | _ => .ok (.list items)
  | v => .ok v

/-- The members of an object after an update. -/
def mergeMembers (base : Entries Value) : List (Text × Value) → Except Fault (Entries Value)
  | [] => .ok base
  | (key, v) :: rest => do
    let merged ← mergeValue key (base.get? key) v
    mergeMembers (base.insert key merged) rest

end

/-- A value merged into another one. Only objects are merged; a list takes no members. -/
def merge (base update : Value) : Except Fault Value :=
  match base, update with
  | .object members, .object changes => (mergeMembers members changes).map .object
  | .list items, .object [] => .ok (.list items)
  | .list items, .object ((key, .list _) :: _) =>
    .error (if additiveKeys.contains key && !items.any (same (.text key)) then .wrongShape else .wrongType)
  | .list _, .object _ => .error .wrongType
  | _, _ => .error .wrongShape

end Marginalia.Value
