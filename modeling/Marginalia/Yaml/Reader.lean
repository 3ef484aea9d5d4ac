import Marginalia.Yaml.Resolve
import Marginalia.Yaml.Token

/-!
# Values of settings texts

A settings text holds at most one document. Its tokens are read into a value: collections of either form,
scalars, names for values that are used again, and mappings that are merged into others.
-/

namespace Marginalia.Yaml

/-- What is left to be read, and the values that have a name. -/
structure Reading where
  tokens : List Token
  anchors : Entries Value := []

/-- A step of reading, which may fail. -/
abbrev Step (α : Type) := StateT Reading Option α

/-- The next token. After the last one the text ends. -/
def peekToken : Step Token := do return (← get).tokens.headD .streamEnd

/-- Passes the next token. -/
def passToken : Step Unit := modify fun r => { r with tokens := r.tokens.tail }

/-- The next token is one of some. -/
def nextIn (ts : List Token) : Step Bool := do return ts.contains (← peekToken)

/-- Passes the next token if it is a certain one. -/
def passIf (t : Token) : Step Bool := do
  if (← peekToken) == t then
    passToken
    return true
  else return false

/-- Passes the next token, which must be a certain one. -/
def expect (t : Token) : Step Unit := do
  if !(← passIf t) then failure

/-- The name and the tag in front of a value, in either order. -/
def properties : Step (Option Text × Option Text) := do
  match ← peekToken with
  | .anchor name =>
    passToken
    match ← peekToken with
    | .tag tag =>
      passToken
      return (some name, some tag)
    | _ => return (some name, none)
  | .tag tag =>
    passToken
    match ← peekToken with
    | .anchor name =>
      passToken
      return (some name, some tag)
    | _ => return (none, some tag)
  | _ => return (none, none)

/-- The value of a scalar with a tag. -/
def tagged? (tag : Option Text) (text : Text) (isPlain : Bool) : Option Value :=
  match tag.map String.ofList with
  | none => if isPlain then resolve? text else some (.text text)
  | some "!" => resolve? text
  | some "!!str" => some (.text text)
  | some "!!null" => some .null
  | some "!!int" => (int? text).map .int
  | some "!!float" => ((float? text).orElse fun _ => (int? text).map Binary64.ofInt).map .float
  | some "!!bool" => (truthWords.find? (·.1 == text)).map fun (_, b) => .bool b
  | _ => none

/-- The tag may stand before a collection. -/
def fits (tag : Option Text) (usual : String) : Bool :=
  match tag with
  | none => true
  | some t => t == ['!'] || t == usual.toList

/-- An entry of a mapping: a key with its value, or a mapping to be merged. -/
inductive Entry where
  | member (key : Text) (value : Value)
  | merged (value : Value)

/-- The members that come from a value to be merged. Of several mappings the first one counts most. -/
def mergedMembers? : Value → Option (List (Text × Value))
  | .object members => some members
  | .list items => do
    let parts ← items.mapM fun
      | .object members => some members
      | _ => none
    return parts.reverse.flatten
  | _ => none

/-- The object of entries. What is merged comes first, and the members of the mapping itself prevail. -/
def objectOf? (entries : List Entry) : Option Value := do
  let merged ← entries.mapM fun
    | .merged v => mergedMembers? v
    | .member .. => some []
  let own := entries.filterMap fun
    | .member k v => some (k, v)
    | .merged _ => none
  return .object (Entries.insertAll [] (merged.flatten ++ own))

/-- An entry of a key that may be the mark for merging. -/
def entryOf? (isMerge : Bool) (key value : Value) : Option Entry :=
  if isMerge then some (.merged value) else key.keyText?.map (.member · value)

/-- The next token is the mark for merging. -/
def atMerge : Step Bool := do return (← peekToken) == .scalar ['<', '<'] true

mutual

/-- A value. In a block it may be a block collection, and after a key also items at the column of the key. -/
def node (fuel : Nat) (inBlock afterKey : Bool) : Step Value := do
  match fuel with
  | 0 => failure
  | fuel + 1 =>
    if let .alias name := ← peekToken then
      passToken
      return ← StateT.lift ((← get).anchors.get? name)
    let (name, tag) ← properties
    if let some name := name then
      if ((← get).anchors.get? name).isSome then failure
    let v ← content fuel inBlock afterKey tag (name.isSome || tag.isSome)
    if let some name := name then
      modify fun r => { r with anchors := r.anchors.insert name v }
    return v
termination_by (fuel, 0)

/-- A value after its properties. -/
def content (fuel : Nat) (inBlock afterKey : Bool) (tag : Option Text) (hasProperties : Bool) : Step Value := do
  let collection (usual : String) (items : Step Value) : Step Value := do
    if !fits tag usual then failure
    passToken
    items
  match ← peekToken with
  | .blockEntry =>
    if !afterKey || !fits tag "!!seq" then failure
    return .list (← items fuel true)
  | .scalar text isPlain =>
    passToken
    StateT.lift (tagged? tag text isPlain)
  | .flowSequenceStart => collection "!!seq" (do return .list (← flowItems fuel true))
  | .flowMappingStart => collection "!!map" (do StateT.lift (objectOf? (← flowMembers fuel true)))
  | .blockSequenceStart =>
    if !inBlock then failure
    collection "!!seq" (do return .list (← items fuel false))
  | .blockMappingStart =>
    if !inBlock then failure
    collection "!!map" (do StateT.lift (objectOf? (← members fuel)))
  | _ => if hasProperties then StateT.lift (tagged? tag [] true) else failure
termination_by (fuel, 2)

/-- A value that is null where one of some tokens follows. -/
def nodeUnless (fuel : Nat) (stops : List Token) (inBlock afterKey : Bool) : Step Value := do
  if ← nextIn stops then return .null else node fuel inBlock afterKey
termination_by (fuel, 1)

/-- The items of a block sequence. Where it stands at the column of its key, no token ends it. -/
def items (fuel : Nat) (open_ : Bool) : Step (List Value) := do
  match fuel with
  | 0 => failure
  | fuel + 1 =>
    if ← passIf .blockEntry then
      let stops : List Token :=
        if open_ then [.blockEntry, .key, .value, .blockEnd] else [.blockEntry, .blockEnd]
      let v ← nodeUnless fuel stops true false
      return v :: (← items fuel open_)
    else
      if !open_ then expect .blockEnd
      return []
termination_by (fuel, 0)

/-- The entries of a block mapping. -/
def members (fuel : Nat) : Step (List Entry) := do
  match fuel with
  | 0 => failure
  | fuel + 1 =>
    if ← passIf .key then
      let stops : List Token := [.key, .value, .blockEnd]
      let isMerge ← atMerge
      let key ← if isMerge then (do passToken; return .null) else nodeUnless fuel stops true true
      let value ← if ← passIf .value then nodeUnless fuel stops true true else pure .null
      let entry ← StateT.lift (entryOf? isMerge key value)
      return entry :: (← members fuel)
    else
      expect .blockEnd
      return []
termination_by (fuel, 0)

/-- A key with its value in a flow collection that `close` ends. -/
def flowPair (fuel : Nat) (close : Token) : Step Entry := do
  let isMerge ← atMerge
  let key ←
    if isMerge then (do passToken; return .null)
    else nodeUnless fuel [.value, .flowEntry, close] false false
  let value ← if ← passIf .value then nodeUnless fuel [.flowEntry, close] false false else pure .null
  StateT.lift (entryOf? isMerge key value)
termination_by (fuel, 2)

/-- The items of a flow sequence. A pair among them is a mapping of its own. -/
def flowItems (fuel : Nat) (first : Bool) : Step (List Value) := do
  match fuel with
  | 0 => failure
  | fuel + 1 =>
    if ← passIf .flowSequenceEnd then return []
    if !first then expect .flowEntry
    if ← passIf .flowSequenceEnd then return []
    let v ←
      if ← passIf .key then
        (do StateT.lift (objectOf? [← flowPair fuel .flowSequenceEnd]))
      else node fuel false false
    return v :: (← flowItems fuel false)
termination_by (fuel, 0)

/-- The entries of a flow mapping. A key may stand alone. -/
def flowMembers (fuel : Nat) (first : Bool) : Step (List Entry) := do
  match fuel with
  | 0 => failure
  | fuel + 1 =>
    if ← passIf .flowMappingEnd then return []
    if !first then expect .flowEntry
    if ← passIf .flowMappingEnd then return []
    let entry ←
      if ← passIf .key then flowPair fuel .flowMappingEnd
      else (do StateT.lift (entryOf? false (← node fuel false false) .null))
    return entry :: (← flowMembers fuel false)
termination_by (fuel, 0)

end

/-- Passes tokens of a kind. -/
def passAll (t : Token) : Step Unit := modify fun r => { r with tokens := r.tokens.dropWhile (· == t) }

/-- The value of a text: null if it holds no document. -/
def document : Step Value := do
  let tokens := (← get).tokens
  let fuel := 4 * tokens.length + 8
  let starters : List Token := [.directive, .documentStart]
  if ← nextIn [.streamEnd] then return .null
  let v ←
    if ← nextIn starters then
      (do
        passAll .directive
        expect .documentStart
        nodeUnless fuel [.directive, .documentStart, .documentEnd, .streamEnd] true false)
    else node fuel true false
  passAll .documentEnd
  expect .streamEnd
  return v

/-- The value of a settings text. -/
def read? (t : Text) : Option Value := do
  let tokens ← tokens? t
  let (v, _) ← document.run { tokens }
  return v

end Marginalia.Yaml
