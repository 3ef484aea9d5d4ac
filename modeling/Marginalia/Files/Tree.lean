import Marginalia.Files.Path
import Marginalia.Files.Stamp
import Marginalia.Text.Utf8

/-!
# File trees

Files and directories with their times. A place is the list of names that leads to it from the top. A path is
followed name by name: each name needs a directory to be looked up in, and double dots lead one level up.
Relative paths start at the home directory of the tree.
-/

namespace Marginalia

/-- The names that lead to a file or a directory from the top. -/
abbrev Place := List Text

/-- What stands at a place. -/
inductive Node where
  | file (content : Bytes) (stamp : Stamp)
  | directory (stamp : Stamp)
  deriving DecidableEq, Repr

/-- The time of a node. -/
def Node.stamp : Node → Stamp
  | .file _ stamp => stamp
  | .directory stamp => stamp

/-- The node is a file. -/
def Node.isFile : Node → Bool
  | .file .. => true
  | .directory _ => false

/-- The node is a directory. -/
def Node.isDirectory : Node → Bool
  | .file .. => false
  | .directory _ => true

/-- The files and directories that are known. -/
structure FileTree where
  nodes : List (Place × Node) := []
  /-- The place where relative paths start. -/
  home : Place := []
  /-- The time that a node gets when it is made or changed. -/
  clock : Stamp
  deriving DecidableEq, Repr

namespace FileTree

/-- The first node with the place. -/
def find? : List (Place × Node) → Place → Option Node
  | [], _ => none
  | (p, node) :: rest, place => if p = place then some node else find? rest place

/-- The node is put at the position of its place, or last for a new place. -/
def putIn : List (Place × Node) → Place → Node → List (Place × Node)
  | [], place, node => [(place, node)]
  | (p, old) :: rest, place, node =>
    if p = place then (p, node) :: rest else (p, old) :: putIn rest place node

theorem find?_putIn (nodes : List (Place × Node)) (place other : Place) (node : Node) :
    find? (putIn nodes place node) other = if place = other then some node else find? nodes other := by
  induction nodes with
  | nil => simp [putIn, find?]
  | cons entry rest ih =>
    obtain ⟨p, old⟩ := entry
    by_cases hp : p = place
    · subst hp
      by_cases ho : p = other <;> simp [putIn, find?, ho]
    · by_cases ho : p = other
      · subst ho
        simp [putIn, find?, hp, Ne.symm hp]
      · simp [putIn, find?, hp, ho, ih]

/-- What stands at a place. The top is always a directory. -/
def node? (t : FileTree) (place : Place) : Option Node :=
  if place.isEmpty then some (.directory t.clock) else find? t.nodes place

/-- Something is put at a place. -/
def put (t : FileTree) (place : Place) (node : Node) : FileTree :=
  { t with nodes := putIn t.nodes place node }

/-- What stands at a place is taken away. -/
def take (t : FileTree) (place : Place) : FileTree :=
  { t with nodes := t.nodes.filter (·.1 != place) }

/-- The name of the directory above. -/
def up : Text := ['.', '.']

/-- Follows names from a place on. -/
def follow (t : FileTree) : Place → List Text → Except Fault Place
  | here, [] => .ok here
  | here, name :: rest =>
    match t.node? here with
    | some (.directory _) => follow t (if name = up then here.dropLast else here ++ [name]) rest
    | some (.file ..) => .error .notDirectory
    | none => .error .noSuchFile

/-- The place where a path starts. -/
def start (t : FileTree) (p : Path) : Place := if p.root.isEmpty then t.home else []

/-- The place that a path leads to. There need not be anything at the place itself. -/
def locate (t : FileTree) (p : Path) : Except Fault Place := t.follow (t.start p) p.parts

/-- The place that a path leads to if every name on the way is a directory. -/
def absolute (t : FileTree) (p : Path) : Place :=
  p.parts.foldl (fun here name => if name = up then here.dropLast else here ++ [name]) (t.start p)

/-- What a path leads to. -/
def at? (t : FileTree) (p : Path) : Option Node := (t.locate p).toOption.bind t.node?

/-- The path leads to a file. -/
def isFile (t : FileTree) (p : Path) : Bool := (t.at? p).any Node.isFile

/-- The path leads to a directory. -/
def isDirectory (t : FileTree) (p : Path) : Bool := (t.at? p).any Node.isDirectory

/-- The time of what a path leads to. -/
def stamp? (t : FileTree) (p : Path) : Option Stamp := (t.at? p).map Node.stamp

/-- The content of a file. -/
def read (t : FileTree) (p : Path) : Except Fault Bytes := do
  match t.node? (← t.locate p) with
  | some (.file content _) => return content
  | some (.directory _) => throw .isDirectory
  | none => throw .noSuchFile

/-- The content of a file as text, which must be well-formed. -/
def readText (t : FileTree) (p : Path) : Except Fault Text := do
  match Bytes.decode? (← t.read p) with
  | some text => return text.unifyNewlines
  | none => throw .notUtf8

/-- Writes a file in a directory that exists. -/
def write (t : FileTree) (p : Path) (content : Bytes) : Except Fault FileTree := do
  let place ← t.locate p
  match t.node? place with
  | some (.directory _) => throw .isDirectory
  | _ => return t.put place (.file content t.clock)

/-- Makes a directory in one that exists. A directory that is there already stays as it is. -/
def makeDirectory (t : FileTree) (p : Path) : Except Fault FileTree := do
  let place ← t.locate p
  match t.node? place with
  | some (.directory _) => return t
  | some (.file ..) => throw .fileExists
  | none => return t.put place (.directory t.clock)

/-- Makes a directory, given by its names from the last one on, and those above it that are missing. -/
def makeUpwards (root : Text) (t : FileTree) : List Text → Except Fault FileTree
  | [] => .ok t
  | name :: above =>
    let p : Path := ⟨root, (name :: above).reverse⟩
    match t.makeDirectory p with
    | .error .noSuchFile => do (← makeUpwards root t above).makeDirectory p
    | result => result

/-- Makes a directory and those above it that are missing. -/
def makeDirectories (t : FileTree) (p : Path) : Except Fault FileTree := makeUpwards p.root t p.parts.reverse

/-- Sets the time of a node. -/
def touch (t : FileTree) (p : Path) (stamp : Stamp) : Except Fault FileTree := do
  let place ← t.locate p
  match t.node? place with
  | some (.file content _) => return t.put place (.file content stamp)
  | some (.directory _) => return t.put place (.directory stamp)
  | none => throw .noSuchFile

/-- Removes a file. -/
def remove (t : FileTree) (p : Path) : Except Fault FileTree := do
  let place ← t.locate p
  match t.node? place with
  | some (.file ..) => return t.take place
  | some (.directory _) => throw .isDirectory
  | none => throw .noSuchFile

/-- The names from a place to another one below it. -/
def below? : Place → Place → Option (List Text)
  | [], names => if names.isEmpty then none else some names
  | _ :: _, [] => none
  | a :: place, b :: other => if a = b then below? place other else none

/-- Everything below a place, by the names that lead there, with what it is. -/
def nodesBelow (t : FileTree) (place : Place) : List (List Text × Node) :=
  t.nodes.filterMap fun (other, node) => (below? place other).map (·, node)

/-- Everything below a directory in the order of paths. -/
def pathsBelow (t : FileTree) (p : Path) : List Path :=
  match t.locate p with
  | .error _ => []
  | .ok place =>
    ((t.nodesBelow place).map fun (names, _) => { p with parts := p.parts ++ names }).mergeSort Path.le

end FileTree

end Marginalia
