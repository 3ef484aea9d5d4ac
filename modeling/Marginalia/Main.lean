import Marginalia.Command.Run

/-!
# The command line program

The files that a command names are read into a tree, the command runs on the tree, and what it has changed
there is written.
-/

namespace Marginalia.Program

/-- The name of a place for the system. -/
def systemName (place : Place) : String := String.ofList ('/' :: Text.join "/" place)

/-- Reads what stands at a place, and down to a depth what is below it. -/
def snapshot : Nat → FileTree → Place → IO FileTree
  | depth, tree, place => do
    let path := (← IO.currentDir) / systemName place
    if !(← path.pathExists) then return tree
    let time := (← path.metadata).modified
    let stamp : Stamp := ⟨time.sec, time.nsec.toNat⟩
    if ← path.isDir then
      let tree := tree.put place (.directory stamp)
      match depth with
      | 0 => return tree
      | depth + 1 =>
        (← path.readDir).toList.foldlM
          (fun tree entry => snapshot depth tree (place ++ [entry.fileName.toList])) tree
    else
      return tree.put place (.file (← IO.FS.readBinFile path).toList stamp)

/-- The beginnings of a list of names, the shortest one first. -/
def beginnings (names : List Text) : List (List Text) := (List.range (names.length + 1)).map names.take

/-- Reads what a path leads to, and everything on the way. -/
def snapshotPath (depth : Nat) (tree : FileTree) (p : Path) : IO FileTree := do
  let steps := (beginnings p.parts).map fun parts => tree.absolute { p with parts }
  let tree ← steps.foldlM (snapshot 0) tree
  snapshot depth tree (tree.absolute p)

/-- How deep directories of sources are searched. -/
def searchDepth : Nat := 64

/-- Reads everything that a command may look at. -/
def snapshotFor (options : Command.Options) (tree : FileTree) : IO FileTree := do
  let tree ← (beginnings tree.home).foldlM (snapshot 0) tree
  let tree ← options.sources.foldlM (snapshotPath searchDepth) tree
  let tree ← options.outDir.toList.foldlM (snapshotPath 1) tree
  let tree ← options.cache.toList.foldlM (snapshotPath 0) tree
  snapshotPath 0 tree (Path.ofText options.config)

/-- Writes what differs between two trees. -/
def writeChanges (before after : FileTree) : IO Unit :=
  after.nodes.forM fun (place, node) => do
    if before.node? place ≠ some node then
      match node with
      | .directory _ => IO.FS.createDirAll (systemName place)
      | .file content _ => IO.FS.writeBinFile (systemName place) content.toByteArray

/-- What is said about a command line that makes no sense. -/
def usage : String :=
  "usage: [-h] [--out-dir DIR] [--config FILE] [--clickable] [--lookup NAME] [--summary-only] [--no-errors]"
    ++ " [--cache FILE] [--strict] [-v] sources [sources ...]"

/-- Shows what a command did, and gives its exit code. -/
def conclude : Command.Outcome → IO UInt32
  | .stopped .help => do
    IO.println usage
    return 0
  | .stopped .usage => do
    IO.eprintln usage
    return 2
  | .finished code output errors => do
    IO.print (String.ofList output)
    IO.eprint (String.ofList errors)
    return code.toUInt32
  | .failed fault => do
    IO.eprintln (reprStr fault)
    return 1

/-- The tree of a process that knows no files yet. -/
def emptyTree : IO FileTree := do
  let home := (Path.ofText (← IO.currentDir).toString.toList).parts
  return { home, clock := ⟨0, 0⟩ }

end Marginalia.Program

open Marginalia in
def main (args : List String) : IO UInt32 := do
  let words := args.map String.toList
  let empty ← Program.emptyTree
  let before ← match Command.Options.read words with
    | .ok options => Program.snapshotFor options empty
    | .error _ => pure empty
  let (outcome, after) := Command.run words before
  Program.writeChanges before after
  Program.conclude outcome
