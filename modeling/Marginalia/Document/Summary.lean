import Marginalia.Document.File

/-!
# Summaries of files

What the main block of a file says, as one record. The time since when there is something is the date of the
file, marked as automatic, if the block does not tell it.
-/

namespace Marginalia

/-- What a main block says by itself. -/
def Block.facts (b : Block) : Entries Value :=
  let told : Entries Value :=
    ("summary".toList, .text b.summary)
      :: (if b.description.isEmpty then [] else [("description".toList, .text b.description)])
  let told := told.insertAll (b.tags.entries.map fun (k, v) => (k, v.encode))
  if b.uses.isEmpty then told else told.insert "uses" (b.uses.encode .text)

/-- The date of a file, marked as automatic; empty if there is no file. -/
def automaticSince (tree : FileTree) (p : Path) : Except Fault Text :=
  match tree.stamp? p with
  | some stamp => do return (← stamp.date).toText ++ " (A)"
  | none => .ok []

/-- Members that are missing, with the values they start with. -/
def Entries.fill (entries : Entries Value) (initial : List (Text × Value)) : Entries Value :=
  initial.foldl (fun acc (k, v) => if (acc.get? k).isSome then acc else acc.insert k v) entries

/-- The summary of a file; `initial` has the members that it must have, with the values they start with. -/
def summaryOfFile (tree : FileTree) (settings : Value) (filename : Text) (initial : List (Text × Value)) :
    Except Fault (Entries Value) × List Event :=
  let (result, _, events) := Document.ofFile tree settings .off filename { summaryOnly := true }
  let summary : Except Fault (Entries Value) := do
    let told := (← result).main.facts
    if (told.get? "since").isSome then return told.fill initial
    let since ← automaticSince tree (Path.ofText filename)
    return Entries.fill (told.insert "since" (.text since)) initial
  (summary, events)

end Marginalia
