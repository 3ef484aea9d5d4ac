import Marginalia.Files.Tree
import Marginalia.Settings.Basic

/-!
# Collecting sources

A directory stands for everything below it that has an extension of a known language. Any other path stands
for itself.
-/

namespace Marginalia

/-- The extensions of the known languages in lower case. -/
def Settings.extensions (settings : Value) : Except Fault (List Text) := do
  let languages ← objectPart settings "languages"
  match languages.elements? with
  | none => throw .wrongType
  | some elements =>
    elements.mapM fun element =>
      match element with
      | .text extension => pure extension.lower
      | _ => throw .wrongShape

/-- What one path stands for. -/
def FileTree.expand (tree : FileTree) (extensions : List Text) (p : Path) : List Path :=
  if tree.isDirectory p then (tree.pathsBelow p).filter (extensions.contains ·.extension.lower) else [p]

/-- What paths stand for, one after the other. -/
def collectSources (tree : FileTree) (settings : Value) (inputs : List Path) : Except Fault (List Path) := do
  let extensions ← Settings.extensions settings
  return inputs.flatMap (tree.expand extensions)

end Marginalia
