import Marginalia.Files.Tree
import Marginalia.Settings.Defaults
import Marginalia.Yaml.Reader

/-!
# Settings files

Settings are the defaults with the changes that a file holds. No file, or an empty one, changes nothing.
-/

namespace Marginalia.Settings

/-- The settings of a file; the defaults if no file is named or the one named does not exist. -/
def load (tree : FileTree) (filename : Text) : Except Fault Value := do
  let p := Path.ofText filename
  if filename.isEmpty || (tree.at? p).isNone then return defaults
  match Yaml.read? (← tree.readText p) with
  | none => throw .notYaml
  | some changes => withDefaults (changes.orElse (.object []))

end Marginalia.Settings
