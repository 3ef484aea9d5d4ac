import Marginalia.Cache.Shelf
import Marginalia.Cache.Slot

/-!
# Caches

Where documents are kept between requests: nowhere, in a slot, or on a shelf.
-/

namespace Marginalia

/-- A place for documents. -/
inductive Cache where
  | off
  | slot (s : Slot)
  | shelf (s : Shelf)

namespace Cache

/-- The document kept for a file. -/
def get (c : Cache) (tree : FileTree) (key : Text) : Option Document × Cache × List Event :=
  match c with
  | .off => (none, .off, [])
  | .slot s =>
    let (d, s) := s.get key
    (d, .slot s, [])
  | .shelf s =>
    let (d, s, events) := s.get tree key
    (d, .shelf s, events)

/-- The document of a file is kept. -/
def put (c : Cache) (tree : FileTree) (key : Text) (d : Document) : Cache :=
  match c with
  | .off => .off
  | .slot s => .slot (s.put key d)
  | .shelf s => .shelf (s.put tree key d)

end Cache

end Marginalia
