import Marginalia.Document.Stored
import Marginalia.Event
import Marginalia.Files.Tree
import Marginalia.Json.Reader
import Marginalia.Json.Writer
import Marginalia.Text.Case

/-!
# The shelf

A cache that is kept in a file. Each entry has the document of a source and the time of the source when the
document was put in. An entry whose source has another time, or that cannot be read, is thrown away when it is
asked for. The whole file counts for nothing if it was written under other settings.
-/

namespace Marginalia

/-- A cache of documents by the lower-case names of their files. -/
structure Shelf where
  path : Path
  /-- The fingerprint of the settings that the documents depend on. -/
  fingerprint : Text
  entries : Dict Value := .empty
  /-- The entries have changed since the file was read or written. -/
  dirty : Bool := false

namespace Shelf

/-- The version of the layout of the file. -/
def schemaVersion : Int := 1

/-- The time of a source as it is stored; null if there is no source. -/
def modified (tree : FileTree) (key : Text) : Value :=
  match tree.stamp? (Path.ofText key) with
  | some stamp => .float stamp.toSeconds
  | none => .null

/-- The value is an object. -/
def isRecord : Value → Bool
  | .object _ => true
  | _ => false

/-- What a file says: the entries it holds, or the reason why it does not count. -/
def entriesIn (fingerprint : Text) (data : Value) : Except Event (Dict Value) := do
  let .object members := data | throw .unreadableCache
  let .object info := (Entries.get? members "meta").getD (.object []) | throw .unreadableCache
  let version := (Entries.get? info "schema_version").getD (.int 0)
  if !version.same (.int schemaVersion) then throw (.otherSchema version)
  if !((Entries.get? info "config_hash").getD .null).same (.text fingerprint) then throw .otherSettings
  let .object found := (Entries.get? members "entries").getD (.object []) | throw .unreadableCache
  return Dict.ofList (found.filter fun entry => isRecord entry.2)

/-- Reads the file. The entries stay as they are if there is no file, or one that does not count. -/
def load (s : Shelf) (tree : FileTree) : Shelf × List Event :=
  if (tree.at? s.path).isNone then (s, [])
  else
    match (tree.readText s.path).toOption.bind Json.read? with
    | none => (s, [.unreadableCache])
    | some data =>
      match entriesIn s.fingerprint data with
      | .ok entries => ({ s with entries }, [])
      | .error event => (s, [event])

/-- Throws an entry away. -/
def drop (s : Shelf) (key : Text) : Shelf := { s with entries := s.entries.erase key.lower, dirty := true }

/-- What an entry holds for a source that has the given time. The time is asked for only where there is an entry with
    one. An entry of another time, or with a value at fault, is thrown away. -/
def consult (s : Shelf) (key : Text) (time : Except Fault Value) :
    Except Fault (Option DocumentRecord × Shelf × List Event) :=
  match s.entries.get? key.lower with
  | none => .ok (none, s, [])
  | some entry =>
    if !entry.truthy then .ok (none, s, [])
    else
      match entry with
      | .object members =>
        time >>= fun time =>
          if !((Entries.get? members "modified").getD .null).same time then
            .ok (none, s.drop key, [.staleEntry key])
          else
            match Stored.required entry "document" >>= DocumentRecord.decode with
            | .ok r => .ok (some r, s, [])
            | .error fault =>
              if fault.isOfValue then .ok (none, s.drop key, [.undecodableEntry key]) else .error fault
      | _ => .ok (none, s.drop key, [.shapelessEntry key])

/-- The document of a source that has not changed since. A record that is no document is thrown away. -/
def get (s : Shelf) (tree : FileTree) (key : Text) : Option Document × Shelf × List Event :=
  match s.consult key (.ok (modified tree key)) with
  | .ok (some r, s', events) =>
    match Document.ofRecord r with
    | .ok d => (some d, s', events)
    | .error _ => (none, s.drop key, [.undecodableEntry key])
  | .ok (none, s', events) => (none, s', events)
  | .error _ => (none, s, [])

/-- The entry of a document. -/
def entry (tree : FileTree) (key : Text) (d : Document) : Value :=
  .object [("filename", .text key), ("modified", modified tree key), ("document", d.encode)]

/-- Puts the document of a source in. -/
def put (s : Shelf) (tree : FileTree) (key : Text) (d : Document) : Shelf :=
  { s with entries := s.entries.insert key.lower (entry tree key d), dirty := true }

/-- The content of the file. -/
def content (s : Shelf) : Value :=
  .object
    [("meta", .object [("schema_version", .int schemaVersion), ("config_hash", .text s.fingerprint)]),
     ("entries", .object s.entries.entries)]

/-- Writes the file if anything has changed. -/
def save (s : Shelf) (tree : FileTree) : Except Fault (Shelf × FileTree) := do
  if !s.dirty then return (s, tree)
  let tree ← tree.makeDirectories s.path.parent
  let tree ← tree.write s.path (Json.write .pretty s.content).toUtf8
  return ({ s with dirty := false }, tree)

end Shelf

end Marginalia
