import Marginalia.Cache.Basic
import Marginalia.Document.Source

/-!
# Documents of files

The document of a file in a tree. A file that is missing or of no known type still has a document, which tells
the problem. A document may come from a cache; what is asked of it is never kept there.
-/

namespace Marginalia

/-- The content of a file with its name and time. -/
structure Source where
  filename : Text
  content : Text
  modified : Binary64
  deriving DecidableEq, Repr

/-- Reads a source. Octets that are no UTF-8 are read as U+FFFD. -/
def Source.load (tree : FileTree) (p : Path) : Except Fault Source := do
  let content ← tree.read p
  match tree.stamp? p with
  | some stamp => return ⟨p.toText, (Bytes.decodeLossy content).unifyNewlines, stamp.toSeconds⟩
  | none => throw .noSuchFile

namespace Document

/-- A document without content that tells a problem. -/
def unusable (filename : Text) (kind : ProblemKind) (message : Text) : Document :=
  ({ filename } : Document).addProblem kind message

/-- What is said of a file of no known type. -/
def typeMessage (p : Path) (shownName : Text) : Text :=
  (if p.extension.isEmpty then "Cannot identify the type of file to process ("
    else "Cannot document this type of file (") ++ shownName ++ ")"

/-- The profile for a file, or a document that tells why there is none. -/
def profileOfFile (tree : FileTree) (settings : Value) (filename : Text) : Except Fault (Document ⊕ Profile) := do
  let p := Path.ofText filename
  let shownName := if ← Settings.debug settings then filename else p.name
  if !tree.isFile p then
    return .inl (unusable filename .sourceUnavailable ("Source file does not exist (" ++ shownName ++ ")"))
  match ← Settings.profileFor? settings p.extension with
  | some profile => return .inr profile
  | none => return .inl (unusable filename .unrecognizedType (typeMessage p shownName))

/-- Reads the document of a file afresh. Orphans are told even if the audit fails. -/
def parseFile (tree : FileTree) (settings : Value) (profile : Profile) (p : Path) (summaryOnly : Bool) :
    Except Fault Document × List Event :=
  match Source.load tree p with
  | .error fault => (.error fault, [])
  | .ok source =>
    let c := Collected.ofSource profile summaryOnly source.content
    (ofCollected profile settings source.filename { summaryOnly } c,
      c.orphans.map (Event.orphan source.filename))

/-- A kept document as it is given out: nothing is selected in it. -/
def detached (d : Document) : Document := { d with selected := none }

/-- The trace of a document from a cache. -/
def noteCache (settings : Value) (d : Document) : Document :=
  match Settings.debug settings with
  | .ok true => { d with debug := d.debug ++ ["Loaded from cache".toList] }
  | _ => d

/-- Asks for a declaration, if there is one to ask for. -/
def lookingFor (name : Text) (d : Document) : Document := if name.isEmpty then d else d.select name

/-- The document of a file. A cache is not consulted where only the summary is wanted. -/
def ofFile (tree : FileTree) (settings : Value) (cache : Cache) (filename : Text) (request : Request) :
    Except Fault Document × Cache × List Event :=
  let p := Path.ofText filename
  match profileOfFile tree settings filename with
  | .error fault => (.error fault, cache, [])
  | .ok (.inl d) => (.ok d, cache, [])
  | .ok (.inr profile) =>
    if request.summaryOnly then
      let (result, events) := parseFile tree settings profile p true
      (result, cache, events)
    else
      let (kept, cache, events) := cache.get tree filename
      match kept with
      | some d =>
        (.ok (lookingFor request.lookup (noteCache settings d.detached)), cache, events ++ [.cacheHit filename])
      | none =>
        match parseFile tree settings profile p false with
        | (.error fault, more) => (.error fault, cache, events ++ more)
        | (.ok d, more) =>
          (.ok (lookingFor request.lookup d), cache.put tree filename d, events ++ more)

end Document

end Marginalia
