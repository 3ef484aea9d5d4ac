import Marginalia.Block.Reader
import Marginalia.Document.Audit
import Marginalia.Segment
import Marginalia.Settings.Basic

/-!
# Documents of sources

A source is cut into segments. The first documentation comment is the main block, if no declaration comes
before it. Every other comment documents the first declaration in the code that follows it; if there is none,
the comment is an orphan.
-/

namespace Marginalia

/-- What has been collected from the segments of a source. -/
structure Collected where
  main : Option Block := none
  declarations : List Declaration := []
  /-- The block for the next declaration. -/
  pending : Block := {}
  /-- The pending block has been read and given to no declaration. -/
  waiting : Bool := false
  /-- Summaries of the orphans in order. -/
  orphans : List Text := []
  deriving DecidableEq, Repr

namespace Collected

/-- The code of a segment. -/
def addCode (p : Profile) (c : Collected) (code : Text) : Collected :=
  match Declaration.ofCode p code c.pending with
  | [] => if c.waiting then { c with orphans := c.orphans ++ [c.pending.summary] } else c
  | found =>
    { c with declarations := c.declarations ++ found, pending := {}, waiting := false }

/-- The segments one after the other. If only the summary is wanted, the main block is the last thing
    read. -/
def addSegments (p : Profile) (summaryOnly : Bool) : Collected → List Segment → Collected
  | c, [] => c
  | c, segment :: rest =>
    let c := c.addCode p segment.code
    match segment.doc with
    | none => c
    | some raw =>
      let block := Block.read p raw
      if c.main.isNone && c.declarations.isEmpty then
        let c := { c with main := some block }
        if summaryOnly then c else addSegments p summaryOnly c rest
      else addSegments p summaryOnly { c with pending := block, waiting := true } rest

/-- Everything in a source. -/
def ofSource (p : Profile) (summaryOnly : Bool) (source : Text) : Collected :=
  addSegments p summaryOnly {} (segments p source)

end Collected

/-- What is wanted of a source. -/
structure Request where
  summaryOnly : Bool := false
  /-- A declaration to be selected; empty for none. -/
  lookup : Text := []
  deriving DecidableEq, Repr

namespace Document

/-- The trace of a collection. -/
def orphanNotes (debug : Bool) (c : Collected) : List Text :=
  if debug then c.orphans.map ("Orphan block: ".toList ++ ·) else []

/-- The document of what has been collected. -/
def ofCollected (p : Profile) (settings : Value) (filename : Text) (request : Request) (c : Collected) :
    Except Fault Document := do
  let settings := settings.orElse (.object [])
  let debug ← Settings.debug settings
  let document : Document :=
    { filename, main := c.main.getD {}, debug := orphanNotes debug c }
  if request.summaryOnly then return document
  let found : Text :=
    "Found " ++ decimal c.declarations.length ++ " declarations in " ++ filename
  let document :=
    { document with
      declarations := c.declarations
      debug := document.debug ++ if debug then [found] else [] }
  let rules ← Audit.Rules.ofSection (← Settings.part settings "lint")
  let problems ← audit p rules document
  let document := { document with problems }
  return if request.lookup.isEmpty then document else document.select request.lookup

/-- The document of a source. -/
def ofSource (p : Profile) (settings : Value) (filename source : Text) (request : Request) :
    Except Fault Document :=
  ofCollected p settings filename request (Collected.ofSource p request.summaryOnly source)

end Document

end Marginalia
