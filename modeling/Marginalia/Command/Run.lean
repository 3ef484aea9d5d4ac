import Marginalia.Command.Options
import Marginalia.Document.Summary
import Marginalia.Files.Collect
import Marginalia.Page.Render
import Marginalia.Settings.File
import Marginalia.Settings.Fingerprint

/-!
# Runs

A run documents sources: it prints their pages or writes them to a directory, or it prints their summaries. What
a run has written stays there even if it fails later.
-/

namespace Marginalia.Command

/-- What a run changes: the files, and what it tells. -/
structure World where
  tree : FileTree
  events : List Event := []
  output : Text := []

/-- A part of a run. -/
abbrev Action (α : Type) := ExceptT Fault (StateM World) α

/-- Prints a line. -/
def printLine (t : Text) : Action Unit := modify fun w => { w with output := w.output ++ t ++ ['\n'] }

/-- Tells events. -/
def report (events : List Event) : Action Unit := modify fun w => { w with events := w.events ++ events }

/-- The files as they are. -/
def currentTree : Action FileTree := do return (← get).tree

/-- Changes the files. -/
def setTree (tree : FileTree) : Action Unit := modify fun w => { w with tree }

/-- The line for the summary of a source. -/
def summaryLine (p : Path) (facts : Entries Value) : Text :=
  let fact (name : Text) : Text := ((facts.get? name).getD .null).shown
  p.name ++ ": " ++ fact "summary" ++ " [" ++ fact "since" ++ "]"

/-- Prints the summary of a source. -/
def printSummary (settings : Value) (p : Path) : Action Unit := do
  let (result, events) := summaryOfFile (← currentTree) settings p.toText []
  report events
  printLine (summaryLine p (← result))

/-- The line for a page that has been written. -/
def pageLine (p : Path) (d : Document) : Text :=
  let (done, all) := d.coverage
  "  " ++ p.name ++ ": " ++ decimal d.declarations.length ++ " declarations, "
    ++ Binary64.percent (Binary64.ofRatio false done all) ++ " documented, "
    ++ decimal d.problems.length ++ " problems"

/-- The name of the page of a source. -/
def pageName (p : Path) : Text := p.stem ++ ".html"

/-- What the pages of a run have in common. -/
structure Job where
  settings : Value
  style : Style
  options : Options
  /-- The directory for the pages; without one they are printed. -/
  outDir : Option Path

/-- The number of problems that call for documentation. -/
def missingCount (d : Document) : Nat := (d.problems.filter (·.kind == .missingDocumentation)).length

/-- The page of a source. Gives the cache afterwards and the number of missing pieces of documentation. -/
def page (job : Job) (cache : Cache) (p : Path) : Action (Cache × Nat) := do
  let (result, cache, events) :=
    Document.ofFile (← currentTree) job.settings cache p.toText { lookup := job.options.lookup }
  report events
  let d ← result
  let html ← Page.render job.style
    { clickable := job.options.clickable, showProblems := !job.options.noErrors } d
  match job.outDir with
  | none => printLine html
  | some dir =>
    setTree (← (← currentTree).write (dir.child (pageName p)) html.toUtf8)
    printLine (pageLine p d)
  return (cache, missingCount d)

/-- The pages of sources one after the other. -/
def pages (job : Job) : Cache → List Path → Action (Cache × Nat)
  | cache, [] => return (cache, 0)
  | cache, p :: rest => do
    let (cache, missing) ← page job cache p
    let (cache, more) ← pages job cache rest
    return (cache, missing + more)

/-- The cache of a run, with what its file holds. -/
def openCache (settings : Value) : Option Path → Action Cache
  | none => return .off
  | some path => do
    let shelf : Shelf := { path, fingerprint := ← Settings.fingerprint settings }
    let (shelf, events) := shelf.load (← currentTree)
    report events
    return .shelf shelf

/-- Writes the file of the cache. -/
def closeCache : Cache → Action Unit
  | .shelf shelf => do
    let (_, tree) ← shelf.save (← currentTree)
    setTree tree
  | _ => return

/-- The directory for the pages, which is made if it is missing. -/
def openOutDir : Option Path → Action (Option Path)
  | none => return none
  | some p => do
    let tree ← currentTree
    let dir : Path := ⟨['/'], tree.absolute p⟩
    setTree (← tree.makeDirectories dir)
    return some dir

/-- Documents sources. Gives the number of missing pieces of documentation. -/
def documentSources (settings : Value) (options : Options) (sources : List Path) : Action Nat := do
  let cache ← openCache settings options.cache
  let style ← Style.ofSettings settings Prose.render none
  let outDir ← openOutDir options.outDir
  let (cache, missing) ← pages { settings, style, options, outDir } cache sources
  closeCache cache
  if let some dir := outDir then
    printLine ("Generated " ++ decimal sources.length ++ " HTML pages into: " ++ dir.toText)
  return missing

/-- How a run has ended. -/
inductive Ending where
  /-- There was nothing to document. -/
  | noSources
  /-- Everything was done; the number of missing pieces of documentation if that counts as a failure. -/
  | done (missing : Nat)
  deriving DecidableEq, Repr

/-- A run with some options. -/
def perform (options : Options) : Action Ending := do
  let settings ← Settings.load (← currentTree) options.config
  let sources ← collectSources (← currentTree) settings options.sources
  if sources.isEmpty then return .noSources
  if options.summaryOnly then
    sources.forM (printSummary settings)
    return .done 0
  let missing ← documentSources settings options sources
  return .done (if options.strict then missing else 0)

/-- What is said at the end. -/
def Ending.message (options : Options) : Ending → Text
  | .noSources => "No source files found under: " ++ Text.join ", " (options.sources.map Path.toText) ++ "\n"
  | .done 0 => []
  | .done missing => decimal missing ++ " documentation problems (strict mode)\n"

/-- The exit code of a run. -/
def Ending.code : Ending → Nat
  | .done 0 => 0
  | _ => 1

/-- The events that a run shows. -/
def shownEvents (options : Options) (events : List Event) : Text :=
  (events.filter fun e => options.verbose || e.level.isUrgent).flatMap fun e => e.line ++ ['\n']

/-- What a command does. -/
inductive Outcome where
  /-- The command line stopped it. -/
  | stopped (s : Stop)
  /-- It ran to its end. -/
  | finished (code : Nat) (output errors : Text)
  /-- It failed. -/
  | failed (f : Fault)

/-- Runs a command on files; gives what becomes of the files. -/
def run (words : List Text) (tree : FileTree) : Outcome × FileTree :=
  match Options.read words with
  | .error stop => (.stopped stop, tree)
  | .ok options =>
    let (result, world) := (perform options).run.run { tree }
    match result with
    | .error fault => (.failed fault, world.tree)
    | .ok ending =>
      (.finished ending.code world.output (shownEvents options world.events ++ ending.message options), world.tree)

end Marginalia.Command
