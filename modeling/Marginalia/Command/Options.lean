import Marginalia.Files.Path
import Marginalia.Text.Word

/-!
# Command line options

The words of a command line are sorted out first: which are options, which belong to an option, and which
name sources. A long option may be shortened as long as it stays the only one with that beginning. Then the words are
taken in order. The sources are the words of the first unbroken run that belong to no option.
-/

namespace Marginalia.Command

/-- Options that are on or off. -/
inductive Switch where
  | help
  | clickable
  | summaryOnly
  | noErrors
  | strict
  | verbose
  deriving DecidableEq, Repr

/-- Options with a value. -/
inductive Setting where
  | outDir
  | config
  | lookup
  | cache
  deriving DecidableEq, Repr

/-- An option. -/
inductive Choice where
  | switch (s : Switch)
  | setting (s : Setting)
  deriving DecidableEq, Repr

/-- The long options. -/
def longNames : List (Text × Choice) :=
  [("--help", .switch .help), ("--out-dir", .setting .outDir), ("--config", .setting .config),
   ("--clickable", .switch .clickable), ("--lookup", .setting .lookup),
   ("--summary-only", .switch .summaryOnly), ("--no-errors", .switch .noErrors),
   ("--cache", .setting .cache), ("--strict", .switch .strict), ("--verbose", .switch .verbose)]

/-- The options of one letter. All of them are switches. -/
def shortNames : List (Char × Switch) := [('h', .help), ('v', .verbose)]

/-- What is wanted of a run. -/
structure Options where
  sources : List Path := []
  outDir : Option Path := none
  config : Text := []
  clickable : Bool := false
  lookup : Text := []
  summaryOnly : Bool := false
  noErrors : Bool := false
  cache : Option Path := none
  strict : Bool := false
  verbose : Bool := false
  deriving DecidableEq, Repr

/-- Why there is no run. -/
inductive Stop where
  /-- The user asked how the command is used. -/
  | help
  /-- The command line makes no sense. -/
  | usage
  deriving DecidableEq, Repr

/-- The exit code of a command that does not run. -/
def Stop.code : Stop → Nat
  | .help => 0
  | .usage => 2

/-- A word of the command line by its role. -/
inductive Word where
  /-- A source or the value of an option. -/
  | plain (t : Text)
  /-- The mark after which there are no more options. -/
  | divider
  /-- Switches written in one word; `stray` if what follows them in the word is no switch. -/
  | switches (s : List Switch) (stray : Bool)
  /-- An option with a value, which may be part of the word. -/
  | setting (s : Setting) (value : Option Text)
  /-- An option that cannot be taken as it is written. -/
  | malformed
  /-- No known option. -/
  | unknown
  deriving DecidableEq, Repr

/-- The text before the first equals sign and the text after it. -/
def splitEquals (t : Text) : Text × Option Text :=
  match Text.splitOn (· == '=') t with
  | [] | [_] => (t, none)
  | first :: rest => (first, some (Text.join ['='] rest))

/-- Digits only, and not none. -/
def isDigits (t : Text) : Bool := !t.isEmpty && t.all isDecimalDigit

/-- A minus sign and a number, whole or with a point; a line end may follow. -/
def isNegativeNumber (t : Text) : Bool :=
  let t := if Text.endsWith t ['\n'] then t.dropLast else t
  match t with
  | '-' :: rest =>
    isDigits rest ||
      match rest.dropWhile isDecimalDigit with
      | '.' :: fraction => isDigits fraction
      | _ => false
  | _ => false

/-- The switches of letters in one word, up to the first letter of none, and whether there was such a letter.
    Fails at a mark that makes the word an option with a value. -/
def cluster? : Text → Option (List Switch × Bool)
  | [] => some ([], false)
  | c :: rest =>
    if c == '=' || c == '-' then none
    else
      match shortNames.lookup c with
      | some s => (cluster? rest).map fun (more, stray) => (s :: more, stray)
      | none => some ([], true)

/-- A switch has no value. -/
def switchWord (s : Switch) (attached : Option Text) : Word :=
  if attached.isSome then .malformed else .switches [s] false

/-- The word of a long option. -/
def choiceWord (c : Choice) (attached : Option Text) : Word :=
  match c with
  | .switch s => switchWord s attached
  | .setting s => .setting s attached

/-- A word that begins like an option and names none. Numbers and words with a space are none. -/
def strayWord (t : Text) : Word := if isNegativeNumber t || t.contains ' ' then .plain t else .unknown

/-- The role of a word before the divider. Fails if it shortens several options. -/
def readWord (t : Text) : Except Stop Word :=
  let (name, attached) := splitEquals t
  match t with
  | ['-', '-'] => .ok .divider
  | '-' :: '-' :: _ =>
    match longNames.lookup name with
    | some c => .ok (choiceWord c attached)
    | none =>
      match longNames.filter fun (long, _) => Text.startsWith long name with
      | [] => .ok (strayWord t)
      | [(_, c)] => .ok (choiceWord c attached)
      | _ => .error .usage
  | '-' :: letter :: rest =>
    if (shortNames.lookup letter).isNone then .ok (strayWord t)
    else
      match cluster? (letter :: rest) with
      | some (switches, stray) => .ok (.switches switches stray)
      | none => .ok .malformed
  | _ => .ok (.plain t)

/-- The words of a command line by their roles. -/
def readWords : List Text → Except Stop (List Word)
  | [] => .ok []
  | t :: rest => do
    let word ← readWord t
    if word = .divider then return .divider :: rest.map .plain
    return word :: (← readWords rest)

/-- Turns a switch on. -/
def Options.turnOn (o : Options) : Switch → Except Stop Options
  | .help => .error .help
  | .clickable => .ok { o with clickable := true }
  | .summaryOnly => .ok { o with summaryOnly := true }
  | .noErrors => .ok { o with noErrors := true }
  | .strict => .ok { o with strict := true }
  | .verbose => .ok { o with verbose := true }

/-- Gives an option its value. -/
def Options.set (o : Options) (value : Text) : Setting → Options
  | .outDir => { o with outDir := some (Path.ofText value) }
  | .config => { o with config := value }
  | .lookup => { o with lookup := value }
  | .cache => { o with cache := some (Path.ofText value) }

/-- How far the sources have been taken. -/
inductive Phase where
  | before
  | during
  | after
  deriving DecidableEq, Repr

/-- The options after words, and whether there was a word that has no use. -/
structure Taken where
  options : Options := {}
  phase : Phase := .before
  surplus : Bool := false
  deriving DecidableEq, Repr

namespace Taken

/-- An option ends the run of sources. -/
def endSources (s : Taken) : Taken := if s.phase = .during then { s with phase := .after } else s

/-- A word that names a source, unless the sources have been taken. -/
def addSource (s : Taken) (t : Text) : Taken :=
  if s.phase = .after then { s with surplus := true }
  else
    { s with
      options := { s.options with sources := s.options.sources ++ [Path.ofText t] }
      phase := .during }

/-- Takes words in order. -/
def run : Taken → List Word → Except Stop Taken
  | s, [] => .ok s
  | s, .plain t :: rest => run (s.addSource t) rest
  | s, .divider :: rest => run (if s.phase = .after then { s with surplus := true } else s) rest
  | s, .switches switches stray :: rest => do
    let options ← switches.foldlM Options.turnOn s.options
    run { s.endSources with options, surplus := s.surplus || stray } rest
  | s, .setting setting (some value) :: rest =>
    run { s.endSources with options := s.options.set value setting } rest
  | s, .setting setting none :: .plain value :: rest =>
    run { s.endSources with options := s.options.set value setting } rest
  | _, .setting _ none :: _ => .error .usage
  | _, .malformed :: _ => .error .usage
  | s, .unknown :: rest => run { s.endSources with surplus := true } rest

end Taken

/-- The options of a command line. There must be a source, and every word must have a use. -/
def Options.read (words : List Text) : Except Stop Options := do
  let taken ← Taken.run {} (← readWords words)
  if taken.options.sources.isEmpty || taken.surplus then throw .usage
  return taken.options

end Marginalia.Command
