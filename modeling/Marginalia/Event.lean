import Marginalia.Text.Quoted
import Marginalia.Value.Shown

/-!
# Events

What is worth a line in the log. An event has a level, a part of the program that reports it, and a message.
-/

namespace Marginalia

/-- How much an event matters. -/
inductive Level where
  | debug
  | info
  | warning
  | error
  deriving DecidableEq, Repr

namespace Level

/-- The name of a level in the log. -/
def name : Level → Text
  | .debug => "DEBUG"
  | .info => "INFO"
  | .warning => "WARNING"
  | .error => "ERROR"

/-- The level calls for attention. -/
def isUrgent : Level → Bool
  | .debug | .info => false
  | .warning | .error => true

end Level

/-- Something that the log tells. -/
inductive Event where
  /-- A documentation comment documents nothing. -/
  | orphan (filename summary : Text)
  /-- A document came from a cache. -/
  | cacheHit (filename : Text)
  /-- A cache file has a layout of another version. -/
  | otherSchema (version : Value)
  /-- A cache file was written under other settings. -/
  | otherSettings
  /-- A cache file cannot be read. -/
  | unreadableCache
  /-- A cache entry is no record. -/
  | shapelessEntry (key : Text)
  /-- A cache entry holds no document. -/
  | undecodableEntry (key : Text)
  /-- A source has changed since its document was put into the cache. -/
  | staleEntry (key : Text)
  deriving Repr

namespace Event

/-- The level of an event. -/
def level : Event → Level
  | .orphan .. | .cacheHit _ => .debug
  | .staleEntry _ => .info
  | .otherSchema _ | .otherSettings | .shapelessEntry _ => .warning
  | .unreadableCache | .undecodableEntry _ => .error

/-- The part of the program that reports an event. -/
def reporter : Event → Text
  | .orphan .. => "docblocks.assembler"
  | .cacheHit _ => "docblocks.loader"
  | _ => "docblocks.document_cache"

/-- What an event says. -/
def message : Event → Text
  | .orphan filename summary =>
    filename ++ ": documentation block not followed by a declaration: " ++ summary.quoted
  | .cacheHit filename => "Using cached document for " ++ filename
  | .otherSchema version => "Schema version mismatch (" ++ version.shown ++ " != 1). Ignoring cache."
  | .otherSettings => "Configuration changed since cache was written. Ignoring."
  | .unreadableCache => "Error loading cache"
  | .shapelessEntry key => "Corrupt cache entry: " ++ key
  | .undecodableEntry key => "Corrupt cache entry: " ++ key
  | .staleEntry key => "Stale cache entry: " ++ key

/-- The line of an event in the log. -/
def line (e : Event) : Text := e.level.name ++ " " ++ e.reporter ++ ": " ++ e.message

end Event

end Marginalia
