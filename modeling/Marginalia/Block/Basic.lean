import Marginalia.Dict

/-!
# Documentation blocks

The contents of one documentation comment.
-/

namespace Marginalia

/-- The value of a tag that may be repeated: one text, or the texts of all occurrences. -/
inductive TagValue where
  | one (t : Text)
  | many (ts : List Text)
  deriving DecidableEq, Repr

/-- A value is there and not empty. -/
def TagValue.truthy : TagValue → Bool
  | .one t => !t.isEmpty
  | .many ts => !ts.isEmpty

/-- A type with a description, as given for a parameter or a result. -/
structure Typed where
  type : Text
  description : Text
  deriving DecidableEq, Repr

/-- The contents of one documentation comment. -/
structure Block where
  summary : Text := []
  description : Text := []
  /-- Tags of known meaning: author, since and the like. -/
  tags : Dict TagValue := Dict.empty
  /-- Modules and what they are used for. -/
  uses : Dict Text := Dict.empty
  params : Dict Typed := Dict.empty
  returns : Option Typed := none
  /-- All other tags. -/
  others : Dict TagValue := Dict.empty
  deriving DecidableEq, Repr

namespace Block

/-- The block without contents. -/
def empty : Block := {}

/-- Nothing at all is documented. -/
def isEmpty (b : Block) : Bool :=
  b.summary.isEmpty && b.description.isEmpty && b.tags.isEmpty && b.uses.isEmpty && b.params.isEmpty
    && b.returns.isNone && b.others.isEmpty

/-- A tag by name, a known one before another one. -/
def tag? (b : Block) (name : Text) : Option TagValue := (b.tags.get? name).or (b.others.get? name)

end Block

end Marginalia
