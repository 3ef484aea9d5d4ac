import Marginalia.Proofs.Anchors
import Marginalia.Proofs.Lower
import Marginalia.Proofs.Utf8

/-!
# Links that are followed

A reader of links: references in the markup are read as the characters they stand for, and the query is decoded as that
of a form. A link to a declaration is read back as the parameters it was built from. The parameter that names the
declaration selects the last declaration with that name, whatever the case.
-/

namespace Marginalia

namespace Markup

/-! ## The reader -/

/-- References and the characters they stand for. -/
def references : List (Text × Char) :=
  [("&amp;", '&'), ("&lt;", '<'), ("&gt;", '>'), ("&quot;", '"'), ("&#x27;", '\'')]

/-- A text, of which `skip` characters are passed over, with characters in the place of references. -/
def unescapeFrom : (skip : Nat) → Text → Text
  | _, [] => []
  | skip + 1, _ :: t => unescapeFrom skip t
  | 0, c :: t =>
    match references.find? fun entry => entry.1.isPrefixOf (c :: t) with
    | some (reference, d) => d :: unescapeFrom (reference.length - 1) t
    | none => c :: unescapeFrom 0 t

/-- A text with characters in the place of references. -/
def unescape (t : Text) : Text := unescapeFrom 0 t

theorem unescapeFrom_escapeChar (c : Char) (t : Text) :
    unescapeFrom 0 (escapeChar c ++ t) = c :: unescapeFrom 0 t := by
  unfold escapeChar
  split
  · next same => subst same; rfl
  split
  · next same => subst same; rfl
  split
  · next same => subst same; rfl
  split
  · next same => subst same; rfl
  split
  · next same => subst same; rfl
  next noAmpersand _ _ _ _ =>
  have plain : references.find? (fun entry => entry.1.isPrefixOf (c :: t)) = none := by
    simp [references, List.isPrefixOf, Ne.symm noAmpersand]
  rw [List.singleton_append, unescapeFrom, plain]

theorem unescape_escape_append (s t : Text) : unescape (escape s ++ t) = s ++ unescape t := by
  induction s with
  | nil => rfl
  | cons c s ih =>
    rw [escape, List.flatMap_cons, List.append_assoc, unescape, unescapeFrom_escapeChar, List.cons_append]
    exact congrArg (c :: ·) ih

end Markup

/-! ## Names -/

theorem namePositions_append (position : Nat) (names others : List Text) :
    namePositions position (names ++ others)
      = namePositions position names ++ namePositions (position + names.length) others := by
  induction names generalizing position with
  | nil => rfl
  | cons name rest ih =>
    rw [List.cons_append, namePositions, ih, namePositions, List.cons_append, List.length_cons, Nat.add_assoc,
      Nat.add_comm 1]

theorem nameIndex_concat (names : List Text) (name : Text) :
    nameIndex (names ++ [name]) = (nameIndex names).insert name.lower names.length := by
  refine Dict.ext ?_
  rw [nameIndex, Dict.ofList, namePositions_append, Nat.zero_add]
  exact List.foldl_append

theorem get?_nameIndex_concat (names : List Text) (name other : Text) :
    (nameIndex (names ++ [name])).get? other
      = if name.lower = other then some names.length else (nameIndex names).get? other := by
  rw [nameIndex_concat]
  exact Entries.get?_insert _ _ _ _

namespace Page

open Markup

/-- A function without documentation. -/
def undocumented (name : Text) : Declaration := { signature := { kind := .function, keyword := "function", name } }

/-- Two functions whose names are one name in lower case, with much to escape in it. -/
def twice : Document where
  filename := "twice.php"
  declarations := [undocumented "Ärger & \"Co\"", undocumented "ÄRGER & \"CO\"", undocumented "other"]

end Page

end Marginalia
