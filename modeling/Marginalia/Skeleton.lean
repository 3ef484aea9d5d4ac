import Marginalia.Text.Basic

/-!
# Skeleton code

Code outside of comments in a normal form: blanks are collapsed to one space, there is no space before some
punctuation, and statements are separated by line feeds. The skeleton is built piece by piece. A piece is
one character, or two inside a string where the first escapes the second, so that the space of an escape is
never taken for a space between words.
-/

namespace Marginalia

/-- What is added to a skeleton at once. -/
inductive Piece where
  | one (c : Char)
  | two (c d : Char)
  deriving DecidableEq, Repr

namespace Piece

/-- The characters of a piece. -/
def text : Piece → Text
  | .one c => [c]
  | .two c d => [c, d]

/-- The last character of a piece. -/
def last : Piece → Char
  | .one c => c
  | .two _ d => d

end Piece

/-- Code collected so far, the last piece first. -/
abbrev Skeleton := List Piece

namespace Skeleton

/-- The code as text. -/
def text (s : Skeleton) : Text := s.reverse.flatMap Piece.text

/-- The code without the spaces at its end. -/
def trim : Skeleton → Skeleton
  | .one ' ' :: rest => trim rest
  | s => s

/-- One space, unless nothing or a blank stands before it. -/
def softSpace : Skeleton → Skeleton
  | [] => []
  | p :: rest => if isBlank p.last then p :: rest else .one ' ' :: p :: rest

/-- A line feed in place of the spaces at the end. -/
def newline (s : Skeleton) : Skeleton := .one '\n' :: s.trim

end Skeleton

end Marginalia
