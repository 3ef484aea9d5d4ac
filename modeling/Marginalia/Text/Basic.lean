/-!
# Texts

A text is the list of its characters. All rules of this library about text are recursions on characters, so
the list is the working form, and a string literal stands for the list of its characters. The module holds
blank characters, trimming, words, lines, joining and searching.
-/

namespace Marginalia

/-- A text as the list of its characters. -/
abbrev Text := List Char

instance : Coe String Text := ⟨String.toList⟩

/-- Membership in a table of inclusive ranges of code points. -/
def inRanges (ranges : List (Nat × Nat)) (n : Nat) : Bool :=
  ranges.any fun range => range.1 ≤ n && n ≤ range.2

/-- Code points of the blank characters: separators of words, lines and paragraphs, the information
    separators U+001C to U+001F, and the spaces of all widths. -/
def blankRanges : List (Nat × Nat) :=
  [(0x9, 0xd), (0x1c, 0x20), (0x85, 0x85), (0xa0, 0xa0), (0x1680, 0x1680), (0x2000, 0x200a),
   (0x2028, 0x2029), (0x202f, 0x202f), (0x205f, 0x205f), (0x3000, 0x3000)]

/-- Blank characters. -/
def isBlank (c : Char) : Bool := inRanges blankRanges c.toNat

namespace Text

/-- A text without its leading blanks. -/
def trimLeft (t : Text) : Text := t.dropWhile isBlank

/-- A text without its trailing characters that satisfy `p`. -/
def dropRightWhile (p : Char → Bool) (t : Text) : Text := (t.reverse.dropWhile p).reverse

/-- A text without its trailing blanks. -/
def trimRight (t : Text) : Text := dropRightWhile isBlank t

/-- A text without its leading and trailing blanks. -/
def trim (t : Text) : Text := trimRight (trimLeft t)

/-- A text without the characters satisfying `p` at both ends. -/
def trimMatches (p : Char → Bool) (t : Text) : Text := dropRightWhile p (t.dropWhile p)

/-- The parts of a text between the characters that satisfy `p`; there is always at least one part. -/
def splitOn (p : Char → Bool) : Text → List Text
  | [] => [[]]
  | c :: t =>
    if p c then [] :: splitOn p t
    else match splitOn p t with
      | [] => [[c]]
      | part :: parts => (c :: part) :: parts

/-- The lines of a text. Only the line feed ends a line. -/
def lines (t : Text) : List Text := splitOn (· == '\n') t

/-- The maximal runs of characters that are not blank. -/
def words (t : Text) : List Text := (splitOn isBlank t).filter (!·.isEmpty)

/-- The first word of a text and what follows it, without the blanks around the word. Both are empty for a
    blank text. -/
def firstWord (t : Text) : Text × Text :=
  let start := t.trimLeft
  (start.takeWhile (!isBlank ·), Text.trimLeft (start.dropWhile (!isBlank ·)))

/-- The texts in order with `separator` between neighbours. -/
def join (separator : Text) (parts : List Text) : Text := separator.intercalate parts

/-- Starts with `start`. -/
def startsWith (t start : Text) : Bool := start.isPrefixOf t

/-- What follows `start` in a text that starts with it. -/
def afterStart? : Text → Text → Option Text
  | [], t => some t
  | _ :: _, [] => none
  | a :: start, b :: t => if a = b then afterStart? start t else none

/-- Ends with `ending`. -/
def endsWith (t ending : Text) : Bool := ending.isSuffixOf t

/-- Position of the first occurrence of `part`. -/
def indexOf? (part : Text) : Text → Option Nat
  | [] => if part.isEmpty then some 0 else none
  | c :: t => if part.isPrefixOf (c :: t) then some 0 else (indexOf? part t).map (· + 1)

/-- Position of the last occurrence of `part`. -/
def lastIndexOf? (part : Text) : Text → Option Nat
  | [] => if part.isEmpty then some 0 else none
  | c :: t =>
    match lastIndexOf? part t with
    | some n => some (n + 1)
    | none => if part.isPrefixOf (c :: t) then some 0 else none

/-- Contains `part` somewhere. -/
def includes (t part : Text) : Bool := (indexOf? part t).isSome

/-- `replaceFrom part new skip t` skips `skip` characters of `t`, then puts `new` for every occurrence of
    `part`, from left to right and without overlap. -/
def replaceFrom (part new : Text) : Nat → Text → Text
  | _, [] => []
  | skip + 1, _ :: t => replaceFrom part new skip t
  | 0, c :: t =>
    if part.isPrefixOf (c :: t) then new ++ replaceFrom part new (part.length - 1) t
    else c :: replaceFrom part new 0 t

/-- `new` in place of every occurrence of the non-empty `part`. -/
def replace (part new t : Text) : Text := replaceFrom part new 0 t

/-- Order by code points, the shorter of two texts first where one starts the other. -/
def le : Text → Text → Bool
  | [], _ => true
  | _ :: _, [] => false
  | a :: s, b :: t => a.toNat < b.toNat || (a == b && le s t)

/-- A list of texts in increasing order without repetition. -/
def sortedSet (ts : List Text) : List Text := (ts.mergeSort le).eraseDups

end Text

end Marginalia
