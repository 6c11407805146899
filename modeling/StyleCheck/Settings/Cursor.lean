/-!
# Places in a settings text

A place is a line and the number of bytes of that line before it. Characters are read whole, but an
error inside of a character points past its first byte.
-/

namespace StyleCheck.Settings

/-- A line, counted from one, and the number of bytes before the place in it. -/
structure Place where
  line : Nat
  column : Nat
  deriving DecidableEq, Repr

namespace Place

/-- The place before the text. -/
def start : Place := ⟨1, 0⟩

/-- The place after a line feed. -/
def newLine (p : Place) : Place := ⟨p.line + 1, 0⟩

/-- The place `n` bytes further in the line. -/
def advance (p : Place) (n : Nat) : Place := ⟨p.line, p.column + n⟩

/-- The place after a character. -/
def past (p : Place) (c : Char) : Place := if c = '\n' then p.newLine else p.advance c.utf8Size

/-- The place after the first byte of a character. -/
def into (p : Place) (c : Char) : Place := if c = '\n' then p.newLine else p.advance 1

/-- The place after a text. -/
def pastAll (p : Place) (text : List Char) : Place := text.foldl past p

/-- The place after the first `n` bytes of a text. -/
def pastBytes (p : Place) : Nat → List Char → Place
  | _, [] => p
  | n, c :: rest =>
    if n = 0 then p
    else if c.utf8Size ≤ n then (p.past c).pastBytes (n - c.utf8Size) rest
    else p.advance n

end Place

/-- What is left of a text, and where that stands. -/
structure Cursor where
  rest : List Char
  place : Place
  deriving DecidableEq, Repr

namespace Cursor

/-- The cursor before a text. -/
def ofText (text : String) : Cursor := ⟨text.toList, .start⟩

/-- The place after the first byte of what is left, or the end of the text. -/
def ahead (c : Cursor) : Place :=
  match c.rest with
  | [] => c.place
  | next :: _ => c.place.into next

/-- The cursor after one character. -/
def skip (c : Cursor) : Cursor :=
  match c.rest with
  | [] => c
  | next :: rest => ⟨rest, c.place.past next⟩

/-- The cursor after `n` characters. -/
def skipMany (c : Cursor) (n : Nat) : Cursor := ⟨c.rest.drop n, c.place.pastAll (c.rest.take n)⟩

/-- Whether a character may stand between tokens. -/
def isBlank (c : Char) : Bool := c == ' ' || c == '\n' || c == '\t' || c == '\r'

/-- The cursor at the next character that is not blank. -/
def skipBlanks (c : Cursor) : Cursor := c.skipMany (c.rest.takeWhile isBlank).length

/-- The digits that stand next. -/
def digits (c : Cursor) : List Char := c.rest.takeWhile Char.isDigit

end Cursor

end StyleCheck.Settings
