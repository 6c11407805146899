/-!
# White space

Two classes of blank characters: the Unicode property `White_Space`, which selectors and style
values go by, and the five ASCII blanks that separate the words of a class attribute.
-/

namespace StyleCheck.Text

/-- The Unicode property `White_Space`. -/
def isSpace (c : Char) : Bool :=
  let n := c.toNat
  (9 ≤ n && n ≤ 13) || n == 0x20 || n == 0x85 || n == 0xA0 || n == 0x1680 ||
    (0x2000 ≤ n && n ≤ 0x200A) || n == 0x2028 || n == 0x2029 || n == 0x202F || n == 0x205F ||
    n == 0x3000

/-- Tab, line feed, form feed, carriage return and space. -/
def isAsciiSpace (c : Char) : Bool :=
  c == ' ' || c == '\t' || c == '\n' || c == '\x0c' || c == '\r'

/-- Drop the members of a class from the end. -/
def dropRightWhile (p : Char → Bool) (s : List Char) : List Char :=
  (s.reverse.dropWhile p).reverse

/-- The text without the white space at its ends. -/
def trimChars (s : List Char) : List Char := dropRightWhile isSpace (s.dropWhile isSpace)

/-- The text without the white space at its ends. -/
def trim (s : String) : String := String.ofList (trimChars s.toList)

/-- The words left between separators; the separators and empty words are dropped. -/
def wordsFrom (sep : Char → Bool) (word : List Char) : List Char → List (List Char)
  | [] => if word.isEmpty then [] else [word.reverse]
  | c :: rest =>
    if sep c then
      if word.isEmpty then wordsFrom sep [] rest else word.reverse :: wordsFrom sep [] rest
    else wordsFrom sep (c :: word) rest

/-- The words of a text between ASCII blanks. -/
def asciiWords (s : String) : List String :=
  (wordsFrom isAsciiSpace [] s.toList).map String.ofList

end StyleCheck.Text
