import StyleCheck.Css.Token

/-!
# Spelling of names and strings

How a name or a string is written so that it reads back: names with backslashes before the
characters that no name may hold, strings between double quotes.
-/

namespace StyleCheck.Css.Spelling

/-- An escape by code point, with the blank that ends it. -/
def codeEscape (c : Char) : List Char := '\\' :: Nat.toDigits 16 c.toNat ++ [' ']

/-- A control character other than NUL. -/
def isControl (c : Char) : Bool := (1 ≤ c.toNat && c.toNat ≤ 31) || c.toNat == 127

/-- One character of a name. -/
def nameChar (c : Char) : List Char :=
  if c.isAlphanum || c == '_' || c == '-' || 128 ≤ c.toNat then [c]
  else if c = '\x00' then [Char.ofNat 0xFFFD]
  else if isControl c then codeEscape c
  else ['\\', c]

/-- A name that begins with any of its characters. -/
def name (cs : List Char) : List Char := cs.flatMap nameChar

/-- The part of an identifier after its hyphen: a digit there is escaped by its code point. -/
def afterHyphen : List Char → List Char
  | c :: rest => if c.isDigit then codeEscape c ++ name rest else name (c :: rest)
  | [] => []

/-- An identifier. -/
def identChars : List Char → List Char
  | '-' :: '-' :: rest => '-' :: '-' :: name rest
  | ['-'] => ['\\', '-']
  | '-' :: rest => '-' :: afterHyphen rest
  | cs => afterHyphen cs

/-- An identifier. -/
def ident (s : String) : String := String.ofList (identChars s.toList)

/-- One character of a string. -/
def stringChar (c : Char) : List Char :=
  if c = '"' then ['\\', '"']
  else if c = '\\' then ['\\', '\\']
  else if c = '\x00' then [Char.ofNat 0xFFFD]
  else if isControl c then codeEscape c
  else [c]

/-- A string between double quotes. -/
def string (s : String) : String := "\"" ++ String.ofList (s.toList.flatMap stringChar) ++ "\""

end StyleCheck.Css.Spelling
