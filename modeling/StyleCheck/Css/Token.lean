import StyleCheck.Decimal.Single
import StyleCheck.Text.Quoted

/-!
# Style sheet tokens

The tokens of the language of style sheets, and their places by line and column. A column counts
16-bit units from one; a line counts from one.
-/

namespace StyleCheck.Css

/-- A place in the text of a sheet. -/
structure Place where
  line : Nat
  column : Nat
  deriving DecidableEq, Repr

namespace Place

/-- The place of the first character. -/
def start : Place := ⟨1, 1⟩

/-- The place after characters. Carriage return, line feed and form feed end a line, the first two
together only once. -/
def advance (p : Place) : List Char → Place
  | [] => p
  | '\r' :: '\n' :: rest => advance ⟨p.line + 1, 1⟩ rest
  | c :: rest =>
    if c = '\n' ∨ c = '\r' ∨ c = '\x0c' then advance ⟨p.line + 1, 1⟩ rest
    else advance ⟨p.line, p.column + if c.toNat < 0x10000 then 1 else 2⟩ rest

end Place

/-- A number as written: its value, whether it had a sign, and the integer that it spells. -/
structure Numeral where
  value : Float32
  signed : Bool
  integer : Option Int
  deriving Repr

/-- The brackets that open a block; a function's name stands before its parenthesis. -/
inductive Opener
  | function (name : String)
  | paren
  | square
  | curly
  deriving DecidableEq, Repr

/-- A token that opens no block. The names in hashes, at-keywords and units have their escapes
resolved. A percentage keeps a hundredth of its number. -/
inductive Token
  | ident (name : String)
  | atKeyword (name : String)
  | hash (name : String)
  | idHash (name : String)
  | string (text : String)
  | badString (text : String)
  | url (text : String)
  | badUrl (text : String)
  | delim (c : Char)
  | number (n : Numeral)
  | percentage (n : Numeral)
  | dimension (n : Numeral) (unit : String)
  | space (text : String)
  | comment (text : String)
  | colon
  | semicolon
  | comma
  | includeMatch
  | dashMatch
  | startMatch
  | endMatch
  | partMatch
  | markupOpen
  | markupClose
  | closeParen
  | closeSquare
  | closeCurly
  deriving Repr

/-- A character between single quotes. -/
def quotedCharLiteral (c : Char) : String :=
  "'" ++ (if c = '\'' then "\\'" else if c = '"' then "\"" else Text.quotedChar c) ++ "'"

namespace Numeral

/-- A single with all its digits and at least one behind the point. -/
def fullText (x : Float32) : String :=
  if x == 0 then if Decimal.isNegative x then "-0.0" else "0.0"
  else
    let (negative, digits) := Decimal.Digits.ofSingle x
    (if negative then "-" else "") ++ digits.positional "0" ++
      if Decimal.isWhole x then ".0" else ""

/-- The fields of a number as a message shows them. -/
def fields (n : Numeral) (value : String) : String :=
  "has_sign: " ++ (if n.signed then "true" else "false") ++ ", " ++ value ++ ": " ++
    fullText n.value ++ ", int_value: " ++
    match n.integer with
    | some i => "Some(" ++ toString i ++ ")"
    | none => "None"

end Numeral

/-- A token as a message names it. -/
def Token.picture : Token → String
  | .ident name => "Ident(" ++ Text.quoted name ++ ")"
  | .atKeyword name => "AtKeyword(" ++ Text.quoted name ++ ")"
  | .hash name => "Hash(" ++ Text.quoted name ++ ")"
  | .idHash name => "IDHash(" ++ Text.quoted name ++ ")"
  | .string text => "String(" ++ Text.quoted text ++ ")"
  | .badString text => "BadString(" ++ Text.quoted text ++ ")"
  | .url text => "UnquotedUrl(" ++ Text.quoted text ++ ")"
  | .badUrl text => "BadUrl(" ++ Text.quoted text ++ ")"
  | .delim c => "Delim(" ++ quotedCharLiteral c ++ ")"
  | .number n => "Number \x7b " ++ n.fields "value" ++ " \x7d"
  | .percentage n => "Percentage \x7b " ++ n.fields "unit_value" ++ " \x7d"
  | .dimension n unit =>
    "Dimension \x7b " ++ n.fields "value" ++ ", unit: " ++ Text.quoted unit ++ " \x7d"
  | .space text => "WhiteSpace(" ++ Text.quoted text ++ ")"
  | .comment text => "Comment(" ++ Text.quoted text ++ ")"
  | .colon => "Colon"
  | .semicolon => "Semicolon"
  | .comma => "Comma"
  | .includeMatch => "IncludeMatch"
  | .dashMatch => "DashMatch"
  | .startMatch => "PrefixMatch"
  | .endMatch => "SuffixMatch"
  | .partMatch => "SubstringMatch"
  | .markupOpen => "CDO"
  | .markupClose => "CDC"
  | .closeParen => "CloseParenthesis"
  | .closeSquare => "CloseSquareBracket"
  | .closeCurly => "CloseCurlyBracket"

/-- An opening bracket as a message names it. -/
def Opener.picture : Opener → String
  | .function name => "Function(" ++ Text.quoted name ++ ")"
  | .paren => "ParenthesisBlock"
  | .square => "SquareBracketBlock"
  | .curly => "CurlyBracketBlock"

end StyleCheck.Css
