import StyleCheck.Css.Token
import StyleCheck.Text.Hexadecimal
import StyleCheck.Text.Letters

/-!
# Reading tokens

The text of a sheet as a list of tokens with their places. Every text has tokens: what fits
nothing else is a single character.
-/

namespace StyleCheck.Css

/-- A token or the opening of a block. -/
inductive Lexeme
  | token (t : Token)
  | opening (o : Opener)
  deriving Repr

namespace Lexer

/-- Blanks of the language. -/
def isBlank (c : Char) : Bool := c == ' ' || c == '\t' || c == '\n' || c == '\r' || c == '\x0c'

/-- The ends of lines. -/
def isLineEnd (c : Char) : Bool := c == '\n' || c == '\r' || c == '\x0c'

/-- A character that may begin a name. -/
def isNameStart (c : Char) : Bool := c.isAlpha || c == '_' || c == '\x00' || 128 ≤ c.toNat

/-- A character that may continue a name. -/
def isNameChar (c : Char) : Bool := isNameStart c || c.isDigit || c == '-'

/-- A backslash and something other than the end of a line. -/
def startsEscape : List Char → Bool
  | '\\' :: c :: _ => !isLineEnd c
  | ['\\'] => true
  | _ => false

/-- Whether a name begins here. -/
def startsName : List Char → Bool
  | '-' :: '-' :: _ => true
  | '-' :: c :: rest => isNameStart c || startsEscape (c :: rest)
  | c :: rest => isNameStart c || startsEscape (c :: rest)
  | [] => false

/-- Whether a number begins here, its sign aside. -/
def startsDigits : List Char → Bool
  | '.' :: c :: _ => c.isDigit
  | c :: _ => c.isDigit
  | [] => false

/-- At most `n` hexadecimal digits: their value, how many there were, and the rest. -/
def hexRun : Nat → Nat → Nat → List Char → Nat × Nat × List Char
  | 0, value, count, text => (value, count, text)
  | n + 1, value, count, c :: rest =>
    match Text.hexValue c with
    | some d => hexRun n (16 * value + d) (count + 1) rest
    | none => (value, count, c :: rest)
  | _ + 1, value, count, [] => (value, count, [])

/-- The stand-in for characters that cannot be. -/
def replacement : Char := Char.ofNat 0xFFFD

/-- The character with a code point, or the stand-in. -/
def charOfCode (n : Nat) : Char := if n = 0 ∨ !n.isValidChar then replacement else Char.ofNat n

/-- The text past one blank, if there is one. -/
def dropBlank : List Char → List Char
  | '\r' :: '\n' :: rest => rest
  | c :: rest => if isBlank c then rest else c :: rest
  | [] => []

/-- The character that an escape stands for, its backslash read. -/
def escaped (text : List Char) : Char × List Char :=
  match text with
  | [] => (replacement, [])
  | c :: rest =>
    match hexRun 6 0 0 text with
    | (_, 0, _) => (if c = '\x00' then replacement else c, rest)
    | (value, _, rest) => (charOfCode value, dropBlank rest)

/-- A name and what follows it; `fuel` bounds its length. -/
def name : Nat → List Char → List Char × List Char
  | 0, text => ([], text)
  | _, [] => ([], [])
  | fuel + 1, c :: rest =>
    if isNameChar c then
      let r := name fuel rest
      ((if c = '\x00' then replacement else c) :: r.1, r.2)
    else if startsEscape (c :: rest) then
      let (e, rest) := escaped rest
      let r := name fuel rest
      (e :: r.1, r.2)
    else ([], c :: rest)

/-- The name at the front. -/
def nameOf (text : List Char) : String × List Char :=
  let r := name text.length text
  (String.ofList r.1, r.2)

/-- The content of a string up to its closing quote, whether it ended well, and what follows. -/
def stringRest (quote : Char) : Nat → List Char → List Char × Bool × List Char
  | 0, text => ([], true, text)
  | _, [] => ([], true, [])
  | fuel + 1, c :: rest =>
    if c = quote then ([], true, rest)
    else if isLineEnd c then ([], false, c :: rest)
    else if c = '\\' then
      match rest with
      | [] => ([], true, [])
      | '\r' :: '\n' :: rest => stringRest quote fuel rest
      | d :: rest' =>
        if isLineEnd d then stringRest quote fuel rest'
        else
          let (e, rest) := escaped rest
          let r := stringRest quote fuel rest
          (e :: r.1, r.2)
    else
      let r := stringRest quote fuel rest
      ((if c = '\x00' then replacement else c) :: r.1, r.2)

/-- The content of a comment and what follows it. -/
def commentRest : List Char → List Char × List Char
  | [] => ([], [])
  | '*' :: '/' :: rest => ([], rest)
  | c :: rest => let r := commentRest rest; (c :: r.1, r.2)

/-- What follows a broken address. -/
def badUrlRest : List Char → List Char
  | [] => []
  | ')' :: rest => rest
  | '\\' :: _ :: rest => badUrlRest rest
  | _ :: rest => badUrlRest rest

/-- The characters that may not stand in an address without quotes. -/
def breaksUrl (c : Char) : Bool :=
  c == '"' || c == '\'' || c == '(' || (1 ≤ c.toNat && c.toNat ≤ 8) || c == '\x0b' ||
    (14 ≤ c.toNat && c.toNat ≤ 31) || c == '\x7f'

/-- The content of an address without quotes, none if it is broken, and what follows. -/
def urlRest : Nat → List Char → Option (List Char) × List Char
  | 0, text => (some [], text)
  | _, [] => (some [], [])
  | fuel + 1, c :: rest =>
    if c = ')' then (some [], rest)
    else if isBlank c then
      match rest.dropWhile isBlank with
      | [] => (some [], [])
      | ')' :: rest => (some [], rest)
      | other => (none, badUrlRest other)
    else if breaksUrl c then (none, badUrlRest rest)
    else if c = '\\' then
      if startsEscape (c :: rest) then
        let (e, rest) := escaped rest
        let r := urlRest fuel rest
        (r.1.map (e :: ·), r.2)
      else (none, badUrlRest rest)
    else
      let r := urlRest fuel rest
      (r.1.map ((if c = '\x00' then replacement else c) :: ·), r.2)

/-! ### Numbers -/

/-- The value of a digit. -/
def digitValue (c : Char) : Float := (c.toNat - '0'.toNat).toFloat

/-- The whole number that digits spell. -/
def wholePart (digits : List Char) : Float :=
  digits.foldl (fun value c ↦ value * 10 + digitValue c) 0

/-- The fraction that digits behind the point spell. -/
def fractionPart (digits : List Char) : Float :=
  (digits.foldl (fun (value, unit) c ↦ (value + digitValue c * unit, unit * 0.1)) (0, 0.1)).1

/-- The sign at the front, if there is one. -/
def sign : List Char → Option Char × List Char
  | '+' :: rest => (some '+', rest)
  | '-' :: rest => (some '-', rest)
  | text => (none, text)

/-- The digits behind a point, if a digit follows it. -/
def fractionDigits : List Char → List Char × List Char
  | '.' :: c :: rest => if c.isDigit then (c :: rest).span Char.isDigit else ([], '.' :: c :: rest)
  | text => ([], text)

/-- The sign and the digits of an exponent, if there are any. -/
def exponentDigits : List Char → Option (Bool × List Char) × List Char
  | e :: rest =>
    if e = 'e' ∨ e = 'E' then
      let (s, digits) := sign rest
      let (digits, after) := digits.span Char.isDigit
      if digits.isEmpty then (none, e :: rest) else (some (s == some '-', digits), after)
    else (none, e :: rest)
  | [] => (none, [])

/-- An integer held within 32 bits. -/
def clampInt (x : Float) : Int :=
  if x ≥ 2147483647 then 2147483647
  else if x ≤ -2147483648 then -2147483648
  else if x < 0 then -(((-x).toUInt64.toNat : Int)) else (x.toUInt64.toNat : Int)

/-- A number with the unit or the percent sign after it. -/
def numeric (text : List Char) : Token × List Char :=
  let (s, rest) := sign text
  let (whole, rest) := rest.span Char.isDigit
  let (fraction, rest) := fractionDigits rest
  let (exponent, rest) := exponentDigits rest
  let size := wholePart whole + fractionPart fraction
  let signedSize := if s == some '-' then -size else size
  let value := match exponent with
    | some (negative, digits) =>
      signedSize * Float.pow 10 (if negative then -wholePart digits else wholePart digits)
    | none => signedSize
  let integer := if fraction.isEmpty && exponent.isNone then some (clampInt value) else none
  match rest with
  | '%' :: rest => (.percentage ⟨(value / 100).toFloat32, s.isSome, integer⟩, rest)
  | rest =>
    let n : Numeral := ⟨value.toFloat32, s.isSome, integer⟩
    if startsName rest then let (unit, rest) := nameOf rest; (.dimension n unit, rest)
    else (.number n, rest)

/-! ### Tokens -/

/-- A name, and whether it opens a function. -/
def identLike (text : List Char) : Lexeme × List Char :=
  let (name, rest) := nameOf text
  match rest with
  | '(' :: rest =>
    if Text.sameIgnoringCase name "url" then
      match rest.dropWhile isBlank with
      | '"' :: _ => (.opening (.function name), rest)
      | '\'' :: _ => (.opening (.function name), rest)
      | content =>
        match urlRest content.length content with
        | (some url, rest) => (.token (.url (String.ofList url)), rest)
        | (none, after) =>
          (.token (.badUrl (String.ofList (rest.take (rest.length - after.length)))), after)
    else (.opening (.function name), rest)
  | rest => (.token (.ident name), rest)

/-- A string after its opening quote. -/
def stringToken (quote : Char) (rest : List Char) : Lexeme × List Char :=
  let (content, ended, rest) := stringRest quote (rest.length + 1) rest
  let content := String.ofList content
  (.token (if ended then .string content else .badString content), rest)

/-- The token at the front of a text that is not empty. -/
def next (c : Char) (rest : List Char) : Lexeme × List Char :=
  let text := c :: rest
  let one (t : Token) : Lexeme × List Char := (.token t, rest)
  let withEquals (t : Token) : Lexeme × List Char :=
    match rest with
    | '=' :: rest => (.token t, rest)
    | _ => one (.delim c)
  let number : Lexeme × List Char := let r := numeric text; (.token r.1, r.2)
  if isBlank c then
    let (blanks, rest) := text.span isBlank
    (.token (.space (String.ofList blanks)), rest)
  else if c.isDigit then number
  else match c with
    | '"' => stringToken c rest
    | '\'' => stringToken c rest
    | '#' =>
      match rest with
      | d :: _ =>
        if isNameChar d || startsEscape rest then
          let (name, after) := nameOf rest
          (.token (if startsName rest then .idHash name else .hash name), after)
        else one (.delim '#')
      | [] => one (.delim '#')
    | '$' => withEquals .endMatch
    | '*' => withEquals .partMatch
    | '^' => withEquals .startMatch
    | '|' => withEquals .dashMatch
    | '~' => withEquals .includeMatch
    | '(' => (.opening .paren, rest)
    | '[' => (.opening .square, rest)
    | '\x7b' => (.opening .curly, rest)
    | ')' => one .closeParen
    | ']' => one .closeSquare
    | '\x7d' => one .closeCurly
    | ',' => one .comma
    | ':' => one .colon
    | ';' => one .semicolon
    | '+' => if startsDigits rest then number else one (.delim '+')
    | '.' => if startsDigits text then number else one (.delim '.')
    | '-' =>
      if startsDigits rest then number
      else match rest with
        | '-' :: '>' :: rest => (.token .markupClose, rest)
        | _ => if startsName text then identLike text else one (.delim '-')
    | '/' =>
      match rest with
      | '*' :: rest =>
        let (content, rest) := commentRest rest
        (.token (.comment (String.ofList content)), rest)
      | _ => one (.delim '/')
    | '<' =>
      match rest with
      | '!' :: '-' :: '-' :: rest => (.token .markupOpen, rest)
      | _ => one (.delim '<')
    | '@' =>
      if startsName rest then
        let (name, rest) := nameOf rest
        (.token (.atKeyword name), rest)
      else one (.delim '@')
    | c => if startsName text then identLike text else one (.delim c)

/-- The tokens of a text of at most `fuel` characters that begins at a place, and the place of its
end. -/
def lexemesFrom : Nat → Place → List Char → List (Place × Lexeme) × Place
  | 0, place, _ => ([], place)
  | _, place, [] => ([], place)
  | fuel + 1, place, c :: rest =>
    let (lexeme, after) := next c rest
    let consumed := (c :: rest).take (rest.length + 1 - after.length)
    let r := lexemesFrom fuel (place.advance consumed) after
    ((place, lexeme) :: r.1, r.2)

/-- The tokens of a text, and the place of its end. -/
def lexemes (text : String) : List (Place × Lexeme) × Place :=
  lexemesFrom text.length .start text.toList

end Lexer

end StyleCheck.Css
