import StyleCheck.Text.Space

/-!
# Selector tokens

A selector text becomes one token per character, each with the kind of its character and its place
in the text. Nothing is merged or dropped, so the characters of the tokens are the text again.
-/

namespace StyleCheck.Selector

/-- What a character can be to the selector grammar. -/
inductive Kind
  | letter
  | digit
  | minus
  | underscore
  | whitespace
  | hash
  | period
  | leftBracket
  | rightBracket
  | leftParen
  | rightParen
  | colon
  | asterisk
  | equals
  | quote
  | tilde
  | leftAngle
  | rightAngle
  | dollar
  | caret
  | pipe
  | comma
  | plus
  | other
  deriving DecidableEq, Repr

namespace Kind

/-- The kind of a character; `>` is the left angle bracket and `<` the right one. -/
def ofChar (c : Char) : Kind :=
  if c.isAlpha then .letter
  else if c.isDigit then .digit
  else if Text.isSpace c then .whitespace
  else match c with
    | '[' => .leftBracket
    | ']' => .rightBracket
    | '(' => .leftParen
    | ')' => .rightParen
    | ':' => .colon
    | '.' => .period
    | '#' => .hash
    | '*' => .asterisk
    | '=' => .equals
    | '"' => .quote
    | '\'' => .quote
    | '~' => .tilde
    | '>' => .leftAngle
    | '<' => .rightAngle
    | '$' => .dollar
    | '^' => .caret
    | '|' => .pipe
    | ',' => .comma
    | '-' => .minus
    | '+' => .plus
    | '_' => .underscore
    | _ => .other

/-- The kind's name in messages. -/
def name : Kind → String
  | .letter => "letter"
  | .digit => "digit"
  | .minus => "minus"
  | .underscore => "underscore"
  | .whitespace => "whitespace"
  | .hash => "hash"
  | .period => "period"
  | .leftBracket => "left_bracket"
  | .rightBracket => "right_bracket"
  | .leftParen => "left_paren"
  | .rightParen => "right_paren"
  | .colon => "colon"
  | .asterisk => "asterisk"
  | .equals => "equals"
  | .quote => "quote"
  | .tilde => "tilde"
  | .leftAngle => "left_angle_bracket"
  | .rightAngle => "right_angle_bracket"
  | .dollar => "dollar"
  | .caret => "caret"
  | .pipe => "pipe"
  | .comma => "comma"
  | .plus => "plus"
  | .other => "other"

/-- Every kind. -/
def all : List Kind :=
  [.letter, .digit, .minus, .underscore, .whitespace, .hash, .period, .leftBracket, .rightBracket,
    .leftParen, .rightParen, .colon, .asterisk, .equals, .quote, .tilde, .leftAngle, .rightAngle,
    .dollar, .caret, .pipe, .comma, .plus, .other]

/-- The kind with the given name. -/
def ofName? (name : String) : Option Kind := all.find? (·.name == name)

end Kind

/-- A place in a text. Lines and columns count from one, `offset` counts characters from zero. Where
lines and columns are words of 32 bits, this is exact for texts of fewer than `2 ^ 32 - 1`
characters. -/
structure Position where
  line : Nat
  column : Nat
  offset : Nat
  deriving DecidableEq, Repr

namespace Position

/-- The place of the first character. -/
def start : Position := ⟨1, 1, 0⟩

/-- The place after a character: a line feed opens the next line. -/
def advance (p : Position) (c : Char) : Position :=
  if c = '\n' then ⟨p.line + 1, 1, p.offset + 1⟩ else ⟨p.line, p.column + 1, p.offset + 1⟩

/-- The place after a run of characters. -/
def advanceOver (p : Position) (cs : List Char) : Position := cs.foldl advance p

/-- The place as line and column. -/
def render (p : Position) : String := toString p.line ++ ":" ++ toString p.column

end Position

/-- A character with its kind and place. -/
structure Token where
  kind : Kind
  char : Char
  position : Position
  deriving DecidableEq, Repr

/-- The tokens of a text that begins at `p`. -/
def tokensFrom (p : Position) : List Char → List Token
  | [] => []
  | c :: cs => ⟨.ofChar c, c, p⟩ :: tokensFrom (p.advance c) cs

/-- The tokens of a text. -/
def tokenize (text : String) : List Token := tokensFrom .start text.toList

end StyleCheck.Selector
