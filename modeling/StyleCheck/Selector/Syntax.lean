import StyleCheck.Selector.Token

/-!
# Selectors

A selector is a chain of compounds joined by combinators, read from left to right; a compound is a
list of simple selectors about one element. Every part prints back to selector text.
-/

namespace StyleCheck.Selector

/-- How an attribute's value is compared. -/
inductive Comparison
  | equals
  | includes
  | dashMatch
  | startsWith
  | endsWith
  | contains
  deriving DecidableEq, Repr

namespace Comparison

/-- The comparison meant by what stands before `=`. -/
def ofSign? : Option Kind → Option Comparison
  | none => some .equals
  | some .tilde => some .includes
  | some .pipe => some .dashMatch
  | some .caret => some .startsWith
  | some .dollar => some .endsWith
  | some .asterisk => some .contains
  | some _ => none

/-- Every comparison. -/
def all : List Comparison := [.equals, .includes, .dashMatch, .startsWith, .endsWith, .contains]

/-- The comparison as written. -/
def text : Comparison → String
  | .equals => "="
  | .includes => "~="
  | .dashMatch => "|="
  | .startsWith => "^="
  | .endsWith => "$="
  | .contains => "*="

end Comparison

/-- The text between the first and the last character, where both take one byte; otherwise the
text is not a quoted one and there is nothing between. -/
def unquote (literal : String) : String :=
  match literal.toList with
  | [] => ""
  | first :: rest =>
    if first.utf8Size = 1 then
      match rest.getLast? with
      | some last => if last.utf8Size = 1 then String.ofList rest.dropLast else ""
      | none => ""
    else ""

/-- The value an attribute is compared with: a literal with its quotes, or a bare name. -/
inductive AttributeValue
  | literal (quoted : String)
  | bare (name : String)
  deriving DecidableEq, Repr

namespace AttributeValue

/-- The value without quotes. -/
def content : AttributeValue → String
  | .literal quoted => unquote quoted
  | .bare name => name

/-- The value as written. -/
def text : AttributeValue → String
  | .literal quoted => quoted
  | .bare name => name

end AttributeValue

/-- A condition on an attribute: presence, or a comparison with a value. -/
structure AttributeTest where
  name : String
  comparison : Option Comparison
  value : Option AttributeValue
  deriving DecidableEq, Repr

/-- The condition as written; without both a comparison and a value it is one of presence. -/
def AttributeTest.text (a : AttributeTest) : String :=
  match a.comparison, a.value with
  | some comparison, some value => "[" ++ a.name ++ comparison.text ++ value.text ++ "]"
  | _, _ => "[" ++ a.name ++ "]"

/-- One condition on an element. -/
inductive Simple
  | typeName (name : String)
  | idName (name : String)
  | className (name : String)
  | attr (test : AttributeTest)
  deriving DecidableEq, Repr

namespace Simple

/-- A type, id or class condition from its text, told apart by the first character. -/
def ofText (text : String) : Simple :=
  match text.toList with
  | '#' :: name => .idName (String.ofList name)
  | '.' :: name => .className (String.ofList name)
  | _ => .typeName text

/-- The condition as written. -/
def text : Simple → String
  | .typeName name => name
  | .idName name => "#" ++ name
  | .className name => "." ++ name
  | .attr test => test.text

end Simple

/-- The conditions on one element. -/
structure Compound where
  conditions : List Simple
  deriving DecidableEq, Repr

/-- The conditions as written, one after the other. -/
def Compound.text (c : Compound) : String := String.join (c.conditions.map Simple.text)

/-- How the elements of two neighbouring compounds are related. -/
inductive Combinator
  | descendant
  | child
  | nextSibling
  | laterSibling
  deriving DecidableEq, Repr

namespace Combinator

/-- The combinator that a token of the given kind stands for. -/
def ofKind : Kind → Combinator
  | .leftAngle => .child
  | .plus => .nextSibling
  | .tilde => .laterSibling
  | _ => .descendant

/-- The combinator's sign. -/
def sign : Combinator → String
  | .descendant => " "
  | .child => ">"
  | .nextSibling => "+"
  | .laterSibling => "~"

/-- The sign with the spaces that it is printed with. -/
def spaced : Combinator → String
  | .descendant => " "
  | c => " " ++ c.sign ++ " "

end Combinator

/-- A selector: a compound, or a compound joined to the rest of the selector. The joining token
is kept with its place in the text. -/
inductive Complex
  | compound (only : Compound)
  | joined (operator : Token) (left : Compound) (right : Complex)
  deriving DecidableEq, Repr

/-- A compound with the combinator that ties it to the compound before it. -/
structure Link where
  combinator : Option Combinator
  compound : Compound
  deriving DecidableEq, Repr

namespace Complex

/-- The links that begin with a compound tied by `before`. -/
def linksAfter (before : Option Combinator) : Complex → List Link
  | .compound c => [⟨before, c⟩]
  | .joined operator left right => ⟨before, left⟩ :: right.linksAfter (some (.ofKind operator.kind))

/-- The compounds from left to right. -/
def chain (s : Complex) : List Link := s.linksAfter none

/-- The joining tokens from left to right. -/
def operators : Complex → List Token
  | .compound _ => []
  | .joined operator _ right => operator :: right.operators

/-- The last compound: the one about the matched element itself. -/
def subject : Complex → Compound
  | .compound c => c
  | .joined _ _ right => right.subject

/-- The selector as text. -/
def text : Complex → String
  | .compound c => c.text
  | .joined operator left right =>
    left.text ++ (Combinator.ofKind operator.kind).spaced ++ right.text

/-- Equality up to where the joining tokens stood in their texts. -/
def alike : Complex → Complex → Bool
  | .compound a, .compound b => a == b
  | .joined op left right, .joined op' left' right' =>
    Combinator.ofKind op.kind == Combinator.ofKind op'.kind && left == left' && right.alike right'
  | _, _ => false

end Complex

end StyleCheck.Selector
