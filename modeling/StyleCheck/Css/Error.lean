import StyleCheck.Css.Component

/-!
# Style sheet errors

Why a text is no style sheet, and where this shows.
-/

namespace StyleCheck.Css

/-- What is wrong with a sheet. The unexpected things are kept as messages name them. -/
inductive Problem
  | endOfInput
  | unexpected (picture : String)
  | emptySelector
  | danglingCombinator
  | classWithoutName (picture : String)
  | pseudoWithoutName (picture : String)
  | attributeWithoutName (picture : String)
  | unexpectedInAttribute (picture : String)
  | badAttributeValue (picture : String)
  | selectorAfterPseudoElement (picture : String)
  | invalidRule
  | invalidRuleBody
  | importTooLate
  | namespaceTooLate
  deriving DecidableEq, Repr

/-- The wording of a problem. -/
def Problem.describe : Problem → String
  | .endOfInput => "Unexpected end of input"
  | .unexpected picture => "Unexpected token " ++ picture
  | .emptySelector => "Invalid empty selector"
  | .danglingCombinator => "Invalid dangling combinator in selector"
  | .classWithoutName picture => "Expected identifier in class selector, got " ++ picture
  | .pseudoWithoutName picture => "Invalid token in pseudo element: " ++ picture
  | .attributeWithoutName picture => "No qualified name in attribute selector: " ++ picture ++ "."
  | .unexpectedInAttribute picture => "Unexpected token in attribute selector: " ++ picture
  | .badAttributeValue picture => "Invalid value in attribute selector: " ++ picture
  | .selectorAfterPseudoElement picture =>
    "Pseudo-elements like '::before' or '::after' can't be followed by selectors like '" ++
      picture ++ "'"
  | .invalidRule => "Invalid qualified rule"
  | .invalidRuleBody => "Invalid @ rule body"
  | .importTooLate =>
    "@import rules must precede all rules aside from @charset and @layer statements"
  | .namespaceTooLate =>
    "@namespaces rules must precede all rules aside from @charset, @import, and @layer statements"

/-- A problem and the place where it was found. -/
structure CssError where
  place : Place
  problem : Problem
  deriving DecidableEq, Repr

/-- The error as one line. -/
def CssError.message (e : CssError) : String :=
  "Parse error at line " ++ toString e.place.line ++ ", column " ++ toString e.place.column ++
    ": " ++ e.problem.describe

/-- A failure at the next component of a region, or at its end. -/
def Region.fail {α : Type} (r : Region) (problem : Problem) : Except CssError α :=
  .error ⟨r.place, problem⟩

/-- The failure of a region that holds more than it should, or of one that ended too early. -/
def Region.unexpected {α : Type} (r : Region) : Except CssError α :=
  match r.next? with
  | some (c, _) => .error ⟨r.place, .unexpected c.picture⟩
  | none => .error ⟨r.stop, .endOfInput⟩

/-- Nothing but white space and comments. -/
def Region.expectEnd (r : Region) : Except CssError Unit :=
  match r.next? with
  | some (c, _) => .error ⟨r.place, .unexpected c.picture⟩
  | none => .ok ()

end StyleCheck.Css
