import StyleCheck.Style.Resolver

/-!
# Assertions

The outcome of an assertion and its wording. A passing assertion is worded as its contrary, which
is what a caller reports who asserted the contrary.
-/

namespace StyleCheck

/-- What was asserted of an element, and which expected styles it does not have. -/
structure Assertion where
  pass : Bool
  element : String
  expected : Style.Expectation
  unmatched : List Style.Unmatched

namespace Assertion

/-- One expected style that is there. -/
def presentLine (property : String) (value : Style.ExpectedValue) : String :=
  "\n  " ++ property ++ ": " ++ value.render

/-- One expected style that is not there. -/
def absentLine (u : Style.Unmatched) : String :=
  "\n  " ++ u.property ++ ": expected \"" ++ u.expected ++ "\", " ++
    match u.actual with
    | some value => "received \"" ++ value ++ "\""
    | none => "not declared by any matching rule"

/-- The outcome in words. -/
def message (a : Assertion) : String :=
  if a.pass then
    "expected " ++ a.element ++ " not to have styles:" ++
      String.join (a.expected.entries.map fun (property, value) ↦ presentLine property value)
  else
    "expected " ++ a.element ++ " to have styles:" ++
      String.join (a.unmatched.map absentLine)

end Assertion

end StyleCheck
