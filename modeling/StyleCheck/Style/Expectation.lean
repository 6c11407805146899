import StyleCheck.Decimal.Double
import StyleCheck.Style.PropertyName

/-!
# Expected styles

The styles that an element should have: one value per property, in the order in which the
properties were first named.
-/

namespace StyleCheck.Style

/-- The value that a property should have. -/
inductive ExpectedValue
  | text (value : String)
  | number (value : Float)

namespace ExpectedValue

/-- The value as it is compared and reported. -/
def render : ExpectedValue → String
  | .text value => value
  | .number value => Decimal.ofDouble value

/-- Whether the value was given as a number. -/
def isNumber : ExpectedValue → Bool
  | .text _ => false
  | .number _ => true

end ExpectedValue

/-- Expected values by property. -/
structure Expectation where
  entries : List (String × ExpectedValue)

namespace Expectation

/-- No expectation. -/
def empty : Expectation := ⟨[]⟩

/-- Set the value of a listed property in place, or list a new one last. -/
def put (property : String) (value : ExpectedValue) :
    List (String × ExpectedValue) → List (String × ExpectedValue)
  | [] => [(property, value)]
  | (p, v) :: rest =>
    if p = property then (p, value) :: rest else (p, v) :: put property value rest

/-- Expect a value; the property may be named in either spelling. -/
def insert (e : Expectation) (property : String) (value : ExpectedValue) : Expectation :=
  ⟨put (propertyName property) value e.entries⟩

/-- Expect several values one after the other. -/
def ofList (entries : List (String × ExpectedValue)) : Expectation :=
  entries.foldl (fun e entry ↦ e.insert entry.1 entry.2) empty

end Expectation

end StyleCheck.Style
