/-!
# Declarations

The declarations of a rule, one per property. A later one replaces an earlier one, unless the
earlier one is important and the later one is not.
-/

namespace StyleCheck.Style

/-- A property's value, as written and in its canonical spelling, with the place of the declaring
rule among the style rules of its sheet. -/
structure Declaration where
  property : String
  value : String
  canonical : String
  important : Bool
  ruleIndex : Nat
  deriving DecidableEq, Repr

/-- One declaration per property, in the order in which the properties came. -/
structure Declarations where
  entries : List Declaration
  deriving DecidableEq, Repr

namespace Declarations

/-- No declarations. -/
def empty : Declarations := ⟨[]⟩

/-- Replace the entry of the same property unless it outranks the new one by importance; a new
property goes last. -/
def put (d : Declaration) : List Declaration → List Declaration
  | [] => [d]
  | e :: rest =>
    if e.property = d.property then
      if e.important && !d.important then e :: rest else d :: rest
    else e :: put d rest

/-- Add a declaration. -/
def insert (ds : Declarations) (d : Declaration) : Declarations := ⟨put d ds.entries⟩

/-- Add several declarations one after the other. -/
def insertAll (ds : Declarations) (more : List Declaration) : Declarations :=
  more.foldl insert ds

/-- The declaration of a property. -/
def get? (ds : Declarations) (property : String) : Option Declaration :=
  ds.entries.find? (·.property == property)

end Declarations

end StyleCheck.Style
