/-!
# ASCII letter case

Names in markup and in style sheets are compared and lowered by their ASCII letters alone; every
other character stands for itself.
-/

namespace StyleCheck.Text

/-- The text with every ASCII capital lowered. -/
def lower (s : String) : String := String.ofList (s.toList.map Char.toLower)

/-- Equality up to the case of ASCII letters. -/
def sameIgnoringCase (a b : String) : Bool := lower a == lower b

end StyleCheck.Text
