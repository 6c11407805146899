import StyleCheck.Text.Space

/-!
# Property names

A style may be named the way a script names it (`backgroundColor`); a style sheet names it with
hyphens (`background-color`). Both spellings come to the second one.
-/

namespace StyleCheck.Style

/-- Write each capital as a hyphen and its small letter. -/
def hyphenate : List Char → List Char
  | [] => []
  | c :: rest => if c.isUpper then '-' :: c.toLower :: hyphenate rest else c :: hyphenate rest

/-- The vendor mark `ms` is the one that begins with a small letter in a script's spelling. -/
def markVendor : List Char → List Char
  | 'm' :: 's' :: '-' :: rest => '-' :: 'm' :: 's' :: '-' :: rest
  | name => name

/-- The hyphenated name of a trimmed one. Custom properties and names without capitals are kept. -/
def hyphenated (name : List Char) : List Char :=
  if ['-', '-'].isPrefixOf name || !name.any Char.isUpper then name
  else if name = "cssFloat".toList then "float".toList
  else markVendor (hyphenate name)

/-- A property's name as a style sheet writes it. -/
def propertyName (name : String) : String :=
  String.ofList (hyphenated (Text.trimChars name.toList))

end StyleCheck.Style
