import StyleCheck.Positions
import StyleCheck.Style.Declarations

/-!
# Style sheets

A sheet holds its rules in source order. Rules with the same selector list are one rule: the first
of them takes in the declarations of the others, each with the place where it was declared.
-/

namespace StyleCheck.Style

/-- Selector texts and the declarations that they share. -/
structure Rule where
  selectors : List String
  declarations : Declarations
  deriving DecidableEq, Repr

/-- The selector list as one text. -/
def Rule.key (r : Rule) : String := ", ".intercalate r.selectors

/-- The parsed sheet of one module: its rules and their places by key. -/
structure Stylesheet where
  id : String
  content : String
  rules : Array Rule
  places : Positions

namespace Stylesheet

/-- A sheet without rules. -/
def empty (id content : String) : Stylesheet := ⟨id, content, #[], .empty⟩

/-- Add a rule behind the others, or its declarations to the rule of the same key. -/
def addRule (s : Stylesheet) (r : Rule) : Stylesheet :=
  match s.places.find? r.key with
  | some place =>
    { s with rules := s.rules.modify place fun first ↦
        { first with declarations := first.declarations.insertAll r.declarations.entries } }
  | none => { s with rules := s.rules.push r, places := s.places.add r.key s.rules.size }

/-- The sheet of a list of parsed rules. -/
def ofRules (id content : String) (parsed : List Rule) : Stylesheet :=
  parsed.foldl addRule (empty id content)

/-- The rule with a key. -/
def get? (s : Stylesheet) (key : String) : Option Rule :=
  (s.places.find? key).bind fun place ↦ s.rules[place]?

/-- The number of rules. -/
def size (s : Stylesheet) : Nat := s.rules.size

end Stylesheet

end StyleCheck.Style
