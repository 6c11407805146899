import StyleCheck.Positions

/-!
# Name table

Tag and attribute names repeat across a document; each distinct name is stored once and stands
under its place in the table from then on.
-/

namespace StyleCheck.Dom

/-- The place of a name in the table. Where places are words of 32 bits, this is exact for tables of
fewer than `2 ^ 32 - 1` names. -/
abbrev NameId := Nat

/-- Names by place, and places by name. -/
structure Names where
  table : Array String
  places : Positions

namespace Names

/-- A table without names. -/
def empty : Names := ⟨#[], .empty⟩

/-- The place of a name, and the table that holds it. -/
def intern (n : Names) (name : String) : NameId × Names :=
  match n.places.find? name with
  | some place => (place, n)
  | none => (n.table.size, ⟨n.table.push name, n.places.add name n.table.size⟩)

/-- The place of a name that is already in the table. -/
def lookup? (n : Names) (name : String) : Option NameId := n.places.find? name

/-- The name at a place, empty where there is none. -/
def get (n : Names) (id : NameId) : String := (n.table[id]?).getD ""

/-- The number of names. -/
def size (n : Names) : Nat := n.table.size

/-- The names that most documents use; the empty name stands first. -/
def common : List String :=
  ["", "html", "head", "body", "style", "div", "span", "p", "a", "ul", "li", "id", "class", "type",
    "data-css-module"]

/-- The table that a document starts from. -/
def initial : Names := common.foldl (fun n name ↦ (n.intern name).2) empty

end Names

end StyleCheck.Dom
