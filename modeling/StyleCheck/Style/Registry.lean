import StyleCheck.Dom.Document
import StyleCheck.Style.Stylesheet

/-!
# Registry

The sheets that an assertion goes by, in the order of their registration. A module is registered
once: a second sheet with its id is passed over without a look at its text.
-/

namespace StyleCheck.Style

/-- The registered sheets, and their places by id. -/
structure Registry where
  sheets : Array Stylesheet
  places : Positions

/-- A rule as the registry counts it: its sheet, the place of the sheet, and its own place among
the rules of all sheets. -/
structure RegisteredRule where
  stylesheet : String
  sheetIndex : Nat
  sourceOrder : Nat
  rule : Rule
  deriving DecidableEq, Repr

namespace Registry

/-- No sheets. -/
def empty : Registry := ⟨#[], .empty⟩

/-- Whether a sheet with an id is registered. -/
def contains (r : Registry) (id : String) : Bool := r.places.contains id

/-- The sheet with an id. -/
def get? (r : Registry) (id : String) : Option Stylesheet :=
  (r.places.find? id).bind fun place ↦ r.sheets[place]?

/-- The number of sheets. -/
def size (r : Registry) : Nat := r.sheets.size

/-- The ids of the sheets. -/
def ids (r : Registry) : List String := r.sheets.toList.map Stylesheet.id

/-- Put a sheet behind the others. -/
def push (r : Registry) (sheet : Stylesheet) : Registry :=
  ⟨r.sheets.push sheet, r.places.add sheet.id r.sheets.size⟩

/-- Register a sheet; the answer says whether it was new. -/
def addSheet (r : Registry) (sheet : Stylesheet) : Bool × Registry :=
  if r.contains sheet.id then (false, r) else (true, r.push sheet)

/-- Read a sheet and register it, if its id is new. A sheet that cannot be read changes nothing. -/
def add {ε : Type} (read : String → String → Except ε Stylesheet) (r : Registry)
    (id content : String) : Except ε (Bool × Registry) :=
  if r.contains id then .ok (false, r)
  else
    match read id content with
    | .ok sheet => .ok (true, r.push sheet)
    | .error e => .error e

/-- Register sources one after the other, up to the first that cannot be read: the number of new
ones or the error, and the registry that is left. -/
def addSources {ε : Type} (read : String → String → Except ε Stylesheet) (r : Registry) :
    List Dom.StyleSource → Except ε Nat × Registry
  | [] => (.ok 0, r)
  | source :: rest =>
    match r.add read source.id source.css with
    | .error e => (.error e, r)
    | .ok (isNew, r) =>
      let (more, r) := r.addSources read rest
      (more.map (· + if isNew then 1 else 0), r)

/-- The rules of every sheet with the place of the sheet. -/
def sheetRules (r : Registry) : List (String × Nat × Rule) :=
  r.sheets.toList.zipIdx.flatMap fun (sheet, i) ↦ sheet.rules.toList.map fun rule ↦
    (sheet.id, i, rule)

/-- Every rule of every sheet, by registration and then by source order. -/
def rules (r : Registry) : List RegisteredRule :=
  r.sheetRules.zipIdx.map fun ((id, sheet, rule), order) ↦ ⟨id, sheet, order, rule⟩

end Registry

end StyleCheck.Style
