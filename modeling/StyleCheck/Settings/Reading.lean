import StyleCheck.Settings.Literal
import StyleCheck.Style.Resolver

/-!
# Settings

How assertions are made. The settings are read from a JSON object that names some of them, or from
a list that gives the first of them in order; the others have their defaults.
-/

namespace StyleCheck.Style

/-- The name of a strategy. -/
def Strategy.name : Strategy → String
  | .anyDeclaration => "anyDeclaration"
  | .cascade => "cascade"

/-- The strategy with a name. -/
def Strategy.ofName? (name : String) : Option Strategy :=
  [anyDeclaration, cascade].find? (·.name == name)

end StyleCheck.Style

namespace StyleCheck

/-- How expected styles are judged, the attribute of the `style` elements that hold a module, and
the filter that a log goes by. -/
structure Settings where
  strategy : Style.Strategy
  canonicalizeValues : Bool
  styleSourceAttribute : String
  logFilter : Option String
  deriving DecidableEq, Repr

namespace Settings

open Style (Strategy)

/-- The settings that hold unless others are given. -/
def default : Settings := ⟨.anyDeclaration, true, "data-css-module", none⟩

/-- What the resolver goes by. -/
def options (s : Settings) : Style.Options := ⟨s.strategy, s.canonicalizeValues⟩

namespace Cursor

/-- Report the value that stands next as being of the wrong kind. -/
def wrongKind {α : Type} (c : Cursor) (expected : Expected) : Except SettingsError α :=
  let report (found : Found) (c : Cursor) : Except SettingsError α :=
    c.fail (.wrongKind found expected)
  match c.rest with
  | 'n' :: _ => do report .null (← c.skip.word ['u', 'l', 'l'])
  | 't' :: _ => do report (.boolean true) (← c.skip.word ['r', 'u', 'e'])
  | 'f' :: _ => do report (.boolean false) (← c.skip.word ['a', 'l', 's', 'e'])
  | '-' :: _ => do
    let (found, c) ← c.skip.number true
    report found c
  | '"' :: _ => do
    let (value, c) ← c.skip.text
    report (.text value) c
  | '[' :: _ => report .list c
  | '\x7b' :: _ => report .object c
  | next :: _ =>
    if next.isDigit then do
      let (found, c) ← c.number false
      report found c
    else c.failAhead .noValue
  | [] => c.failAhead .noValue

/-- The cursor at a value, past blanks. -/
def value (c : Cursor) : Except SettingsError Cursor :=
  let c := c.skipBlanks
  if c.rest.isEmpty then c.fail .endForValue else .ok c

/-- A truth value. -/
def boolean (c : Cursor) : Except SettingsError (Bool × Cursor) := do
  let c ← c.value
  match c.rest with
  | 't' :: _ => return (true, ← c.skip.word ['r', 'u', 'e'])
  | 'f' :: _ => return (false, ← c.skip.word ['a', 'l', 's', 'e'])
  | _ => c.wrongKind .boolean

/-- A text that stands where a kind of value is expected. -/
def textFor (c : Cursor) (expected : Expected) : Except SettingsError (String × Cursor) := do
  let c ← c.value
  match c.rest with
  | '"' :: _ => c.skip.text
  | _ => c.wrongKind expected

/-- A text, or `null`. -/
def optionalText (c : Cursor) : Except SettingsError (Option String × Cursor) := do
  match c.skipBlanks.rest with
  | 'n' :: _ => return (none, ← c.skipBlanks.skip.word ['u', 'l', 'l'])
  | _ =>
    let (s, c) ← c.skipBlanks.textFor .text
    return (some s, c)

/-- Pass over the value `null`. -/
def nothing (c : Cursor) : Except SettingsError Cursor := do
  let c ← c.value
  match c.rest with
  | 'n' :: _ => c.skip.word ['u', 'l', 'l']
  | _ => c.wrongKind .nothing

/-- Pass over the colon between a key and its value. -/
def colon (c : Cursor) : Except SettingsError Cursor :=
  let c := c.skipBlanks
  match c.rest with
  | ':' :: _ => .ok c.skip
  | [] => c.fail .endInObject
  | _ => c.failAhead .noColon

/-- The name of a strategy. -/
def strategyName (c : Cursor) : Except SettingsError (Strategy × Cursor) := do
  let (name, c) ← c.textFor .variantName
  match Strategy.ofName? name with
  | some strategy => return (strategy, c)
  | none => c.fail (.unknownVariant name)

/-- A strategy: its name, or an object that gives `null` under its name. -/
def strategy (c : Cursor) : Except SettingsError (Strategy × Cursor) := do
  let c ← c.value
  match c.rest with
  | '"' :: _ => c.strategyName
  | '\x7b' :: _ =>
    let (strategy, c) ← c.skip.strategyName
    let c := (← (← c.colon).nothing).skipBlanks
    match c.rest with
    | '\x7d' :: _ => return (strategy, c.skip)
    | [] => c.fail .endInObject
    | _ => c.fail .noValue
  | _ => c.failAhead .noValue

/-- Read a setting. -/
def field (c : Cursor) (s : Settings) : Field → Except SettingsError (Settings × Cursor)
  | .strategy => do
    let (value, c) ← c.strategy
    return ({ s with strategy := value }, c)
  | .canonicalizeValues => do
    let (value, c) ← c.boolean
    return ({ s with canonicalizeValues := value }, c)
  | .styleSourceAttribute => do
    let (value, c) ← c.textFor .text
    return ({ s with styleSourceAttribute := value }, c)
  | .logFilter => do
    let (value, c) ← c.optionalText
    return ({ s with logFilter := value }, c)

/-! ### Lists -/

/-- The next element of a list, or its end, past the comma before it. -/
def nextElement (c : Cursor) (isFirst : Bool) : Except SettingsError (Option Cursor) :=
  let c := c.skipBlanks
  match c.rest with
  | [] => c.fail .endInList
  | ']' :: _ => .ok none
  | next :: _ =>
    if isFirst then .ok (some c)
    else if next ≠ ',' then c.failAhead .noCommaInList
    else
      let c := c.skip.skipBlanks
      match c.rest with
      | [] => c.fail .endForValue
      | ']' :: _ => c.failAhead .trailingComma
      | _ => .ok (some c)

/-- The settings of a list, up to its closing bracket or the last field. -/
def elements (c : Cursor) (isFirst : Bool) (s : Settings) :
    List Field → Except SettingsError (Settings × Cursor)
  | [] => .ok (s, c)
  | next :: later => do
    match ← c.nextElement isFirst with
    | none => return (s, c)
    | some c =>
      let (s, c) ← c.field s next
      c.elements false s later

/-- Pass over the closing bracket of a list. -/
def endList (c : Cursor) : Except SettingsError Cursor :=
  let c := c.skipBlanks
  match c.rest with
  | ']' :: _ => .ok c.skip
  | ',' :: _ =>
    let c := c.skip.skipBlanks
    match c.rest with
    | ']' :: _ => c.failAhead .trailingComma
    | _ => c.failAhead .trailingCharacters
  | [] => c.fail .endInList
  | _ => c.failAhead .trailingCharacters

/-! ### Objects -/

/-- The next key of an object, or its end, past the comma before it. -/
def nextKey (c : Cursor) (isFirst : Bool) : Except SettingsError (Option Cursor) :=
  let c := c.skipBlanks
  let key (c : Cursor) : Except SettingsError (Option Cursor) :=
    match c.rest with
    | '"' :: _ => .ok (some c.skip)
    | _ => c.failAhead .keyNotText
  match c.rest with
  | [] => c.fail .endInObject
  | '\x7d' :: _ => .ok none
  | next :: _ =>
    if isFirst then key c
    else if next ≠ ',' then c.failAhead .noCommaInObject
    else
      let c := c.skip.skipBlanks
      match c.rest with
      | [] => c.fail .endForValue
      | '\x7d' :: _ => c.failAhead .trailingComma
      | _ => key c

/-- A key that cannot stand: the error is placed after the object's end, if that comes next. -/
def refuseKey {α : Type} (c : Cursor) (problem : Problem) : Except SettingsError α :=
  let c := c.skipBlanks
  match c.rest with
  | '\x7d' :: _ => c.skip.fail problem
  | _ => c.fail problem

/-- The members of an object up to its closing brace. `missing` lists the settings that it has not
given yet; no setting may be given twice. -/
def members (c : Cursor) (isFirst : Bool) (s : Settings) (missing : List Field) :
    Except SettingsError (Settings × Cursor) := do
  match ← c.nextKey isFirst with
  | none => return (s, c.skipBlanks.skip)
  | some c =>
    let (name, c) ← c.text
    match Field.ofName? name with
    | none => c.refuseKey (.unknownField name)
    | some next =>
      if _h : next ∈ missing then
        let (s, c) ← (← c.colon).field s next
        c.members false s (missing.erase next)
      else c.refuseKey (.duplicateField next)
termination_by missing.length
decreasing_by
  rw [List.length_erase_of_mem _h]
  have := List.length_pos_of_mem _h
  omega

/-- Settings as a list or as an object. -/
def settings (c : Cursor) : Except SettingsError (Settings × Cursor) := do
  let c ← c.value
  match c.rest with
  | '[' :: _ =>
    let (s, c) ← c.skip.elements true .default Field.all
    return (s, ← c.endList)
  | '\x7b' :: _ => c.skip.members true .default Field.all
  | _ => c.wrongKind .settings

end Cursor

/-- The settings that a text gives. -/
def read (text : String) : Except SettingsError Settings := do
  let (s, c) ← (Cursor.ofText text).settings
  let c := c.skipBlanks
  if c.rest.isEmpty then return s else c.failAhead .trailingCharacters

end Settings

end StyleCheck
