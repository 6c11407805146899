import StyleCheck.Css.Sheet
import StyleCheck.Event
import StyleCheck.Style.Registry
import StyleCheck.Style.Written

/-!
# Reading style sheets

The rules of a sheet with the values of their declarations as they stand in its text. The rules
come in canonical text from their tokens; the text is scanned once more for what was written.
-/

namespace StyleCheck.Style

open Css (CanonicalDeclaration CssError SheetRule StyleRule)

/-- The value that a block last gives to a property with the same importance. Names are compared
without regard to case. -/
def writtenValue? (block : List WrittenDeclaration) (d : CanonicalDeclaration) : Option String :=
  (block.reverse.find? fun w ↦
    Text.sameIgnoringCase w.property d.property && w.important == d.important).map
    WrittenDeclaration.value

/-- A declaration with the value as written, if its block is at hand and holds one. -/
def Declaration.ofCanonical (block : Option (List WrittenDeclaration)) (ruleIndex : Nat)
    (d : CanonicalDeclaration) : Declaration :=
  ⟨d.property, (block.bind (writtenValue? · d)).getD d.value, d.value, d.important, ruleIndex⟩

/-- A rule with the values as written in its block, if that is at hand. -/
def Rule.ofStyleRule (block : Option (List WrittenDeclaration)) (ruleIndex : Nat)
    (r : StyleRule) : Rule :=
  ⟨r.selectors,
    Declarations.empty.insertAll (r.declarations.map (Declaration.ofCanonical block ruleIndex))⟩

/-- The style rules among the rules of a sheet. -/
def styleRules (parsed : List SheetRule) : List StyleRule :=
  parsed.filterMap fun
    | .style r => some r
    | .other _ => none

/-- The rules of a sheet with the blocks found in its text. The blocks are used only if there is
one for each style rule. -/
def pairRules (parsed : List StyleRule) (blocks : List (List WrittenDeclaration)) : List Rule :=
  parsed.zipIdx.map fun (r, i) ↦
    .ofStyleRule (if blocks.length = parsed.length then blocks[i]? else none) i r

/-- The style rules of a sheet in order, or its first fault. -/
def readRules (css : String) : Except CssError (List Rule) :=
  (Css.sheetRules css).map fun parsed ↦ pairRules (styleRules parsed) (Written.styleBlocks css)

/-- The sheet of a module from its text. -/
def Stylesheet.read (id content : String) : Except CssError Stylesheet :=
  (readRules content).map (Stylesheet.ofRules id content)

/-! ### Events -/

/-- The event of a rule that is left out as a whole or in part. -/
def skippedEvents : SheetRule → List Event
  | .other kind => [⟨.debug, .styleRules, "Skipping non-style rule: " ++ kind, []⟩]
  | .style r =>
    if r.nested = 0 then []
    else [⟨.debug, .styleRules, "Skipping nested rules",
      [("rule", .text (", ".intercalate r.selectors)), ("nested", .count r.nested)]⟩]

/-- The events of reading the rules of a sheet. One that cannot be read gives none. -/
def readRulesEvents (css : String) : List Event :=
  match Css.sheetRules css with
  | .error _ => []
  | .ok parsed =>
    let count := (styleRules parsed).length
    let scanned := (Written.styleBlocks css).length
    (if scanned = count then []
      else [⟨.debug, .styleRules, "Source text unavailable, keeping serialized values",
        [("parsed", .count count), ("scanned", .count scanned)]⟩]) ++
      parsed.flatMap skippedEvents ++
      [⟨.debug, .styleRules, "Parsed " ++ toString count ++ " style rules", []⟩]

/-- The events of reading the sheet of a module. -/
def Stylesheet.readEvents (id content : String) : List Event :=
  readRulesEvents content ++
    match Stylesheet.read id content with
    | .ok sheet => [⟨.debug, .stylesheet, "Parsed stylesheet",
        [("stylesheet", .text id), ("rules", .count sheet.size)]⟩]
    | .error _ => []

namespace Registry

/-- The event of registering a sheet. -/
def addSheetEvents (r : Registry) (sheet : Stylesheet) : List Event :=
  if r.contains sheet.id then
    [⟨.debug, .registry, "Stylesheet already registered, skipping",
      [("stylesheet", .text sheet.id)]⟩]
  else
    [⟨.debug, .registry, "Registered stylesheet",
      [("stylesheet", .text sheet.id), ("rules", .count sheet.size)]⟩]

/-- The events of reading a sheet and registering it. -/
def addEvents (r : Registry) (id content : String) : List Event :=
  if r.contains id then r.addSheetEvents (.empty id content)
  else
    Stylesheet.readEvents id content ++
      match Stylesheet.read id content with
      | .ok sheet => r.addSheetEvents sheet
      | .error _ => []

/-- The events of registering sources one after the other. -/
def addSourcesEvents (r : Registry) : List Dom.StyleSource → List Event
  | [] => []
  | source :: rest =>
    r.addEvents source.id source.css ++
      match r.add Stylesheet.read source.id source.css with
      | .ok (_, r) => r.addSourcesEvents rest
      | .error _ => []

end Registry

end StyleCheck.Style
