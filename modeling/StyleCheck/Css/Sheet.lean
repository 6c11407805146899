import StyleCheck.Css.Property
import StyleCheck.Css.SelectorList

/-!
# Sheets

The rules of a sheet. A style rule has a selector list and declarations in canonical text; rules
inside it are checked and counted. Any other rule is named by its kind. The first fault in the
text decides the error.
-/

namespace StyleCheck.Css

/-- A declaration in canonical text. -/
structure CanonicalDeclaration where
  property : String
  value : String
  important : Bool
  deriving DecidableEq, Repr

/-- A style rule: its selectors, its normal declarations before its important ones, and the number
of rules inside it. -/
structure StyleRule where
  selectors : List String
  declarations : List CanonicalDeclaration
  nested : Nat
  deriving DecidableEq, Repr

/-- A rule of a sheet. -/
inductive SheetRule
  | style (rule : StyleRule)
  | other (kind : String)
  deriving DecidableEq, Repr

namespace Sheet

/-! ### Declarations -/

/-- Whether a name is that of a custom property. -/
def isCustom (name : String) : Bool := ['-', '-'].isPrefixOf name.toList

/-- What ends the value of a declaration: a mark of importance, or a block where the property is
not a custom one. -/
def endsValue (name : String) (c : Component) : Bool := c.isBang || (!isCustom name && c.isCurly)

/-- The mark of importance at the front of a region, if it stands there, and what follows. -/
def importance (r : Region) : Bool × Region :=
  match r.next? with
  | some (.token _ (.delim '!'), rest) =>
    match rest.next? with
    | some (.token _ (.ident word), rest) =>
      if Text.sameIgnoringCase word "important" then (true, rest) else (false, r)
    | _ => (false, r)
  | _ => (false, r)

/-- What follows the name of a declaration. -/
def declaration (name : String) (r : Region) : Except CssError CanonicalDeclaration :=
  match r.next? with
  | some (.token _ .colon, rest) => do
    let (value, rest) := rest.splitBefore (endsValue name)
    let (property, value) ← canonicalDeclaration name value
    let (important, rest) := importance rest
    rest.expectEnd
    return ⟨property, value, important⟩
  | _ => r.unexpected

/-! ### Blocks -/

/-- What a block of rules and declarations holds. -/
inductive Entry
  | declaration (d : CanonicalDeclaration)
  | rule

/-- A block that holds declarations belongs to a style rule; other blocks hold rules only. -/
inductive Setting
  | style
  | rules
  deriving DecidableEq, Repr

/-- A way to read the content of a block. -/
abbrev Reading := Setting → Region → Except CssError (List Entry)

/-- A style rule's selectors and what its block holds, and the region past the rule. Where
declarations may stand, a semicolon ends the selectors. -/
def qualifiedRule (inner : Reading) (setting : Setting) (r : Region) :
    Except CssError ((List String × List Entry) × Region) :=
  let (prelude, after) := r.dropSpace.splitBefore fun c ↦
    c.isCurly || (setting == .style && c.isSemicolon)
  match after.next? with
  | some (.block _ .curly content stop, rest) => do
    let selectors ← SelectorList.read (setting == .style) prelude
    let entries ← inner .style ⟨content, stop⟩
    return ((selectors.map selectorText, entries), rest)
  | some _ => after.unexpected
  | none => .error ⟨after.stop, .endOfInput⟩

/-! ### Rules by keyword -/

/-- What the block of a rule holds: rules, declarations, anything at all, or anything that can be
kept token by token. -/
inductive Body
  | rules
  | declarations
  | ignored
  | verbatim
  deriving DecidableEq, Repr

/-- A rule's kind, what its block holds, whether it may do without a block, and whether it may
stand in a style rule. -/
structure KeywordForm where
  kind : String
  body : Body
  isStatement : Bool
  nests : Bool

/-- The kind of a rule without a name of its own. -/
def otherKind : String := "at-rule"

/-- The form of a rule by its keyword. -/
def keywordForm (keyword : String) : KeywordForm :=
  match Text.lower keyword with
  | "media" => ⟨"@media", .rules, false, true⟩
  | "supports" => ⟨"@supports", .rules, false, true⟩
  | "layer" => ⟨"@layer", .rules, true, true⟩
  | "container" => ⟨otherKind, .rules, false, true⟩
  | "scope" => ⟨otherKind, .rules, false, true⟩
  | "starting-style" => ⟨otherKind, .rules, false, true⟩
  | "-moz-document" => ⟨otherKind, .rules, false, true⟩
  | "keyframes" => ⟨"@keyframes", .ignored, false, false⟩
  | "-webkit-keyframes" => ⟨"@keyframes", .ignored, false, false⟩
  | "-moz-keyframes" => ⟨"@keyframes", .ignored, false, false⟩
  | "-o-keyframes" => ⟨"@keyframes", .ignored, false, false⟩
  | "font-face" => ⟨"@font-face", .ignored, false, false⟩
  | "page" => ⟨"@page", .declarations, false, false⟩
  | "counter-style" => ⟨otherKind, .ignored, false, false⟩
  | "font-palette-values" => ⟨otherKind, .ignored, false, false⟩
  | "font-feature-values" => ⟨otherKind, .ignored, false, false⟩
  | "view-transition" => ⟨otherKind, .ignored, false, false⟩
  | "viewport" => ⟨otherKind, .ignored, false, false⟩
  | "-ms-viewport" => ⟨otherKind, .ignored, false, false⟩
  | "property" => ⟨otherKind, .ignored, false, false⟩
  | _ => ⟨otherKind, .verbatim, true, true⟩

/-- Check the content of a block. -/
def checkBody (inner : Reading) (setting : Setting) (body : Body) (content : Region) :
    Except CssError Unit := do
  match body with
  | .rules => discard (inner setting content)
  | .declarations => discard (inner .style content)
  | .ignored => return
  | .verbatim => discard (Verbatim.text content.items)

/-- A rule behind its keyword: its kind, whether it came with a block, and the region past it. -/
def keywordRule (inner : Reading) (setting : Setting) (keyword : String) (r : Region) :
    Except CssError ((String × Bool) × Region) := do
  let form := keywordForm keyword
  let (prelude, after) := r.splitBefore fun c ↦ c.isCurly || c.isSemicolon
  if form.body == .verbatim then discard (Verbatim.text prelude.items)
  if setting == .style && !form.nests then prelude.fail .invalidRule
  else
    match after.next? with
    | some (.block _ .curly content stop, rest) =>
      checkBody inner setting form.body ⟨content, stop⟩
      return ((form.kind, true), rest)
    | other =>
      let rest := (other.map Prod.snd).getD after
      let isNamed := form.body == .verbatim || prelude.next?.isSome
      if form.isStatement && isNamed then return ((form.kind, false), rest)
      else rest.fail (.unexpected Token.semicolon.picture)

/-- What a region holds, at most `n` things. What begins with a name is a declaration if it can be
one, else a rule; the fault of the declaration is told if it is neither. -/
def entries (inner : Reading) (setting : Setting) : Nat → Region → Except CssError (List Entry)
  | 0, _ => .ok []
  | n + 1, r => do
    let rule (start : Region) : Except CssError (List Entry) := do
      let (_, rest) ← qualifiedRule inner setting start
      return .rule :: (← entries inner setting n rest)
    let start := r.dropSpace
    match start.next? with
    | none => return []
    | some (.token _ .semicolon, rest) => entries inner setting n rest
    | some (.token _ (.atKeyword keyword), rest) =>
      let (_, rest) ← keywordRule inner setting keyword rest
      return .rule :: (← entries inner setting n rest)
    | some (.token _ (.ident name), rest) =>
      if setting == .rules then rule start
      else
        let (content, after) := rest.splitBefore Component.isSemicolon
        match declaration name content with
        | .ok d => return .declaration d :: (← entries inner setting n after)
        | .error e =>
          match qualifiedRule inner setting start with
          | .ok (_, rest) => return .rule :: (← entries inner setting n rest)
          | .error _ => .error e
    | some _ => rule start

/-- What the content of a block holds, with at most `depth` blocks one in the other. -/
def contentWithin : Nat → Setting → Region → Except CssError (List Entry)
  | 0, _, _ => .ok []
  | depth + 1, setting, r => entries (contentWithin depth) setting (r.items.length + 1) r

/-! ### Style rules -/

/-- The declarations before the first rule. -/
def ownDeclarations : List Entry → List CanonicalDeclaration
  | .declaration d :: rest => d :: ownDeclarations rest
  | _ => []

/-- The number of rules, where declarations behind a rule are one more rule. -/
def countRules (afterRule afterDeclaration : Bool) : List Entry → Nat
  | [] => 0
  | .rule :: rest => 1 + countRules true false rest
  | .declaration _ :: rest =>
    (if afterRule && !afterDeclaration then 1 else 0) + countRules afterRule true rest

/-- The style rule of selectors and the content of a block. -/
def styleRule (selectors : List String) (content : List Entry) : StyleRule :=
  let (important, normal) := (ownDeclarations content).partition (·.important)
  ⟨selectors, normal ++ important, countRules false false content⟩

/-! ### The top level -/

/-- How far a sheet has come: some rules must stand before others. -/
inductive Stage
  | start
  | layers
  | imports
  | namespaces
  | body
  deriving DecidableEq, Repr

/-- An address or a string at the front of a region, and what follows. -/
def address (r : Region) : Except CssError Region :=
  match r.next? with
  | some (.token _ (.url _), rest) => .ok rest
  | some (.token _ (.string _), rest) => .ok rest
  | some (.block _ (.function name) content stop, rest) =>
    if Text.sameIgnoringCase name "url" then do
      discard (Verbatim.quotedUrlText ⟨content, stop⟩)
      return rest
    else r.unexpected
  | _ => r.unexpected

/-- An import behind its keyword. -/
def importPrelude (stage : Stage) (r : Region) : Except CssError Unit :=
  if stage == .namespaces || stage == .body then r.fail .importTooLate
  else discard (address r)

/-- A declaration of a namespace behind its keyword. -/
def namespacePrelude (stage : Stage) (r : Region) : Except CssError Unit := do
  if stage == .body then r.fail .namespaceTooLate
  else
    let r := match r.next? with
      | some (.token _ (.ident _), rest) => rest
      | _ => r
    (← address r).expectEnd

/-- The name of an encoding behind its keyword. -/
def charsetPrelude (r : Region) : Except CssError Unit :=
  match r.next? with
  | some (.token _ (.string _), rest) => rest.expectEnd
  | _ => r.unexpected

/-- A rule that has no block: what stands before the semicolon must pass a check. -/
def statement (check : Region → Except CssError Unit) (r : Region) : Except CssError Region := do
  let (prelude, after) := r.splitBefore fun c ↦ c.isCurly || c.isSemicolon
  check prelude
  match after.next? with
  | some (.block _ .curly content stop, _) => (Region.mk content stop).fail .invalidRuleBody
  | some (_, rest) => return rest
  | none => return after

/-- The stage after a rule of the top level that has no own place in the order. -/
def Stage.past (stage : Stage) (keyword : String) (hasBlock : Bool) : Stage :=
  if hasBlock then .body
  else if Text.lower keyword = "layer" then
    if stage == .start || stage == .layers then .layers else .body
  else stage

/-- A rule of the top level behind its keyword: its kind, the stage after it, and the region past
it. -/
def topRule (inner : Reading) (stage : Stage) (keyword : String) (r : Region) :
    Except CssError (String × Stage × Region) :=
  match Text.lower keyword with
  | "import" => return ("@import", .imports, ← statement (importPrelude stage) r)
  | "namespace" => return ("@namespace", .namespaces, ← statement (namespacePrelude stage) r)
  | "charset" => return (otherKind, stage, ← statement charsetPrelude r)
  | _ => do
    let ((kind, hasBlock), rest) ← keywordRule inner .rules keyword r
    return (kind, stage.past keyword hasBlock, rest)

/-- The region past what may stand between rules: white space, comments and the marks that hide a
sheet in markup. -/
def dropMarks (r : Region) : Region :=
  { r with items := r.items.dropWhile fun
      | .token _ .markupOpen => true
      | .token _ .markupClose => true
      | c => c.isSpace || c.isComment }

/-- The region past the name of an encoding that begins a sheet. -/
def dropCharset (r : Region) : Region :=
  let start := dropMarks r
  match start.items with
  | .token _ (.atKeyword keyword) :: rest =>
    if Text.lower keyword = "charset" then
      let after := ((Region.mk rest r.stop).splitBefore fun c ↦ c.isCurly || c.isSemicolon).2
      { after with items := after.items.drop 1 }
    else start
  | _ => start

/-- The rules of a region, at most `n`. -/
def rules (inner : Reading) : Nat → Stage → Region → Except CssError (List SheetRule)
  | 0, _, _ => .ok []
  | n + 1, stage, r => do
    let start := dropMarks r
    match start.items with
    | [] => return []
    | .token _ (.atKeyword keyword) :: rest =>
      let (kind, stage, rest) ← topRule inner stage keyword ⟨rest, r.stop⟩
      return .other kind :: (← rules inner n stage rest)
    | _ =>
      let ((selectors, content), rest) ← qualifiedRule inner .rules start
      return .style (styleRule selectors content) :: (← rules inner n .body rest)

end Sheet

/-- The rules of a sheet in order, or its first fault. -/
def sheetRules (css : String) : Except CssError (List SheetRule) :=
  let r := Sheet.dropCharset (.ofText css)
  Sheet.rules (Sheet.contentWithin (r.depth + 1)) (r.items.length + 1) .start r

end StyleCheck.Css
