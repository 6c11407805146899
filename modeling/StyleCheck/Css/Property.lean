import StyleCheck.Css.PropertyNames
import StyleCheck.Css.Value
import StyleCheck.Text.Space

/-!
# Properties

The grammars of properties and the canonical text of declarations. A value that the grammar of its
property does not take to its end is kept as it is.
-/

namespace StyleCheck.Css

namespace Property

open Reader

/-! ### Sizes and distances -/

/-- Keywords for the size of a box; `free` is the one that sets no size. -/
def sizeWords (free : String) : List String :=
  [free, "min-content", "-webkit-min-content", "-moz-min-content", "max-content",
    "-webkit-max-content", "-moz-max-content", "stretch", "-webkit-fill-available",
    "-moz-available", "fit-content", "-webkit-fit-content", "-moz-fit-content", "contain"]

/-- The size of a box. -/
def size (free : String) : Reader Value :=
  orElse (keyword (sizeWords free)) (orElse (call "fit-content") lengthPercentage)

/-- A length, a percentage or the given keyword. -/
def lengthOr (word : String) : Reader Value := orElse lengthPercentage (keyword [word])

/-- The texts of four sides, without those that repeat the opposite or all others. -/
def sideTexts (top right bottom left : Value) : List String :=
  if top == bottom && right == left && top == right then [top.text]
  else if top == bottom && right == left then [top.text, right.text]
  else if right == left then [top.text, right.text, bottom.text]
  else [top.text, right.text, bottom.text, left.text]

/-- The values of the four sides of a box, given for one to four of them. -/
def fourSides (read : Reader Value) : Reader String := fun r ↦
  let (values, rest) := upTo 4 read r
  let texts := match values with
    | [] => none
    | [t] => some (sideTexts t t t t)
    | [t, x] => some (sideTexts t x t x)
    | [t, x, b] => some (sideTexts t x b x)
    | t :: x :: b :: l :: _ => some (sideTexts t x b l)
  texts.map fun texts ↦ (" ".intercalate texts, rest)

/-! ### Lines -/

/-- The styles of a line. -/
def lineStyles : List String :=
  ["none", "hidden", "inset", "groove", "outset", "ridge", "dotted", "dashed", "solid", "double"]

/-- The width of a line. -/
def lineWidth : Reader Value := orElse length (keyword ["thin", "medium", "thick"])

/-- The width, style and color of a line as far as they are given. -/
structure Line where
  width : Option Value
  style : Option Value
  color : Option Value

/-- Take the parts of a line in any order, each at most once. -/
def lineParts (styles : List String) : Nat → Line → Region → Line × Region
  | 0, line, r => (line, r)
  | n + 1, line, r =>
    match if line.width.isNone then lineWidth r else none with
    | some (v, rest) => lineParts styles n { line with width := some v } rest
    | none =>
      match if line.style.isNone then keyword styles r else none with
      | some (v, rest) => lineParts styles n { line with style := some v } rest
      | none =>
        match if line.color.isNone then color r else none with
        | some (v, rest) => lineParts styles n { line with color := some v } rest
        | none => (line, r)

/-- The text of a line: what differs from a line of medium width, no style and the color of the
text. -/
def Line.text (line : Line) : String :=
  let shown (v : Option Value) (standard : Value) := v.toList.filter (· != standard)
  let parts := shown line.width (.word "medium") ++ shown line.style (.word "none") ++
    shown line.color (.color .current)
  if parts.isEmpty then "none" else " ".intercalate (parts.map Value.text)

/-- A line by its parts. -/
def line (styles : List String) : Reader String := fun r ↦
  let (line, rest) := lineParts styles 3 ⟨none, none, none⟩ r
  if line.width.isNone && line.style.isNone && line.color.isNone then none
  else some (line.text, rest)

/-! ### Boxes -/

/-- The kinds of box that have a keyword of their own. -/
def boxWords : List String :=
  ["none", "contents", "table-row-group", "table-header-group", "table-footer-group",
    "table-row", "table-cell", "table-column-group", "table-column", "table-caption",
    "ruby-base", "ruby-text", "ruby-base-container", "ruby-text-container", "inline-block",
    "inline-table", "inline-flex", "-webkit-inline-flex", "-ms-inline-flexbox",
    "-webkit-inline-box", "-moz-inline-box", "inline-grid"]

/-- How a box stands in its surroundings. -/
def outsideWords : List String := ["block", "inline", "run-in"]

/-- How a box lays out its content. -/
def insideWords : List String :=
  ["flow", "flow-root", "table", "flex", "-webkit-flex", "-ms-flexbox", "-webkit-box",
    "-moz-box", "grid", "ruby"]

/-- A box by its outside, its inside, and whether it is a list item. -/
structure Box where
  outside : Option String
  inside : Option String
  listItem : Bool

/-- Take the parts of a box in any order. -/
def boxParts : Nat → Box → Region → Box × Region
  | 0, box, r => (box, r)
  | n + 1, box, r =>
    match keyword ["list-item"] r with
    | some (_, rest) => boxParts n { box with listItem := true } rest
    | none =>
      match if box.outside.isNone then keyword outsideWords r else none with
      | some (v, rest) => boxParts n { box with outside := some v.text } rest
      | none =>
        match if box.inside.isNone then keyword insideWords r else none with
        | some (v, rest) => boxParts n { box with inside := some v.text } rest
        | none => (box, r)

/-- The shortest text of a box. A list item must flow. -/
def Box.text? (box : Box) : Option String :=
  let inside := box.inside.getD "flow"
  let usual := if inside = "ruby" then "inline" else "block"
  let outside := box.outside.getD usual
  if box.listItem && inside != "flow" && inside != "flow-root" then none
  else
    match box.listItem, outside, inside with
    | false, "inline", "flow-root" => some "inline-block"
    | false, "inline", "table" => some "inline-table"
    | false, "inline", "flex" => some "inline-flex"
    | false, "inline", "-webkit-flex" => some "-webkit-inline-flex"
    | false, "inline", "-ms-flexbox" => some "-ms-inline-flexbox"
    | false, "inline", "-webkit-box" => some "-webkit-inline-box"
    | false, "inline", "-moz-box" => some "-moz-inline-box"
    | false, "inline", "grid" => some "inline-grid"
    | listItem, outside, inside =>
      some (" ".intercalate (
        (if outside != usual || (inside = "flow" && !listItem) then [outside] else []) ++
        (if inside != "flow" then [inside] else []) ++ if listItem then ["list-item"] else []))

/-- The kind of a box. -/
def display : Reader String :=
  orElse (text (keyword boxWords)) fun r ↦
    let (box, rest) := boxParts (r.items.length + 1) ⟨none, none, false⟩ r
    if box.outside.isNone && box.inside.isNone && !box.listItem then none
    else box.text?.map (·, rest)

/-! ### Backgrounds -/

/-- A background that is a color alone. One that shows nothing is no background. -/
def background : Reader String := fun r ↦
  match color r with
  | some (v, rest) => some (if v == .color (.rgba 0 0 0 0) then "none" else v.text, rest)
  | none => text (keyword ["none"]) r

/-! ### Keywords -/

/-- The keywords of the properties that take nothing else. -/
def keywordsOf : String → List String
  | "visibility" => ["visible", "hidden", "collapse"]
  | "position" => ["static", "relative", "absolute", "sticky", "-webkit-sticky", "fixed"]
  | "box-sizing" => ["content-box", "border-box"]
  | "overflow-x" => ["visible", "hidden", "clip", "scroll", "auto"]
  | "overflow-y" => ["visible", "hidden", "clip", "scroll", "auto"]
  | "text-overflow" => ["clip", "ellipsis"]
  | "flex-direction" => ["row", "row-reverse", "column", "column-reverse"]
  | "flex-wrap" => ["nowrap", "wrap", "wrap-reverse"]
  | "text-transform" => ["none", "uppercase", "lowercase", "capitalize"]
  | "white-space" => ["normal", "pre", "nowrap", "pre-wrap", "break-spaces", "pre-line"]
  | "word-break" => ["normal", "keep-all", "break-all", "break-word"]
  | "hyphens" => ["none", "manual", "auto"]
  | "overflow-wrap" => ["normal", "anywhere", "break-word"]
  | "word-wrap" => ["normal", "anywhere", "break-word"]
  | "text-align" =>
    ["start", "end", "left", "right", "center", "justify", "match-parent", "justify-all"]
  | "direction" => ["ltr", "rtl"]
  | "resize" => ["none", "both", "horizontal", "vertical", "block", "inline"]
  | "user-select" => ["auto", "text", "none", "contain", "all"]
  | "list-style-position" => ["inside", "outside"]
  | "font-style" => ["normal", "italic", "oblique"]
  | "font-variant-caps" =>
    ["normal", "small-caps", "all-small-caps", "petite-caps", "all-petite-caps", "unicase",
      "titling-caps"]
  | "text-decoration" =>
    ["none", "underline", "overline", "line-through", "blink", "spelling-error",
      "grammar-error"]
  | "text-decoration-line" =>
    ["none", "underline", "overline", "line-through", "blink", "spelling-error",
      "grammar-error"]
  | "text-decoration-style" => ["solid", "double", "dotted", "dashed", "wavy"]
  | "unicode-bidi" =>
    ["normal", "embed", "isolate", "bidi-override", "isolate-override", "plaintext"]
  | "backface-visibility" => ["visible", "hidden"]
  | _ => []

/-! ### Grammars -/

/-- Whether a name is one of a family for single sides. -/
def isSide (before after name : String) : Bool :=
  (nameFamily before (sides ++ ["block-start", "block-end", "inline-start", "inline-end"])
    after).contains name

/-- The grammar of a known property, as far as there is one. -/
def grammar (name : String) : Reader String :=
  match name with
  | "color" => text color
  | "background" => background
  | "background-color" => text color
  | "outline-color" => text color
  | "text-decoration-color" => text color
  | "text-emphasis-color" => text color
  | "border-color" => fourSides color
  | "caret-color" => text (orElse color (keyword ["auto"]))
  | "accent-color" => text (orElse color (keyword ["auto"]))
  | "display" => display
  | "opacity" => text portion
  | "z-index" => text (orElse (keyword ["auto"]) integer)
  | "order" => text integer
  | "flex-grow" => text number
  | "flex-shrink" => text number
  | "font-weight" => text (orElse number (keyword ["normal", "bold", "bolder", "lighter"]))
  | "font-size" =>
    text (orElse lengthPercentage
      (keyword ["xx-small", "x-small", "small", "medium", "large", "x-large", "xx-large",
        "xxx-large", "smaller", "larger"]))
  | "line-height" =>
    text (orElse (keyword ["normal"]) (orElse number lengthPercentage))
  | "letter-spacing" => text (orElse (keyword ["normal"]) length)
  | "word-spacing" => text (orElse (keyword ["normal"]) length)
  | "row-gap" => text (lengthOr "normal")
  | "column-gap" => text (lengthOr "normal")
  | "margin" => fourSides (lengthOr "auto")
  | "padding" => fourSides (lengthOr "auto")
  | "inset" => fourSides (lengthOr "auto")
  | "border" => line lineStyles
  | "outline" => line ("auto" :: lineStyles)
  | "border-style" => fourSides (keyword lineStyles)
  | "border-width" => fourSides lineWidth
  | "outline-style" => text (keyword ("auto" :: lineStyles))
  | "outline-width" => text lineWidth
  | name =>
    if ["width", "height", "min-width", "min-height", "block-size", "inline-size",
        "min-block-size", "min-inline-size"].contains name then text (size "auto")
    else if ["max-width", "max-height", "max-block-size", "max-inline-size"].contains name then
      text (size "none")
    else if isSide "" "" name || isSide "inset-" "" name || isSide "margin-" "" name ||
        isSide "padding-" "" name then
      text (lengthOr "auto")
    else if isSide "border-" "" name then line lineStyles
    else if isSide "border-" "-color" name then text color
    else if isSide "border-" "-style" name then text (keyword lineStyles)
    else if isSide "border-" "-width" name then text lineWidth
    else text (keyword (keywordsOf name))

/-- The keywords that every property takes. -/
def wideWords : List String := ["initial", "inherit", "unset", "revert", "revert-layer"]

/-- Whether a component ends a value. -/
def endsValue (c : Component) : Bool := c.isSemicolon || c.isBang

/-- The text of a region that the grammar of a known property takes to its end. -/
def grammarText? (name : String) (r : Region) : Option String :=
  if knownProperties.contains name then
    match grammar name r with
    | some (text, rest) => if rest.next?.isNone then some text else none
    | none => none
  else none

/-- The canonical text of a value: by the grammar, else as it is, up to a semicolon or an
exclamation mark. All properties together take no value of their own. -/
def valueText (name : String) (r : Region) : Except CssError String :=
  let name := Text.lower name
  if name = "all" then
    match keyword wideWords r with
    | some (v, _) => .ok v.text
    | none => r.unexpected
  else
    match grammarText? name r with
    | some text => .ok text
    | none => Verbatim.text (r.splitBefore endsValue).1.items

end Property

/-! ### Declarations -/

/-- The text before and after the first colon, without the white space at their ends. -/
def splitDeclaration (text : String) : String × String :=
  let cs := text.toList
  (Text.trim (String.ofList (cs.takeWhile (· != ':'))),
    Text.trim (String.ofList ((cs.dropWhile (· != ':')).drop 1)))

/-- The name and the value of a declaration as its canonical text shows them. -/
def canonicalDeclaration (name : String) (value : Region) : Except CssError (String × String) :=
  return splitDeclaration (propertyText name ++ ": " ++ (← Property.valueText name value))

/-- The canonical text of a value of a property, if it can be a value at all. -/
def canonicalValue (property value : String) : Option String :=
  ((canonicalDeclaration property (.ofText value)).toOption).map Prod.snd

end StyleCheck.Css
