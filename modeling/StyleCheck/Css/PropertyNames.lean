import StyleCheck.Css.Verbatim

/-!
# Names of properties

A known property is named in small letters. Any other name is kept as it is written.
-/

namespace StyleCheck.Css

/-- The four sides of a box. -/
def sides : List String := ["top", "right", "bottom", "left"]

/-- The sides of a box by the direction of writing. -/
def flowSides : List String :=
  ["block-start", "block-end", "inline-start", "inline-end", "block", "inline"]

/-- A family of names: what stands before, in the middle and after. -/
def nameFamily (before : String) (middle : List String) (after : String) : List String :=
  middle.map fun m ↦ before ++ m ++ after

/-- The names of known properties that no family gives. -/
def singleNames : List String :=
  ["background-color", "background-image", "background-position-x", "background-position-y",
    "background-position", "background-size", "background-repeat", "background-attachment",
    "background-clip", "background-origin", "background", "box-shadow", "opacity", "color",
    "display", "visibility", "width", "height", "min-width", "min-height", "max-width",
    "max-height", "block-size", "inline-size", "min-block-size", "min-inline-size",
    "max-block-size", "max-inline-size", "box-sizing", "aspect-ratio", "overflow", "overflow-x",
    "overflow-y", "text-overflow", "position", "inset", "border-spacing",
    "border-top-left-radius", "border-top-right-radius", "border-bottom-left-radius",
    "border-bottom-right-radius", "border-start-start-radius", "border-start-end-radius",
    "border-end-start-radius", "border-end-end-radius", "border-radius", "border-image-source",
    "border-image-outset", "border-image-repeat", "border-image-width", "border-image-slice",
    "border-image", "border-color", "border-style", "border-width", "border", "outline",
    "outline-color", "outline-style", "outline-width", "flex-direction", "flex-wrap", "flex-flow",
    "flex-grow", "flex-shrink", "flex-basis", "flex", "order", "align-content",
    "justify-content", "place-content", "align-self", "justify-self", "place-self",
    "align-items", "justify-items", "place-items", "row-gap", "column-gap", "gap",
    "grid-template-columns", "grid-template-rows", "grid-auto-columns", "grid-auto-rows",
    "grid-auto-flow", "grid-template-areas", "grid-template", "grid", "grid-row-start",
    "grid-row-end", "grid-column-start", "grid-column-end", "grid-row", "grid-column",
    "grid-area", "margin", "padding", "scroll-margin", "scroll-padding", "font-weight",
    "font-size", "font-stretch", "font-family", "font-style", "font-variant-caps", "line-height",
    "font", "vertical-align", "font-palette", "transition-property", "transition-duration",
    "transition-delay", "transition-timing-function", "transition", "animation-name",
    "animation-duration", "animation-timing-function", "animation-iteration-count",
    "animation-direction", "animation-play-state", "animation-delay", "animation-fill-mode",
    "animation-composition", "animation-timeline", "animation-range-start",
    "animation-range-end", "animation-range", "animation", "transform", "transform-origin",
    "transform-style", "transform-box", "backface-visibility", "perspective",
    "perspective-origin", "translate", "rotate", "scale", "text-transform", "white-space",
    "tab-size", "word-break", "line-break", "hyphens", "overflow-wrap", "word-wrap",
    "text-align", "text-align-last", "text-justify", "word-spacing", "letter-spacing",
    "text-indent", "text-decoration-line", "text-decoration-style", "text-decoration-color",
    "text-decoration-thickness", "text-decoration", "text-decoration-skip-ink",
    "text-emphasis-style", "text-emphasis-color", "text-emphasis", "text-emphasis-position",
    "text-shadow", "direction", "unicode-bidi", "box-decoration-break", "resize", "cursor",
    "caret-color", "caret-shape", "caret", "user-select", "accent-color", "appearance",
    "list-style-type", "list-style-image", "list-style-position", "list-style", "marker-side",
    "composes", "fill", "fill-rule", "fill-opacity", "stroke", "stroke-opacity", "stroke-width",
    "stroke-linecap", "stroke-linejoin", "stroke-miterlimit", "stroke-dasharray",
    "stroke-dashoffset", "marker-start", "marker-mid", "marker-end", "marker",
    "color-interpolation", "color-interpolation-filters", "color-rendering", "shape-rendering",
    "text-rendering", "image-rendering", "clip-path", "clip-rule", "mask-image", "mask-mode",
    "mask-repeat", "mask-position-x", "mask-position-y", "mask-position", "mask-clip",
    "mask-origin", "mask-size", "mask-composite", "mask-type", "mask", "mask-border-source",
    "mask-border-mode", "mask-border-slice", "mask-border-width", "mask-border-outset",
    "mask-border-repeat", "mask-border", "filter", "backdrop-filter", "z-index",
    "container-type", "container-name", "container", "view-transition-name",
    "view-transition-class", "view-transition-group", "color-scheme", "print-color-adjust",
    "all"]

/-- The names of the known properties. -/
def knownProperties : List String :=
  singleNames ++ sides ++ nameFamily "inset-" flowSides "" ++
    (["margin-", "padding-", "scroll-margin-", "scroll-padding-"].flatMap fun before ↦
      nameFamily before (sides ++ flowSides) "") ++
    ["", "-color", "-style", "-width"].flatMap (nameFamily "border-" (sides ++ flowSides))

/-- A property's name as the canonical text of a declaration has it. -/
def propertyText (name : String) : String :=
  if knownProperties.contains (Text.lower name) then Text.lower name else Verbatim.nameText name

end StyleCheck.Css
