import StyleCheck.Html.ElementKinds
import StyleCheck.Html.Node
import StyleCheck.Text.Letters

/-!
# Open elements

The elements that are open at a point of the markup, the innermost first, each with the children
that it has so far. Closing an element puts it among the children of the one around it.
-/

namespace StyleCheck.Html

/-- The language that an element belongs to. -/
inductive Space
  | html
  | drawing
  | formula
  deriving DecidableEq, Repr

/-- Where an element goes when it is closed: to the element around it, in front of the table that
it stands in, or to the head that was closed before. -/
inductive Home
  | around
  | aboveTable
  | head
  deriving DecidableEq, Repr

/-- An open element. Its children are those before the open one within it and those after it, each
list with the last child first. -/
structure OpenElement where
  key : Nat
  name : String
  space : Space
  attributes : List (String × String)
  before : List Node
  after : List Node
  home : Home

/-- The open elements, the innermost first. -/
abbrev OpenElements := List OpenElement

/-- A node put behind others, the last of which stands first; texts side by side are one. -/
def addNode (node : Node) (nodes : List Node) : List Node :=
  match node, nodes with
  | .text t, .text s :: rest => .text (s ++ t) :: rest
  | node, nodes => node :: nodes

namespace OpenElement

/-- Whether an element is the named one of HTML. -/
def isNamed (e : OpenElement) (name : String) : Bool := e.space == .html && e.name == name

/-- Whether an element is one of the named ones of HTML. -/
def isAmong (e : OpenElement) (names : List String) : Bool :=
  e.space == .html && names.contains e.name

/-- Whether an element of a drawing or a formula may hold HTML. -/
def hosts (e : OpenElement) : Bool :=
  match e.space with
  | .html => false
  | .drawing => ElementKinds.drawingHosts.contains e.name
  | .formula =>
    e.name == "annotation-xml" &&
      match e.attributes.lookup "encoding" with
      | some encoding =>
        ["text/html", "application/xhtml+xml"].contains (Text.lower encoding)
      | none => false

/-- Whether an element of a formula holds text. -/
def isFormulaText (e : OpenElement) : Bool :=
  e.space == .formula && ElementKinds.formulaTexts.contains e.name

/-- Whether an element closes a view, given the names of HTML that do. -/
def endsScope (names : List String) (e : OpenElement) : Bool :=
  match e.space with
  | .html => names.contains e.name
  | .drawing => ElementKinds.drawingHosts.contains e.name
  | .formula => e.name == "annotation-xml" || ElementKinds.formulaTexts.contains e.name

/-- Whether a stray end tag does not reach across an element. -/
def isSpecial (e : OpenElement) : Bool :=
  match e.space with
  | .html => ElementKinds.special.contains e.name
  | .drawing => ElementKinds.drawingHosts.contains e.name
  | .formula => e.name == "annotation-xml" || ElementKinds.formulaTexts.contains e.name

/-- The node of an element that is closed. What a template holds is no part of the document. -/
def node (e : OpenElement) : Node :=
  .element e.name e.attributes
    (if e.isNamed "template" then [] else e.before.reverse ++ e.after.reverse)

/-- An element with one more child. -/
def add (node : Node) (e : OpenElement) : OpenElement := { e with before := addNode node e.before }

/-- An element with the attributes of a second start tag that are new. -/
def addAttributes (more : List (String × String)) (e : OpenElement) : OpenElement :=
  { e with attributes :=
      e.attributes ++ more.filter fun a ↦ (e.attributes.lookup a.1).isNone }

end OpenElement

namespace OpenElements

/-- The children of an element with one more child of its first child of a name. -/
def addInside (name : String) (node : Node) : List Node → List Node
  | [] => []
  | .element n attributes children :: rest =>
    if n = name then .element n attributes (children ++ [node]) :: rest
    else .element n attributes children :: addInside name node rest
  | other :: rest => other :: addInside name node rest

/-- Put a node in front of the innermost open table. -/
def addAboveTable (node : Node) : OpenElements → OpenElements
  | [] => []
  | [e] => [e.add node]
  | e :: around :: rest =>
    if e.isNamed "table" then e :: around.add node :: rest
    else if e.isNamed "template" then e.add node :: around :: rest
    else e :: addAboveTable node (around :: rest)

/-- Put a node into the closed head of the outermost element. -/
def addToHead (node : Node) : OpenElements → OpenElements
  | [] => []
  | [e] => [{ e with before := addInside "head" node e.before }]
  | e :: rest => e :: addToHead node rest

/-- Put a node where an element with a home goes. -/
def place (home : Home) (node : Node) (es : OpenElements) : OpenElements :=
  match home, es with
  | .around, e :: rest => e.add node :: rest
  | .around, [] => []
  | .aboveTable, es => addAboveTable node es
  | .head, es => addToHead node es

/-- Close the innermost element. The outermost one stays open. -/
def pop : OpenElements → OpenElements
  | [] => []
  | [e] => [e]
  | e :: rest => place e.home e.node rest

/-- Close elements up to and with the first that passes a test, at most `n`. -/
def popThrough (test : OpenElement → Bool) : Nat → OpenElements → OpenElements
  | 0, es => es
  | _, [] => []
  | n + 1, e :: rest => if test e then pop (e :: rest) else popThrough test n (pop (e :: rest))

/-- Close elements up to the first that passes a test, at most `n`. -/
def popTo (test : OpenElement → Bool) : Nat → OpenElements → OpenElements
  | 0, es => es
  | _, [] => []
  | n + 1, e :: rest => if test e then e :: rest else popTo test n (pop (e :: rest))

/-- Close elements up to and with the innermost one of some names. -/
def closeThrough (names : List String) (es : OpenElements) : OpenElements :=
  popThrough (·.isAmong names) es.length es

/-- Close elements up to the innermost one of some names. -/
def closeTo (names : List String) (es : OpenElements) : OpenElements :=
  popTo (·.isAmong names) es.length es

/-- Whether an element that passes a test is in view, given the names that close the view. -/
def inView (ends : List String) (test : OpenElement → Bool) : OpenElements → Bool
  | [] => false
  | e :: rest => test e || (!e.endsScope ends && inView ends test rest)

/-- Whether one of the named elements is in view. -/
def inScope (names : List String) (es : OpenElements) : Bool :=
  inView ElementKinds.scopeEnds (·.isAmong names) es

/-- Whether one of the named elements is in view in a table. -/
def inTableScope (names : List String) (es : OpenElements) : Bool :=
  inView ElementKinds.tableScopeEnds (·.isAmong names) es

/-- Close the elements whose end is implied, but for the named ones. -/
def closeImplied (but : List String) (es : OpenElements) : OpenElements :=
  popTo (fun e ↦ !(e.isAmong ElementKinds.impliedEnds && !but.contains e.name)) es.length es

/-- Whether the innermost element is one of the named ones. -/
def currentIs (names : List String) : OpenElements → Bool
  | e :: _ => e.isAmong names
  | [] => false

/-- Change the outermost element. -/
def modifyOuter (change : OpenElement → OpenElement) : OpenElements → OpenElements
  | [] => []
  | [e] => [change e]
  | e :: rest => e :: modifyOuter change rest

/-- Change the body, if it is open. -/
def modifyBody (change : OpenElement → OpenElement) (es : OpenElements) : OpenElements :=
  es.map fun e ↦ if e.isNamed "body" then change e else e

/-- The node of the outermost element with all elements closed. -/
def close (es : OpenElements) : Option Node :=
  (popTo (fun _ ↦ false) es.length es).head?.map OpenElement.node

end OpenElements

end StyleCheck.Html
