import StyleCheck.Dom.Names
import StyleCheck.Text.Letters
import StyleCheck.Text.Space

/-!
# Nodes

A node of a document: what it holds, and its links to its parent, to its first and last child and
to its neighbours. An element keeps its id and its classes beside its attributes.
-/

namespace StyleCheck.Dom

/-- A node's place in its tree. Where places are words of 32 bits, with the greatest word for no
node, this is exact for trees of fewer than `2 ^ 32 - 1` nodes. -/
abbrev NodeId := Nat

/-- The attributes of an element in order, and what they say of its id and its classes. -/
structure Element where
  name : NameId
  attributes : List (NameId × String)
  id : Option String
  classes : List String
  deriving DecidableEq, Repr

namespace Element

/-- An element without attributes. -/
def ofName (name : NameId) : Element := ⟨name, [], none, []⟩

/-- Give a listed attribute its value in place, or list a new one last. -/
def putAttribute (name : NameId) (value : String) :
    List (NameId × String) → List (NameId × String)
  | [] => [(name, value)]
  | (n, v) :: rest =>
    if n = name then (name, value) :: rest else (n, v) :: putAttribute name value rest

/-- Set an attribute. `spelling` is its name as text: the id and the classes follow the attributes
of those names in whatever case they are spelt. -/
def set (e : Element) (name : NameId) (spelling value : String) : Element :=
  let attributes := putAttribute name value e.attributes
  if Text.sameIgnoringCase spelling "id" then { e with attributes, id := some value }
  else if Text.sameIgnoringCase spelling "class" then
    { e with attributes, classes := Text.asciiWords value }
  else { e with attributes }

/-- The value of the attribute of a name. -/
def get? (e : Element) (name : NameId) : Option String :=
  (e.attributes.find? fun a ↦ a.1 == name).map Prod.snd

/-- Whether a class is among the element's classes. -/
def hasClass (e : Element) (name : String) : Bool := e.classes.contains name

end Element

/-- What a node holds. -/
inductive Content
  | document
  | doctype (name : NameId)
  | element (element : Element)
  | text (text : String)
  | comment (text : String)
  deriving DecidableEq, Repr

/-- A node and its links. -/
structure Node where
  parent : Option NodeId
  firstChild : Option NodeId
  lastChild : Option NodeId
  previous : Option NodeId
  next : Option NodeId
  content : Content
  deriving DecidableEq, Repr

namespace Node

/-- A node without links. -/
def ofContent (content : Content) : Node := ⟨none, none, none, none, none, content⟩

/-- The element that a node holds. -/
def element? (n : Node) : Option Element :=
  match n.content with
  | .element e => some e
  | _ => none

/-- The text that a text node holds. -/
def text? (n : Node) : Option String :=
  match n.content with
  | .text t => some t
  | _ => none

/-- Whether a node is an element. -/
def isElement (n : Node) : Bool := n.element?.isSome

end Node

end StyleCheck.Dom
