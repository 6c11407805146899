import StyleCheck.Dom.Node
import StyleCheck.Text.Quoted

/-!
# Document trees

Nodes live in a table and refer to each other by their places in it; the document node stands at
place zero. Edits keep the links an ordered forest: what would close a cycle or use a missing node
changes nothing.
-/

namespace StyleCheck.Dom

/-- The nodes in the order of their creation, and the names that they use. -/
structure Tree where
  nodes : Array Node
  names : Names

namespace Tree

/-- The place of the document node. -/
def root : NodeId := 0

/-- A tree that holds the document node alone. -/
def new : Tree := ⟨#[.ofContent .document], .initial⟩

/-- The number of nodes. -/
def size (t : Tree) : Nat := t.nodes.size

/-- The node at a place. -/
def get? (t : Tree) (id : NodeId) : Option Node := t.nodes[id]?

/-- Whether there is a node at a place. -/
def has (t : Tree) (id : NodeId) : Bool := (t.get? id).isSome

/-- Change the node at a place, if there is one. -/
def update (t : Tree) (id : NodeId) (change : Node → Node) : Tree :=
  { t with nodes := t.nodes.modify id change }

/-- Change a node whose place may be missing. -/
def update? (t : Tree) (id : Option NodeId) (change : Node → Node) : Tree :=
  match id with
  | some id => t.update id change
  | none => t

/-! ### Creation -/

/-- Add a node without links. -/
def add (t : Tree) (content : Content) : NodeId × Tree :=
  (t.nodes.size, { t with nodes := t.nodes.push (.ofContent content) })

/-- The place of a name, and the tree that knows it. -/
def intern (t : Tree) (name : String) : NameId × Tree :=
  let (id, names) := t.names.intern name
  (id, { t with names })

/-- Add an element; its tag is lowered. -/
def addElement (t : Tree) (tag : String) : NodeId × Tree :=
  let (name, t) := t.intern (Text.lower tag)
  t.add (.element (.ofName name))

/-- Add a text node. -/
def addText (t : Tree) (text : String) : NodeId × Tree := t.add (.text text)

/-- Add a comment. -/
def addComment (t : Tree) (text : String) : NodeId × Tree := t.add (.comment text)

/-- Add a document type. -/
def addDoctype (t : Tree) (name : String) : NodeId × Tree :=
  let (name, t) := t.intern name
  t.add (.doctype name)

/-- Set an attribute of an element; other nodes have none to set. -/
def setAttribute (t : Tree) (id : NodeId) (name value : String) : Tree :=
  let (nameId, t) := t.intern name
  t.update id fun node ↦
    match node.content with
    | .element e => { node with content := .element (e.set nameId name value) }
    | _ => node

/-! ### Chains of links -/

/-- The nodes from `start` on along a link, at most `bound` of them. -/
def along (t : Tree) (link : Node → Option NodeId) : Nat → Option NodeId → List NodeId
  | 0, _ => []
  | _, none => []
  | bound + 1, some id =>
    match t.get? id with
    | some node => id :: t.along link bound (link node)
    | none => []

/-- A node and its ancestors, the nearest first. -/
def upward (t : Tree) (id : NodeId) : List NodeId := t.along Node.parent t.size (some id)

/-- The siblings before a node, the nearest first. -/
def preceding (t : Tree) (id : NodeId) : List NodeId :=
  t.along Node.previous t.size ((t.get? id).bind Node.previous)

/-- The children of a node in order. -/
def children (t : Tree) (id : NodeId) : List NodeId :=
  t.along Node.next t.size ((t.get? id).bind Node.firstChild)

/-! ### Edits -/

/-- Take a node out of its parent's children. -/
def detach (t : Tree) (id : NodeId) : Tree :=
  match t.get? id with
  | none => t
  | some node =>
    let t := match node.previous with
      | some previous => t.update previous fun n ↦ { n with next := node.next }
      | none => t.update? node.parent fun n ↦ { n with firstChild := node.next }
    let t := match node.next with
      | some next => t.update next fun n ↦ { n with previous := node.previous }
      | none => t.update? node.parent fun n ↦ { n with lastChild := node.previous }
    t.update id fun n ↦ { n with parent := none, previous := none, next := none }

/-- Put a node without parent behind the last child of another. -/
def link (t : Tree) (parent child : NodeId) : Tree :=
  let last := (t.get? parent).bind Node.lastChild
  let t := t.update child fun n ↦ { n with parent := some parent, previous := last, next := none }
  let t := match last with
    | some last => t.update last fun n ↦ { n with next := some child }
    | none => t.update parent fun n ↦ { n with firstChild := some child }
  t.update parent fun n ↦ { n with lastChild := some child }

/-- Move a node behind the last child of another. Nothing changes if one of them is missing or the
moved node is the other one or an ancestor of it. -/
def appendChild (t : Tree) (parent child : NodeId) : Tree :=
  if t.has parent && t.has child && !(t.upward parent).contains child then
    (t.detach child).link parent child
  else t

/-! ### Queries -/

/-- The element at a place. -/
def element? (t : Tree) (id : NodeId) : Option Element := (t.get? id).bind Node.element?

/-- Whether an element stands at a place. -/
def isElement (t : Tree) (id : NodeId) : Bool := (t.element? id).isSome

/-- The children that are elements. -/
def elementChildren (t : Tree) (id : NodeId) : List NodeId := (t.children id).filter t.isElement

/-- The parent, if it is an element. -/
def parentElement? (t : Tree) (id : NodeId) : Option NodeId :=
  ((t.get? id).bind Node.parent).filter t.isElement

/-- The elements before a node among its siblings, the nearest first. -/
def precedingElements (t : Tree) (id : NodeId) : List NodeId := (t.preceding id).filter t.isElement

/-- The nearest element before a node among its siblings. -/
def previousElement? (t : Tree) (id : NodeId) : Option NodeId := (t.precedingElements id).head?

/-- The parent and its ancestors as far as they are elements, the nearest first. -/
def ancestorElements (t : Tree) (id : NodeId) : List NodeId :=
  ((t.upward id).drop 1).takeWhile t.isElement

/-- The tag of an element. -/
def tag? (t : Tree) (id : NodeId) : Option String :=
  (t.element? id).map fun e ↦ t.names.get e.name

/-- The value of an attribute, its name taken in any case; the first one counts. -/
def attribute? (t : Tree) (id : NodeId) (name : String) : Option String :=
  (t.element? id).bind fun e ↦
    (e.attributes.find? fun a ↦ Text.sameIgnoringCase (t.names.get a.1) name).map Prod.snd

/-- Whether an element has an attribute. -/
def hasAttribute (t : Tree) (id : NodeId) (name : String) : Bool := (t.attribute? id name).isSome

/-- Read nodes off a stack, putting the children of each in its place; at most `bound` nodes. -/
def drain (t : Tree) : Nat → List NodeId → List NodeId
  | 0, _ => []
  | _, [] => []
  | bound + 1, id :: stack => id :: t.drain bound (t.children id ++ stack)

/-- All nodes below another in document order. -/
def descendants (t : Tree) (id : NodeId) : List NodeId := t.drain t.size (t.children id)

/-- The text that a node itself holds. -/
def ownText (t : Tree) (id : NodeId) : String := ((t.get? id).bind Node.text?).getD ""

/-- The text of a node and of all nodes below it. -/
def textContent (t : Tree) (id : NodeId) : String :=
  t.ownText id ++ String.join ((t.descendants id).map t.ownText)

/-- A short picture of a node: the start tag of an element, the kind of any other node. -/
def describe (t : Tree) (id : NodeId) : String :=
  match t.get? id with
  | none => "<invalid node>"
  | some node =>
    match node.content with
    | .element e =>
      "<" ++ t.names.get e.name ++
        String.join (e.attributes.map fun a ↦ " " ++ t.names.get a.1 ++ "=\"" ++ a.2 ++ "\"") ++ ">"
    | .text text => "#text " ++ Text.quoted text
    | .comment _ => "#comment"
    | .doctype _ => "#doctype"
    | .document => "#document"

end Tree

end StyleCheck.Dom
