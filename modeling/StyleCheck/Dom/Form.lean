import StyleCheck.Dom.Tree

/-!
# Forms

A form is a subtree written down as a value, without places or links. Building a form adds its
nodes in document order; reading a tree gives the form back.
-/

namespace StyleCheck.Dom

/-- A subtree. The document node has no form of its own: met below another node it is only named. -/
inductive Form
  | document
  | doctype (name : String)
  | text (text : String)
  | comment (text : String)
  | element (tag : String) (attributes : List (String × String)) (children : List Form)

namespace Tree

/-- Add a node and put it behind the last child of another. -/
def addUnder (parent : NodeId) (added : NodeId × Tree) : Tree := added.2.appendChild parent added.1

/-- Set attributes one after the other. -/
def setAttributes (t : Tree) (id : NodeId) (attributes : List (String × String)) : Tree :=
  attributes.foldl (fun t a ↦ t.setAttribute id a.1 a.2) t

mutual

/-- Add the nodes of a form below a node: each is complete with its attributes and in its place
before its children are added. -/
def build (t : Tree) (parent : NodeId) : Form → Tree
  | .document => t
  | .doctype name => addUnder parent (t.addDoctype name)
  | .text text => addUnder parent (t.addText text)
  | .comment text => addUnder parent (t.addComment text)
  | .element tag attributes children =>
    let (id, t) := t.addElement tag
    let t := (t.setAttributes id attributes).appendChild parent id
    t.buildAll id children

/-- Add forms below a node one after the other. -/
def buildAll (t : Tree) (parent : NodeId) : List Form → Tree
  | [] => t
  | form :: rest => (t.build parent form).buildAll parent rest

end

/-- The forms of the children of a node, at most `depth` levels down. -/
def formsWithin (t : Tree) : Nat → NodeId → List Form
  | 0, _ => []
  | depth + 1, id =>
    (t.children id).map fun child ↦
      match (t.get? child).map Node.content with
      | none => .document
      | some .document => .document
      | some (.doctype name) => .doctype (t.names.get name)
      | some (.text text) => .text text
      | some (.comment text) => .comment text
      | some (.element e) =>
        .element (t.names.get e.name) (e.attributes.map fun a ↦ (t.names.get a.1, a.2))
          (t.formsWithin depth child)

/-- The forms of the children of a node. -/
def forms (t : Tree) (id : NodeId) : List Form := t.formsWithin t.size id

end Tree

end StyleCheck.Dom
