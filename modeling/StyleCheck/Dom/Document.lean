import StyleCheck.Dom.Tree

/-!
# Documents

A tree with its address and with the places of its `html`, `head` and `body` elements, as they
were last located.
-/

namespace StyleCheck.Dom

/-- A style sheet that a document embeds: the module it belongs to, and its text. -/
structure StyleSource where
  id : String
  css : String
  deriving DecidableEq, Repr

/-- A tree, its address, and the located elements. -/
structure Document where
  tree : Tree
  url : String
  html : Option NodeId
  head : Option NodeId
  body : Option NodeId

namespace Document

/-- A document whose tree holds the document node alone. -/
def empty (url : String) : Document := ⟨.new, url, none, none, none⟩

/-- A document with an `html` element that holds an empty `head` and an empty `body`. -/
def blank (url : String) : Document :=
  let (html, tree) := Tree.new.addElement "html"
  let (head, tree) := tree.addElement "head"
  let (body, tree) := tree.addElement "body"
  let tree := ((tree.appendChild Tree.root html).appendChild html head).appendChild html body
  ⟨tree, url, some html, some head, some body⟩

/-- The address of a document that has none of its own. -/
def blankUrl : String := "about:blank"

/-- Note a child of `html` as the head or the body, if its tag says so. -/
def locate (d : Document) (child : NodeId) : Document :=
  match d.tree.tag? child with
  | some "head" => { d with head := some child }
  | some "body" => { d with body := some child }
  | _ => d

/-- Locate the first `html` element below the document node and its last head and body. What is
not found again keeps its place, but for `html`. -/
def finalize (d : Document) : Document :=
  match (d.tree.elementChildren Tree.root).find? fun id ↦ d.tree.tag? id == some "html" with
  | none => { d with html := none }
  | some html => (d.tree.elementChildren html).foldl locate { d with html := some html }

/-- The text of the first `title` in the head. -/
def title (d : Document) : String :=
  match d.head with
  | none => ""
  | some head =>
    match (d.tree.elementChildren head).find? fun id ↦ d.tree.tag? id == some "title" with
    | some title => d.tree.textContent title
    | none => ""

/-- The first element in document order with the given id. -/
def elementById? (d : Document) (id : String) : Option NodeId :=
  (d.tree.descendants Tree.root).find? fun node ↦
    ((d.tree.element? node).bind Element.id) == some id

/-- The `style` elements that carry an attribute, in document order: its value and their text. -/
def styleSources (d : Document) (attributeName : String) : List StyleSource :=
  ((d.tree.descendants Tree.root).filter fun id ↦ d.tree.tag? id == some "style").filterMap
    fun id ↦ (d.tree.attribute? id attributeName).map fun value ↦ ⟨value, d.tree.textContent id⟩

end Document

end StyleCheck.Dom
