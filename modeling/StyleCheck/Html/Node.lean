import StyleCheck.Dom.Document
import StyleCheck.Dom.Form
import StyleCheck.Text.Space

/-!
# Parsed markup

The tree that markup stands for, and the forms under which it enters a document: documents within
it are opened up, and processing instructions and blank texts are left out.
-/

namespace StyleCheck.Html

/-- A node of a parsed tree. -/
inductive Node
  | document (children : List Node)
  | doctype (name : String)
  | text (text : String)
  | comment (text : String)
  | instruction (text : String)
  | element (name : String) (attributes : List (String × String)) (children : List Node)

namespace Node

/-- Whether a text is white space alone. -/
def isBlankText (text : String) : Bool := text.toList.all Text.isSpace

mutual

/-- The forms that a node adds to a document. -/
def forms : Node → List Dom.Form
  | .document children => formsOfAll children
  | .doctype name => [.doctype name]
  | .text content => if isBlankText content then [] else [.text content]
  | .comment content => [.comment content]
  | .instruction _ => []
  | .element name attributes children => [.element name attributes (formsOfAll children)]

/-- The forms that nodes add to a document. -/
def formsOfAll : List Node → List Dom.Form
  | [] => []
  | node :: rest => node.forms ++ formsOfAll rest

end

/-- A document that holds a parsed tree, with its elements located. -/
def toDocument (url : String) (node : Node) : Dom.Document :=
  let d := Dom.Document.empty url
  { d with tree := d.tree.buildAll Dom.Tree.root node.forms }.finalize

end Node

end StyleCheck.Html
