import StyleCheck.Html.Lexer
import StyleCheck.Html.OpenElements

/-!
# Building a tree

The state of a tree under construction, and the changes that the rules of markup make to it:
opening and closing elements, adding text, and opening formatting again in a later block.
-/

namespace StyleCheck.Html

/-- Which part of a document is being read. -/
inductive Mode
  | initial
  | beforeHtml
  | beforeHead
  | inHead
  | afterHead
  | inBody
  | text
  | inTable
  | inTableText
  | inCaption
  | inColumnGroup
  | inTableBody
  | inRow
  | inCell
  | inTemplate
  | afterBody
  | afterAfterBody
  deriving DecidableEq, Repr

/-- Formatting that goes on until it is closed: an element, or a mark that it does not cross. -/
inductive Formatting
  | marker
  | element (key : Nat) (name : String) (attributes : List (String × String))
  deriving DecidableEq, Repr

/-- Whether formatting is an element of a name. -/
def Formatting.isNamed (name : String) : Formatting → Bool
  | .marker => false
  | .element _ n _ => n == name

/-- Whether formatting is the element with a key. -/
def Formatting.hasKey (key : Nat) : Formatting → Bool
  | .marker => false
  | .element k _ _ => k == key

/-- A tree under construction. Nodes before and after the outermost element are kept with the last
one first, and so are the modes in which the content of open templates is read. -/
structure Builder where
  mode : Mode
  returnTo : Mode
  setting : Setting
  opened : OpenElements
  prolog : List Node
  epilog : List Node
  formatting : List Formatting
  templates : List Mode
  nextKey : Nat
  form : Option Nat
  skipLineFeed : Bool
  tablesInParagraphs : Bool
  fostering : Bool
  tableText : List Char

namespace Builder

/-- Nothing read. -/
def start : Builder where
  mode := .initial
  returnTo := .inBody
  setting := .markup
  opened := []
  prolog := []
  epilog := []
  formatting := []
  templates := []
  nextKey := 0
  form := none
  skipLineFeed := false
  tablesInParagraphs := true
  fostering := false
  tableText := []

/-- Go on with another part of the document. -/
def enter (mode : Mode) (b : Builder) : Builder := { b with mode }

/-- Change the open elements. -/
def modify (change : OpenElements → OpenElements) (b : Builder) : Builder :=
  { b with opened := change b.opened }

/-- Close the innermost element. -/
def pop (b : Builder) : Builder := b.modify OpenElements.pop

/-! ### Adding nodes -/

/-- Where a new node goes: in front of the table where it may not stand in its parts. -/
def home (b : Builder) : Home :=
  if b.fostering && OpenElements.currentIs ElementKinds.textless b.opened then .aboveTable
  else .around

/-- Add a node. -/
def addNode (node : Node) (b : Builder) : Builder := b.modify (OpenElements.place b.home node)

/-- Add a character. -/
def addChar (c : Char) (b : Builder) : Builder := b.addNode (.text c.toString)

/-- Add a comment. -/
def addComment (text : String) (b : Builder) : Builder := b.addNode (.comment text)

/-- Add a node after the open child of the outermost element. -/
def addBehindBody (node : Node) (b : Builder) : Builder :=
  b.modify (OpenElements.modifyOuter fun e ↦ { e with after := Html.addNode node e.after })

/-- Open an element that goes to a place of its own. -/
def openAt (home : Home) (space : Space) (name : String) (attributes : List (String × String))
    (b : Builder) : Builder :=
  { b with
    opened := ⟨b.nextKey, name, space, attributes, [], [], home⟩ :: b.opened
    nextKey := b.nextKey + 1 }

/-- Open an element of HTML. -/
def openElement (tag : Tag) (b : Builder) : Builder :=
  b.openAt b.home .html tag.name tag.attributes

/-- Open an element of HTML without attributes. -/
def openNamed (name : String) (b : Builder) : Builder := b.openAt b.home .html name []

/-- Add an element without content. -/
def addVoid (tag : Tag) (b : Builder) : Builder := (b.openElement tag).pop

/-- Open an element whose content is text, read under a setting of its own. -/
def openText (setting : Setting) (tag : Tag) (b : Builder) : Builder :=
  { b.openElement tag with setting, returnTo := b.mode, mode := .text }

/-! ### Paragraphs -/

/-- Whether one of the named elements is in view of a paragraph. -/
def inParagraphScope (names : List String) (b : Builder) : Bool :=
  OpenElements.inView ElementKinds.paragraphScopeEnds (·.isAmong names) b.opened

/-- Close elements whose end is implied, and then others up to and with one of some names. -/
def closeWithImplied (but : List String) (names : List String) (b : Builder) : Builder :=
  b.modify fun es ↦ OpenElements.closeThrough names (OpenElements.closeImplied but es)

/-- Close the paragraph in view, if there is one. -/
def closeParagraph (b : Builder) : Builder :=
  if b.inParagraphScope ["p"] then b.closeWithImplied ["p"] ["p"] else b

/-! ### Formatting -/

/-- Whether the element with a key is open. -/
def isOpen (key : Nat) (b : Builder) : Bool := b.opened.any (·.key == key)

/-- Whether formatting has to be opened again before content. -/
def isPending (b : Builder) : Formatting → Bool
  | .marker => false
  | .element key _ _ => !b.isOpen key

/-- Open a piece of formatting again. -/
def reopen (b : Builder) : Formatting → Builder
  | .marker => { b with formatting := .marker :: b.formatting }
  | .element _ name attributes =>
    { b.openAt b.home .html name attributes with
      formatting := .element b.nextKey name attributes :: b.formatting }

/-- Open again the formatting that was closed with the element around it. -/
def reconstruct (b : Builder) : Builder :=
  let (pending, kept) := b.formatting.span b.isPending
  pending.reverse.foldl reopen { b with formatting := kept }

/-- The formatting since the last mark. -/
def recent (b : Builder) : List Formatting := b.formatting.takeWhile (· != .marker)

/-- Without the earliest of three equal pieces of formatting since the last mark. -/
def limitAlike (name : String) (attributes : List (String × String)) (b : Builder) : Builder :=
  let alike := b.recent.filter fun
    | .element _ n a => n == name && a.length == attributes.length &&
        a.all attributes.contains
    | .marker => false
  if alike.length < 3 then b
  else
    match alike.getLast? with
    | some earliest => { b with formatting := b.formatting.erase earliest }
    | none => b

/-- Open an element of formatting. -/
def openFormatting (tag : Tag) (b : Builder) : Builder :=
  let b := b.limitAlike tag.name tag.attributes
  { b.openElement tag with
    formatting := .element b.nextKey tag.name tag.attributes :: b.formatting }

/-- Put a mark that formatting does not cross. -/
def addMarker (b : Builder) : Builder := { b with formatting := .marker :: b.formatting }

/-- Forget the formatting since the last mark, and the mark. -/
def clearFormatting (b : Builder) : Builder :=
  { b with formatting := (b.formatting.dropWhile (· != .marker)).drop 1 }

/-- Forget a piece of formatting. -/
def forget (key : Nat) (b : Builder) : Builder :=
  { b with formatting := b.formatting.filter fun f ↦ !f.hasKey key }

/-- Close the innermost element of a name with all in it, unless an element that stray end tags do
not reach across stands in between. -/
def closeOther (name : String) (b : Builder) : Builder :=
  match b.opened.find? fun e ↦ e.isNamed name || e.isSpecial with
  | some e =>
    if e.isNamed name then
      b.modify fun es ↦
        let es := OpenElements.closeImplied [name] es
        OpenElements.popThrough (·.key == e.key) es.length es
    else b
  | none => b

/-- The elements between a block and the formatting around it, from the block outward: formatting
among the nearest three is opened again outside of the formatting that ends. -/
def cloneBetween (count : Nat) (b : Builder) : OpenElements → OpenElements × Builder
  | [] => ([], b)
  | e :: rest =>
    if b.formatting.any (·.hasKey e.key) && count < 3 then
      let key := b.nextKey
      let formatting := b.formatting.map fun f ↦
        if f.hasKey e.key then .element key e.name e.attributes else f
      let r := cloneBetween (count + 1) { b with nextKey := key + 1, formatting } rest
      ({ e with key, before := [], after := [], home := .around } :: r.1, r.2)
    else cloneBetween (count + 1) (b.forget e.key) rest

/-- Put formatting behind the place of other formatting, which is forgotten. Where `after` names an
element, the place is next to it instead. -/
def moveFormatting (old : Nat) (after : Option Nat) (new : Formatting) (b : Builder) : Builder :=
  let formatting := match after with
    | none => b.formatting.map fun f ↦ if f.hasKey old then new else f
    | some key => (b.formatting.flatMap fun f ↦ if f.hasKey key then [new, f] else [f]).filter
        fun f ↦ !f.hasKey old
  { b with formatting }

/-- End formatting around a block that stands in it: the block leaves the formatting, which goes on
within the block. -/
def splitFormatting (formatting block : OpenElement) (inner between outer : OpenElements)
    (b : Builder) : Builder :=
  let ended := OpenElements.pop (OpenElements.popTo (·.key == formatting.key) between.length
    (between ++ formatting :: outer))
  let (clones, b) := cloneBetween 0 b between
  let home : Home := if OpenElements.currentIs ElementKinds.textless ended then .aboveTable
    else .around
  let again := { formatting with
    key := b.nextKey, before := block.before, after := block.after, home := .around }
  let block := { block with before := [], after := [], home := .around }
  let moved := match (block :: clones).reverse with
    | first :: rest => rest.reverse ++ [{ first with home }]
    | [] => []
  let beside := clones.head?.map OpenElement.key
  moveFormatting formatting.key beside
    (.element again.key formatting.name formatting.attributes)
    { b with nextKey := b.nextKey + 1, opened := inner ++ again :: moved ++ ended }

/-- One round of closing formatting of a name; the answer says whether another one is due. -/
def closeFormattingOnce (name : String) (b : Builder) : Bool × Builder :=
  match b.recent.find? (Formatting.isNamed name) with
  | some (.element key _ _) =>
    if !b.isOpen key then (false, b.forget key)
    else if !OpenElements.inView ElementKinds.scopeEnds (·.key == key) b.opened then (false, b)
    else
      let above := b.opened.takeWhile (·.key != key)
      match b.opened.drop above.length with
      | [] => (false, b)
      | formatting :: outer =>
        match above.reverse.find? (·.isSpecial) with
        | none =>
          (false, (b.modify fun es ↦ OpenElements.popThrough (·.key == key) es.length es).forget
            key)
        | some block =>
          let inner := above.takeWhile (·.key != block.key)
          let between := above.drop (inner.length + 1)
          (true, splitFormatting formatting block inner between outer b)
  | _ => (false, b.closeOther name)

/-- Close formatting of a name, in at most `n` rounds. -/
def closeFormattingRounds (name : String) : Nat → Builder → Builder
  | 0, b => b
  | n + 1, b =>
    match closeFormattingOnce name b with
    | (true, b) => closeFormattingRounds name n b
    | (false, b) => b

/-- Close formatting of a name. -/
def closeFormatting (name : String) (b : Builder) : Builder :=
  match b.opened with
  | e :: _ =>
    if e.isNamed name && !b.formatting.any (·.hasKey e.key) then b.pop
    else closeFormattingRounds name 8 b
  | [] => b

/-! ### The whole tree -/

/-- The tree with every element closed. -/
def finish (b : Builder) : Node :=
  .document (b.prolog.reverse ++ (OpenElements.close b.opened).toList ++ b.epilog.reverse)

end Builder

end StyleCheck.Html
