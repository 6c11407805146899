import StyleCheck.Dom.Document
import StyleCheck.Selector.Parser

/-!
# Selector matching

A selector is matched from its subject leftwards: the last compound is held against the element,
and each combinator names the elements that may stand for the compound before it.
-/

namespace StyleCheck.Dom

open Selector (AttributeTest Combinator Comparison Compound Link Simple)

/-- Whether one list of characters stands somewhere within another. -/
def occursIn (part : List Char) : List Char → Bool
  | [] => part.isEmpty
  | c :: rest => part.isPrefixOf (c :: rest) || occursIn part rest

/-- Whether an attribute's value passes a comparison. An empty word, start, end or part is never
found. -/
def passes (comparison : Comparison) (actual expected : String) : Bool :=
  let a := actual.toList
  let e := expected.toList
  match comparison with
  | .equals => actual == expected
  | .includes => !e.isEmpty && (Text.asciiWords actual).contains expected
  | .dashMatch => actual == expected || (e ++ ['-']).isPrefixOf a
  | .startsWith => !e.isEmpty && e.isPrefixOf a
  | .endsWith => !e.isEmpty && e.isSuffixOf a
  | .contains => !e.isEmpty && occursIn e a

namespace Tree

/-- Whether an element passes an attribute condition. -/
def matchesAttribute (t : Tree) (id : NodeId) (test : AttributeTest) : Bool :=
  match t.attribute? id test.name with
  | none => false
  | some actual =>
    match test.comparison, test.value with
    | some comparison, some value => passes comparison actual value.content
    | _, _ => true

/-- Whether an element meets one condition. -/
def meets (t : Tree) (id : NodeId) (e : Element) : Simple → Bool
  | .typeName name => Text.sameIgnoringCase (t.names.get e.name) name
  | .idName name => e.id == some name
  | .className name => e.hasClass name
  | .attr test => t.matchesAttribute id test

/-- Whether a node is an element that meets every condition. -/
def matchesCompound (t : Tree) (id : NodeId) (compound : Compound) : Bool :=
  match t.element? id with
  | none => false
  | some e => compound.conditions.all (t.meets id e)

/-- The elements that a combinator admits to the left of an element, the nearest first. -/
def leftOf (t : Tree) (id : NodeId) : Combinator → List NodeId
  | .child => (t.parentElement? id).toList
  | .descendant => t.ancestorElements id
  | .nextSibling => (t.previousElement? id).toList
  | .laterSibling => t.precedingElements id

/-- Whether an element stands at the right end of a chain of links, given from right to left. -/
def matchesLinks (t : Tree) : List Link → NodeId → Bool
  | [], _ => true
  | link :: rest, id =>
    t.matchesCompound id link.compound &&
      match link.combinator with
      | none => true
      | some combinator => (t.leftOf id combinator).any (t.matchesLinks rest)

/-- Whether an element matches a selector. -/
def matchesSelector (t : Tree) (id : NodeId) (s : Selector.Complex) : Bool :=
  t.isElement id && t.matchesLinks s.chain.reverse id

/-- Whether an element matches a selector text; a text that is no selector matches nothing. -/
def matchesText (t : Tree) (id : NodeId) (selector : String) : Bool :=
  match Selector.parse selector with
  | .ok s => t.matchesSelector id s
  | .error _ => false

/-- The elements below a node that match a selector text, in document order. -/
def queryAll (t : Tree) (id : NodeId) (selector : String) : List NodeId :=
  match Selector.parse selector with
  | .ok s => (t.descendants id).filter fun node ↦ t.matchesSelector node s
  | .error _ => []

/-- The first element below a node that matches a selector text. -/
def query? (t : Tree) (id : NodeId) (selector : String) : Option NodeId :=
  (t.queryAll id selector).head?

end Tree

/-- The events of reading a selector text in order to match it. -/
def matchingEvents (selector : String) : List Event :=
  Selector.parseEvents selector ++
    match Selector.parse selector with
    | .ok _ => []
    | .error e =>
      [{ level := .trace
         reporter := .matching
         message := "selector not supported for matching: " ++ e.message
         details := [("selector", .text selector)] }]

end StyleCheck.Dom
