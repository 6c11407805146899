import StyleCheck.Checker
import StyleCheck.Html.Node
import StyleCheck.Proofs.Dom.Building
import StyleCheck.Proofs.Dom.Order

/-!
# Lookups

Nodes are looked up in four ways: all or the first that match a selector below a node, the first in
a document with a word on what is wrong with the selector, and the first with an id. Main
statement: in every document they give the nodes that match, in document order, and agree.
-/

namespace StyleCheck.Dom

open Relation (TransGen)

/-! ### Documents -/

/-- Documents are made empty, blank, or of parsed markup; then they are edited and their elements
are located again. -/
inductive Document.Reachable : Document → Prop
  | empty (url : String) : Reachable (.empty url)
  | blank (url : String) : Reachable (.blank url)
  | parsed (url : String) (node : Html.Node) : Reachable (node.toDocument url)
  | edited {d : Document} (h : Reachable d) (edit : Edit) :
      Reachable { d with tree := d.tree.apply edit }
  | finalized {d : Document} (h : Reachable d) : Reachable d.finalize

/-- Edits lead to the tree of every document. -/
theorem Document.Reachable.tree {d : Document} (h : d.Reachable) : d.tree.Reachable := by
  induction h with
  | empty url => exact Tree.reachable_new
  | blank url =>
    exact ⟨[.addElement "html", .addElement "head", .addElement "body",
      .appendChild 0 1, .appendChild 1 2, .appendChild 1 3], rfl⟩
  | parsed url node =>
    rw [Html.Node.toDocument, Document.tree_finalize]
    exact Tree.reachable_new.buildAll Tree.root node.forms
  | edited _ edit ih => exact ih.apply edit
  | finalized _ ih =>
    rw [Document.tree_finalize]
    exact ih

namespace Tree

/-! ### Listed nodes -/

/-- A list has the nodes with a property, in document order and each once. -/
structure Lists (t : Tree) (P : NodeId → Prop) (nodes : List NodeId) : Prop where
  ordered : nodes.Pairwise t.Precedes
  nodup : nodes.Nodup
  mem : ∀ x, x ∈ nodes ↔ P x

section

variable {t : Tree} {kids : NodeId → List NodeId} (h : Represents t kids)

include h

/-- There is one such list. -/
theorem Lists.unique {P : NodeId → Prop} {nodes nodes' : List NodeId} (hn : t.Lists P nodes)
    (hn' : t.Lists P nodes') : nodes = nodes' := by
  have hperm : nodes.Perm nodes' := by
    refine (List.perm_ext_iff_of_nodup hn.nodup hn'.nodup).mpr fun x ↦ ?_
    rw [hn.mem, hn'.mem]
  exact hperm.eq_of_pairwise (fun _ _ _ _ hab hba ↦ absurd hba (h.not_precedes_of_precedes hab))
    hn.ordered hn'.ordered

/-- The nodes below another are those that its loop visits. -/
theorem lists_descendants (root : NodeId) :
    t.Lists (TransGen (t.Leads Node.parent) root) (t.descendants root) where
  ordered := h.pairwise_precedes_descendants root
  nodup := (h.pairwise_precedes_descendants root).imp h.ne_of_precedes
  mem := fun _ ↦ h.mem_descendants

end

theorem Lists.filter {t : Tree} {P : NodeId → Prop} {nodes : List NodeId} (h : t.Lists P nodes)
    (p : NodeId → Bool) : t.Lists (fun x ↦ P x ∧ p x) (nodes.filter p) where
  ordered := h.ordered.filter p
  nodup := h.nodup.filter p
  mem := fun x ↦ by rw [List.mem_filter, h.mem]

/-! ### Matches of a text -/

theorem matchesText_of_error {selector : String} {e : Selector.SyntaxError}
    (he : Selector.parse selector = .error e) (t : Tree) (id : NodeId) :
    t.matchesText id selector = false := by
  rw [matchesText, he]

theorem matchesText_of_ok {selector : String} {s : Selector.Complex}
    (hs : Selector.parse selector = .ok s) (t : Tree) (id : NodeId) :
    t.matchesText id selector = t.matchesSelector id s := by
  rw [matchesText, hs]

/-- All matches are the nodes below that match one by one. -/
theorem queryAll_eq_filter (t : Tree) (root : NodeId) (selector : String) :
    t.queryAll root selector = (t.descendants root).filter fun id ↦ t.matchesText id selector := by
  cases hparse : Selector.parse selector with
  | error e =>
    simp only [matchesText_of_error hparse]
    rw [queryAll, hparse, List.filter_false]
  | ok s =>
    simp only [matchesText_of_ok hparse]
    rw [queryAll, hparse]

theorem query?_eq_find? (t : Tree) (root : NodeId) (selector : String) :
    t.query? root selector = (t.descendants root).find? fun id ↦ t.matchesText id selector := by
  rw [query?, queryAll_eq_filter, List.head?_filter]

/-- A node matches the selector of an id if it is an element with the id. -/
theorem matchesText_idName (t : Tree) (id : NodeId) {name : String} (hname : Selector.IsName name) :
    t.matchesText id ("#" ++ name) = ((t.element? id).bind Element.id == some name) := by
  cases he : t.element? id with
  | some e => exact matchesText_condition (s := .idName name) he hname
  | none =>
    cases hparse : Selector.parse ("#" ++ name) with
    | error e => exact matchesText_of_error hparse t id
    | ok s =>
      rw [matchesText_of_ok hparse, matchesSelector, isElement, he]
      rfl

end Tree

/-! ### Agreement -/

namespace Document

/-- A search in a document refuses what is no selector, and finds the first match otherwise. -/
theorem find_eq_map (d : Document) (selector : String) :
    d.find selector =
      (Selector.parse selector).map fun _ ↦ d.tree.query? Tree.root selector := by
  rw [find, Tree.query?_eq_find?]
  cases hparse : Selector.parse selector with
  | error e => rfl
  | ok s =>
    simp only [Tree.matchesText_of_ok hparse]
    rfl

/-- An element is found by its id as by the selector of the id. -/
theorem elementById?_eq_query? (d : Document) {name : String} (hname : Selector.IsName name) :
    d.elementById? name = d.tree.query? Tree.root ("#" ++ name) := by
  rw [elementById?, Tree.query?_eq_find?]
  simp only [Tree.matchesText_idName _ _ hname]

/-- In every document the matches below a node are the nodes below it that match one by one, in
document order and each once; the first of them is what the other searches find, unless the text is
no selector. -/
theorem lookups_agree {d : Document} (hd : d.Reachable) (selector : String) :
    let t := d.tree
    (∀ root,
      (∀ e, Selector.parse selector = .error e → t.queryAll root selector = []) ∧
      (∀ nodes, nodes = t.queryAll root selector ↔
        t.Lists (fun x ↦ TransGen (t.Leads Node.parent) root x ∧ t.matchesText x selector)
          nodes) ∧
      t.query? root selector = (t.queryAll root selector).head?) ∧
    (∀ e, d.find selector = .error e ↔ Selector.parse selector = .error e) ∧
    (∀ s, Selector.parse selector = .ok s →
      d.find selector = .ok (t.query? Tree.root selector)) ∧
    ∀ name, Selector.IsName name → d.elementById? name = t.query? Tree.root ("#" ++ name) := by
  intro t
  obtain ⟨kids, h⟩ := hd.tree.exists_represents
  refine ⟨fun root ↦ ⟨?_, ?_, rfl⟩, ?_, ?_, fun name hname ↦ d.elementById?_eq_query? hname⟩
  · intro e he
    rw [Tree.queryAll, he]
  · intro nodes
    have hlists := (Tree.lists_descendants h root).filter fun id ↦ t.matchesText id selector
    rw [← Tree.queryAll_eq_filter] at hlists
    constructor
    · rintro rfl
      exact hlists
    · exact fun hnodes ↦ hnodes.unique h hlists
  · intro e
    rw [find_eq_map]
    cases Selector.parse selector <;> simp [Except.map]
  · intro s hs
    rw [find_eq_map, hs]
    rfl

/-- A paragraph is moved below the first one, so the second one goes last. -/
theorem lookups_agree_moved :
    let parsed := (Html.Node.document [.element "div" [] [.element "p" [] [],
      .element "p" [("id", "b")] []], .element "P" [] []]).toDocument blankUrl
    let d : Document := { parsed with tree := parsed.tree.apply (.appendChild 2 4) }
    let t := d.tree
    d.Reachable ∧
      t.Lists (fun x ↦ TransGen (t.Leads Node.parent) Tree.root x ∧ t.matchesText x "p")
        [2, 4, 3] ∧
      Selector.parse "p" = .ok (.compound ⟨[.typeName "p"]⟩) ∧
      d.find "p" = .ok (t.query? Tree.root "p") ∧ t.query? Tree.root "p" = some 2 ∧
      Selector.IsName "b" ∧ d.elementById? "b" = t.query? Tree.root "#b" := by
  intro parsed d t
  have hd : d.Reachable := .edited (.parsed blankUrl _) (.appendChild 2 4)
  have hname : Selector.IsName "b" := ⟨'b', [], rfl, rfl, nofun⟩
  have hparse : Selector.parse "p" = .ok (.compound ⟨[.typeName "p"]⟩) := by decide +kernel
  have hnodes : [2, 4, 3] = t.queryAll Tree.root "p" := by decide +kernel
  obtain ⟨hall, -, hfound, hid⟩ := lookups_agree hd "p"
  obtain ⟨-, hlists, hfirst⟩ := hall Tree.root
  refine ⟨hd, (hlists _).mp hnodes, hparse, hfound _ hparse, ?_, hname, hid "b" hname⟩
  rw [hfirst, ← hnodes]
  rfl

end Document

end StyleCheck.Dom
