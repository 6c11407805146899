import StyleCheck.Proofs.Dom.Order
import StyleCheck.Proofs.Dom.Refinement

/-!
# Outside an appended subtree

A subtree that is put behind the last child of a node stands neither above nor before any node that
was there. Main statement: whichever selector those nodes are held against, they match it as before.
-/

namespace StyleCheck.Dom

open Relation (TransGen ReflTransGen)

namespace Tree

variable {t t' : Tree}

/-! ### The same content -/

theorem SameContent.isElement (h : t.SameContent t') (id : NodeId) :
    t'.isElement id = t.isElement id := by
  rw [Tree.isElement, h.element?, Tree.isElement]

theorem SameContent.attribute? (h : t.SameContent t') (id : NodeId) (name : String) :
    t'.attribute? id name = t.attribute? id name := by
  rw [Tree.attribute?, h.element?, h.1, Tree.attribute?]

/-- What a node meets is a matter of its content alone. -/
theorem SameContent.matchesCompound (h : t.SameContent t') (id : NodeId)
    (c : Selector.Compound) : t'.matchesCompound id c = t.matchesCompound id c := by
  have hmeets : ∀ e, t'.meets id e = t.meets id e := by
    intro e
    funext condition
    cases condition with
    | typeName name => rw [meets, h.1, meets]
    | idName name => rfl
    | className name => rfl
    | attr test => rw [meets, matchesAttribute, h.attribute?, meets, matchesAttribute]
  rw [Tree.matchesCompound, h.element?, Tree.matchesCompound]
  simp only [hmeets]

namespace Represents

variable {kids : NodeId → List NodeId} (h : Represents t kids)

include h

theorem over_of_mem_upward {a id : NodeId} (ha : a ∈ t.upward id) : t.Over a id := by
  have hw := h.walk_upward id
  have hid : id < t.size := by
    cases hu : t.upward id with
    | nil => rw [hu] at ha; cases ha
    | cons x rest =>
      rw [hu] at hw
      cases hw with
      | step hlt _ => exact hlt
  exact (h.mem_upward_iff_over (hw.lt_size ha) hid).mp ha

theorem precedingSibling_of_mem_preceding {a id : NodeId} (ha : a ∈ t.preceding id) :
    t.PrecedingSibling a id :=
  ((h.walk_preceding id).mem_iff.mp ha).2

/-! ### Nodes that are not below the subtree -/

section

variable {p c : NodeId} (hatt : t.Attachable p c) (horphan : t.follow Node.parent c = none)

include hatt horphan

private theorem follow_appendChild {x : NodeId} (hx : c ≠ x) :
    (t.appendChild p c).follow Node.parent x = t.follow Node.parent x ∧
      (t.appendChild p c).follow Node.previous x = t.follow Node.previous x := by
  rw [appendChild_of_attachable hatt, h.detach_of_orphan horphan]
  by_cases hlt : x < t.size
  · rw [follow_parent_link p c hlt, if_neg hx, follow_previous_link p c hlt, if_neg hx]
    exact ⟨rfl, rfl⟩
  · have hlt' : ¬ x < (t.link p c).size := by rwa [size_link]
    simp only [follow_of_not_lt hlt, follow_of_not_lt hlt', and_self]

omit h horphan in
private theorem size_appendChild : (t.appendChild p c).size = t.size := by
  rw [appendChild_of_attachable hatt, size_link, size_detach]

variable {e : NodeId} (he : ¬ t.Over c e)

include he

omit h hatt horphan in
private theorem ne_of_not_over : c ≠ e := by
  rintro rfl
  exact he .refl

/-- The way up does not come to the subtree. -/
private theorem upward_appendChild : (t.appendChild p c).upward e = t.upward e := by
  refine ((h.appendChild hatt).walk_upward e).unique ((h.walk_upward e).congr ?_ ?_)
  · exact size_appendChild hatt
  · intro x hx
    refine (h.follow_appendChild hatt horphan ?_).1
    rintro rfl
    exact he (h.over_of_mem_upward hx)

/-- The way through the preceding siblings does not come to the subtree: its top was no child. -/
private theorem preceding_appendChild :
    (t.appendChild p c).preceding e = t.preceding e := by
  have hstart := (h.follow_appendChild hatt horphan (ne_of_not_over he)).2
  have hw := (h.appendChild hatt).walk_preceding e
  rw [hstart] at hw
  refine hw.unique ((h.walk_preceding e).congr ?_ ?_)
  · exact size_appendChild hatt
  · intro x hx
    refine (h.follow_appendChild hatt horphan ?_).2
    rintro rfl
    obtain ⟨q, hq, -⟩ :=
      h.exists_parent_of_precedingSibling (h.precedingSibling_of_mem_preceding hx)
    cases horphan.symm.trans hq

private theorem leftOf_appendChild (k : Selector.Combinator) :
    (t.appendChild p c).leftOf e k = t.leftOf e k := by
  have hparent := (h.follow_appendChild hatt horphan (ne_of_not_over he)).1
  have hupward := h.upward_appendChild hatt horphan he
  have hpreceding := h.preceding_appendChild hatt horphan he
  have helement : (t.appendChild p c).isElement = t.isElement :=
    funext (sameContent_appendChild t p c).isElement
  cases k with
  | child =>
    have hbind : ((t.appendChild p c).get? e).bind Node.parent = (t.get? e).bind Node.parent :=
      hparent
    simp only [leftOf, parentElement?, hbind, helement]
  | descendant => simp only [leftOf, ancestorElements, hupward, helement]
  | nextSibling => simp only [leftOf, previousElement?, precedingElements, hpreceding, helement]
  | laterSibling => simp only [leftOf, precedingElements, hpreceding, helement]

omit hatt in
/-- What stands to the left of a node outside the subtree is outside too. -/
private theorem not_over_of_mem_leftOf {k : Selector.Combinator} {a : NodeId}
    (ha : a ∈ t.leftOf e k) : ¬ t.Over c a := by
  intro hca
  have habove : ¬ t.Over a e := fun hae ↦ he (hca.trans hae)
  have hbefore : a ∉ t.preceding e := by
    intro hmem
    obtain ⟨q, hqa, hqe⟩ :=
      h.exists_parent_of_precedingSibling (h.precedingSibling_of_mem_preceding hmem)
    rcases hca.cases_tail with rfl | ⟨q', hcq, hqa'⟩
    · cases horphan.symm.trans hqa
    · obtain rfl := Option.some.inj (hqa'.symm.trans hqa)
      exact he (hcq.tail hqe)
  cases k with
  | child =>
    rw [leftOf, Option.mem_toList, parentElement?, Option.filter_eq_some_iff] at ha
    exact habove (.single ha.1)
  | descendant =>
    have hmem := List.mem_of_mem_drop ((List.takeWhile_sublist _).mem ha)
    exact habove (h.over_of_mem_upward hmem)
  | nextSibling =>
    rw [leftOf, Option.mem_toList, previousElement?] at ha
    exact hbefore (List.mem_filter.mp (List.mem_of_head? ha)).1
  | laterSibling => exact hbefore (List.mem_filter.mp ha).1

/-- The search from the right goes the same ways. -/
private theorem matchesLinks_appendChild (links : List Selector.Link) :
    (t.appendChild p c).matchesLinks links e = t.matchesLinks links e := by
  induction links generalizing e with
  | nil => rfl
  | cons link rest ih =>
    rw [matchesLinks, matchesLinks, (sameContent_appendChild t p c).matchesCompound]
    congr 1
    cases link.combinator with
    | none => rfl
    | some k =>
      simp only [h.leftOf_appendChild hatt horphan he]
      rw [Bool.eq_iff_iff, List.any_eq_true, List.any_eq_true]
      refine exists_congr fun a ↦ and_congr_right fun ha ↦ ?_
      rw [ih (h.not_over_of_mem_leftOf horphan he ha)]

end

end Represents

/-- A node without parent is put behind the last child of any node, with all that is below it. Every
other node then matches the selectors that it matched before, and no others. -/
theorem matchesSelector_appendChild (edits : List Edit) (p : NodeId) {c e : NodeId}
    (horphan : (ofEdits edits).follow Node.parent c = none) (he : ¬ (ofEdits edits).Over c e)
    (s : Selector.Complex) :
    ((ofEdits edits).appendChild p c).matchesSelector e s =
      (ofEdits edits).matchesSelector e s := by
  obtain ⟨kids, h⟩ := exists_represents edits
  by_cases hatt : (ofEdits edits).Attachable p c
  · rw [matchesSelector, (sameContent_appendChild _ p c).isElement,
      h.matchesLinks_appendChild hatt horphan he, matchesSelector]
  · rw [appendChild_of_not_attachable hatt]

/-- A second item is put into a list: the `i` in it comes to match, and the `b` in the first item
goes on matching what it did. -/
theorem matchesSelector_appendChild_item :
    let edits : List Edit := [.addElement "ul", .addElement "li", .addElement "b",
      .addElement "li", .addElement "i", .appendChild 0 1, .appendChild 1 2, .appendChild 2 3,
      .appendChild 4 5]
    let t := ofEdits edits
    let t' := t.appendChild 1 4
    (t.follow Node.parent 4 = none ∧ ¬ t.Over 4 3) ∧ t'.children 1 = [2, 4] ∧
      t.matchesText 5 "ul > li + li i" = false ∧ t'.matchesText 5 "ul > li + li i" = true ∧
      t.matchesText 3 "ul > li b" = true ∧
      ∀ s, t'.matchesSelector 3 s = t.matchesSelector 3 s := by
  intro edits t t'
  obtain ⟨kids, h⟩ := exists_represents edits
  have horphan : t.follow Node.parent 4 = none := by decide +kernel
  have hbeside : ¬ t.Over 4 3 := by
    rw [← h.mem_upward_iff_over (by decide +kernel) (by decide +kernel)]
    decide +kernel
  exact ⟨⟨horphan, hbeside⟩, by decide +kernel, by decide +kernel, by decide +kernel,
    by decide +kernel, matchesSelector_appendChild edits 1 horphan hbeside⟩

end Tree

end StyleCheck.Dom
