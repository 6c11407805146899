import StyleCheck.Proofs.Dom.Content
import StyleCheck.Proofs.Dom.Traversal

/-!
# Edits of an ordered forest

What appending and detaching mean for the children of every node: one node is taken out of one list
and perhaps put at the end of another, and nothing else changes. Main statement: the two edits do
this to every tree that edits lead to, whatever the ids.
-/

namespace StyleCheck.Dom

open Relation (TransGen ReflTransGen)

namespace Tree

/-! ### Appending and detaching -/

/-- A tree becomes another one as a node is moved behind the last child of `p`. -/
structure Appends (t t' : Tree) (p c : NodeId) : Prop where
  parent : t'.follow Node.parent c = some p
  /-- The node goes last, also if it was a child of the same parent before. -/
  children : t'.children p = (t.children p).filter (· != c) ++ [c]
  former : ∀ q, t.follow Node.parent c = some q → q ≠ p →
    t'.children q = (t.children q).filter (· != c)
  elsewhere : ∀ q, t.follow Node.parent c ≠ some q → q ≠ p → t'.children q = t.children q
  content : t.SameContent t'

/-- A tree becomes another one as a node is taken out with all that is below it. -/
structure Detaches (t t' : Tree) (n : NodeId) : Prop where
  parent : t'.follow Node.parent n = none
  former : ∀ q, t.follow Node.parent n = some q → t'.children q = (t.children q).filter (· != n)
  own : t'.children n = t.children n
  elsewhere : ∀ q, t.follow Node.parent n ≠ some q → t'.children q = t.children q
  content : t.SameContent t'

namespace Represents

variable {t : Tree} {kids : NodeId → List NodeId} (h : Represents t kids)

include h

theorem erase_eq_filter (q n : NodeId) : (kids q).erase n = (t.children q).filter (· != n) := by
  rw [h.children_eq, (h.nodup q).erase_eq_filter]

theorem erase_of_parent_ne {q n : NodeId} (hq : t.follow Node.parent n ≠ some q) :
    (kids q).erase n = t.children q := by
  rw [h.children_eq, List.erase_of_not_mem (mt h.mem_iff.mp hq)]

/-- What stands above a node, or is the node, is what the walk upwards meets. -/
theorem mem_upward_iff_over {a id : NodeId} (ha : a < t.size) (hid : id < t.size) :
    a ∈ t.upward id ↔ t.Over a id := by
  rw [h.mem_upward hid, Over, Relation.reflTransGen_iff_eq_or_transGen, and_iff_right ha, eq_comm]

theorem attachable_iff {p c : NodeId} :
    t.Attachable p c ↔ p < t.size ∧ c < t.size ∧ ¬ t.Over c p := by
  constructor
  · rintro ⟨hp, hc, hup⟩
    exact ⟨hp, hc, mt (h.mem_upward_iff_over hc hp).mpr hup⟩
  · rintro ⟨hp, hc, hup⟩
    exact ⟨hp, hc, mt (h.mem_upward_iff_over hc hp).mp hup⟩

theorem appends {p c : NodeId} (hatt : t.Attachable p c) :
    t.Appends (t.appendChild p c) p c := by
  have h' := h.appendChild hatt
  have hp : (t.appendChild p c).children p = (kids p).erase c ++ [c] := by
    rw [h'.children_eq, if_pos rfl]
  have hq : ∀ q, q ≠ p → (t.appendChild p c).children q = (kids q).erase c := by
    intro q hne
    rw [h'.children_eq, if_neg hne]
  constructor
  · rw [← h'.mem_children, hp]
    exact List.mem_append_right _ (List.mem_singleton_self c)
  · rw [hp, h.erase_eq_filter]
  · intro q _ hne
    rw [hq q hne, h.erase_eq_filter]
  · intro q hparent hne
    rw [hq q hne, h.erase_of_parent_ne hparent]
  · exact sameContent_appendChild t p c

theorem detaches (n : NodeId) : t.Detaches (t.detach n) n := by
  have hq : ∀ q, (t.detach n).children q = (kids q).erase n := (h.detach n).children_eq
  constructor
  · rw [follow_parent_detach, if_pos rfl]
  · intro q _
    rw [hq, h.erase_eq_filter]
  · rw [hq, h.erase_of_parent_ne]
    exact fun hself ↦ h.not_transGen_self n (.single hself)
  · intro q hparent
    rw [hq, h.erase_of_parent_ne hparent]
  · exact sameContent_detach t n

omit h in
private theorem eq_of_get? {t' : Tree} (hnames : t'.names = t.names)
    (hget : ∀ id, t'.get? id = t.get? id) : t' = t := by
  have hnodes : t'.nodes = t.nodes := Array.ext_getElem? hget
  cases t
  cases t'
  congr

/-- There is nothing to take a node without parent out of. -/
theorem detach_of_orphan {n : NodeId} (hn : t.follow Node.parent n = none) : t.detach n = t := by
  obtain ⟨hprevious, hnext⟩ := h.orphan n hn
  apply eq_of_get? (sameContent_detach t n).1
  intro j
  rw [get?_detach, hn, hprevious, hnext]
  by_cases hj : n = j
  · subst hj
    cases hget : t.get? n with
    | none => rfl
    | some m =>
      rw [follow_of_get? hget] at hn hprevious hnext
      obtain ⟨parent, first, last, previous, next, content⟩ := m
      simp only at hn hprevious hnext
      subst hn hprevious hnext
      simp
  · simp [hj]

end Represents

/-- Appending a node moves it behind the children of its new parent, and detaching one takes it out
of those of its parent; the order of other children, the children of other nodes and what the nodes
hold stay as they are. Nothing changes where a node is missing, where a node would come to stand
below itself, and where there is no parent to be detached from. -/
theorem edits_ofEdits (edits : List Edit) :
    let t := ofEdits edits
    (∀ p c, t.size ≤ p ∨ t.size ≤ c ∨ t.Over c p → t.appendChild p c = t) ∧
      (∀ p c, p < t.size → c < t.size → ¬ t.Over c p → t.Appends (t.appendChild p c) p c) ∧
      (∀ n, n < t.size → t.Detaches (t.detach n) n) ∧
      ∀ n, t.size ≤ n ∨ t.follow Node.parent n = none → t.detach n = t := by
  intro t
  obtain ⟨kids, h⟩ := exists_represents edits
  refine ⟨?_, ?_, ?_, ?_⟩
  · intro p c hrefused
    apply appendChild_of_not_attachable
    rw [h.attachable_iff]
    rintro ⟨hp, hc, hover⟩
    rcases hrefused with hp' | hc' | hover'
    · exact absurd hp (Nat.not_lt.mpr hp')
    · exact absurd hc (Nat.not_lt.mpr hc')
    · exact hover hover'
  · intro p c hp hc hover
    exact h.appends (h.attachable_iff.mpr ⟨hp, hc, hover⟩)
  · exact fun n _ ↦ h.detaches n
  · intro n hn
    apply h.detach_of_orphan
    rcases hn with hmissing | horphan
    · exact follow_of_not_lt (Nat.not_lt.mpr hmissing)
    · exact horphan

/-- The second of three items goes last in its list, the first is taken out of it, and the list does
not go into one of its items. -/
theorem edits_of_items :
    let edits : List Edit := [.addElement "ul", .addElement "li", .addElement "li",
      .addElement "li", .appendChild 0 1, .appendChild 1 2, .appendChild 1 3, .appendChild 1 4]
    let t := ofEdits edits
    t.children 1 = [2, 3, 4] ∧
      (t.Appends (t.appendChild 1 3) 1 3 ∧ (t.appendChild 1 3).children 1 = [2, 4, 3]) ∧
      (t.Detaches (t.detach 2) 2 ∧ (t.detach 2).children 1 = [3, 4]) ∧
      t.appendChild 3 1 = t ∧ t.detach 0 = t := by
  intro edits t
  obtain ⟨kids, h⟩ := exists_represents edits
  obtain ⟨hrefused, happends, hdetaches, hnothing⟩ := edits_ofEdits edits
  have hbeside : ¬ t.Over 3 1 := by
    rw [← h.mem_upward_iff_over (by decide +kernel) (by decide +kernel)]
    decide +kernel
  have habove : t.Over 1 3 := by
    rw [← h.mem_upward_iff_over (by decide +kernel) (by decide +kernel)]
    decide +kernel
  have happend : t.Appends (t.appendChild 1 3) 1 3 :=
    happends 1 3 (by decide +kernel) (by decide +kernel) hbeside
  have hdetach : t.Detaches (t.detach 2) 2 := hdetaches 2 (by decide +kernel)
  have hitems : t.children 1 = [2, 3, 4] := by decide +kernel
  refine ⟨hitems, ⟨happend, ?_⟩, ⟨hdetach, ?_⟩, hrefused 3 1 (.inr (.inr habove)),
    hnothing 0 (.inr (by decide +kernel))⟩
  · rw [happend.children, hitems]
    rfl
  · rw [hdetach.former 1 (by decide +kernel), hitems]
    rfl

end Tree

end StyleCheck.Dom
