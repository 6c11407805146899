import Mathlib.Logic.Relation
import StyleCheck.Dom.Tree

/-!
# Walks

The nodes that one link leads to, one after the other. A walk that comes to an end visits no node
twice, so the bound of `Tree.along` does not cut it short.
-/

namespace StyleCheck.Dom

open Relation (TransGen)

namespace Tree

/-- Where a link of a node leads. -/
def follow (t : Tree) (link : Node → Option NodeId) (id : NodeId) : Option NodeId :=
  (t.get? id).bind link

/-- A link of the second node leads to the first. -/
def Leads (t : Tree) (link : Node → Option NodeId) (a b : NodeId) : Prop :=
  t.follow link b = some a

theorem lt_size_of_get? {t : Tree} {id : NodeId} {node : Node} (h : t.get? id = some node) :
    id < t.size :=
  (Array.getElem?_eq_some_iff.mp h).1

theorem get?_of_size_le {t : Tree} {id : NodeId} (h : t.size ≤ id) : t.get? id = none :=
  Array.getElem?_eq_none h

theorem exists_get? {t : Tree} {id : NodeId} (h : id < t.size) :
    ∃ node, t.get? id = some node :=
  ⟨t.nodes[id], Array.getElem?_eq_getElem h⟩

theorem lt_size_of_follow {t : Tree} {link : Node → Option NodeId} {a b : NodeId}
    (h : t.follow link a = some b) : a < t.size := by
  obtain ⟨node, hn, -⟩ := Option.bind_eq_some_iff.mp h
  exact lt_size_of_get? hn

theorem follow_of_get? {t : Tree} {link : Node → Option NodeId} {id : NodeId} {node : Node}
    (h : t.get? id = some node) : t.follow link id = link node := by
  rw [follow, h, Option.bind_some]

theorem lt_size_of_transGen {t : Tree} {link : Node → Option NodeId} {a b : NodeId}
    (h : TransGen (t.Leads link) a b) : b < t.size := by
  cases h with
  | single h => exact lt_size_of_follow h
  | tail _ h => exact lt_size_of_follow h

theorem follow_of_not_lt {t : Tree} {link : Node → Option NodeId} {id : NodeId}
    (h : ¬ id < t.size) : t.follow link id = none := by
  rw [follow, get?_of_size_le (Nat.le_of_not_lt h), Option.bind_none]

/-- The nodes that a loop visits which starts at a place, follows a link and stops where there is
no node. -/
inductive Walk (t : Tree) (link : Node → Option NodeId) : Option NodeId → List NodeId → Prop
  | done : Walk t link none []
  | missing {id : NodeId} (h : ¬ id < t.size) : Walk t link (some id) []
  | step {id : NodeId} {l : List NodeId} (h : id < t.size)
      (more : Walk t link (t.follow link id) l) : Walk t link (some id) (id :: l)

namespace Walk

variable {t : Tree} {link : Node → Option NodeId} {start : Option NodeId} {l : List NodeId}

/-- A loop visits the same nodes each time. -/
theorem unique {l' : List NodeId} (h : Walk t link start l) (h' : Walk t link start l') :
    l = l' := by
  induction h generalizing l' with
  | done =>
    cases h'
    rfl
  | missing h =>
    cases h' with
    | missing => rfl
    | step hlt => exact absurd hlt h
  | step hlt more ih =>
    cases h' with
    | missing h => exact absurd hlt h
    | step _ more' => rw [ih more']

theorem lt_size (h : Walk t link start l) {id : NodeId} (hm : id ∈ l) : id < t.size := by
  induction h with
  | done => cases hm
  | missing => cases hm
  | step hlt _ ih =>
    rcases List.mem_cons.mp hm with rfl | hm
    · exact hlt
    · exact ih hm

/-- From a visited node the loop goes on with a part of the same walk. -/
theorem of_mem (h : Walk t link start l) {id : NodeId} (hm : id ∈ l) :
    ∃ before after, l = before ++ id :: after ∧ Walk t link (some id) (id :: after) := by
  induction h with
  | done => cases hm
  | missing => cases hm
  | @step x rest hlt more ih =>
    rcases List.mem_cons.mp hm with rfl | hm
    · exact ⟨[], rest, rfl, .step hlt more⟩
    · obtain ⟨before, after, rfl, hw⟩ := ih hm
      exact ⟨x :: before, after, rfl, hw⟩

/-- What the loop has left behind does not come again: otherwise it would go on for ever. -/
theorem not_mem_rest {id : NodeId} (h : Walk t link (some id) (id :: l)) : id ∉ l := by
  intro hm
  cases h with
  | step hlt more =>
    obtain ⟨before, after, rfl, hw⟩ := more.of_mem hm
    have heq := congrArg List.length (hw.unique (.step hlt more))
    simp only [List.length_cons, List.length_append] at heq
    omega

/-- No node is visited twice. -/
theorem nodup (h : Walk t link start l) : l.Nodup := by
  induction h with
  | done => exact List.nodup_nil
  | missing => exact List.nodup_nil
  | step hlt more ih => exact List.nodup_cons.mpr ⟨(step hlt more).not_mem_rest, ih⟩

theorem length_le_size (h : Walk t link start l) : l.length ≤ t.size := by
  have hsub : l ⊆ List.range t.size := fun _ hm ↦ List.mem_range.mpr (h.lt_size hm)
  simpa using h.nodup.length_le_of_subset hsub

private theorem along_eq_of_length_le (h : Walk t link start l) {bound : Nat}
    (hb : l.length ≤ bound) : t.along link bound start = l := by
  induction h generalizing bound with
  | done => cases bound <;> rfl
  | missing h =>
    cases bound with
    | zero => rfl
    | succ bound => rw [along, get?_of_size_le (Nat.le_of_not_lt h)]
  | @step id rest hlt more ih =>
    cases bound with
    | zero => cases hb
    | succ bound =>
      obtain ⟨node, hn⟩ := exists_get? hlt
      rw [follow_of_get? hn] at ih
      simp only [along, hn]
      rw [ih (Nat.le_of_succ_le_succ hb)]

/-- From a node with no endless chain of links the loop comes to an end. -/
theorem exists_of_acc {id : NodeId} (h : Acc (t.Leads link) id) : ∃ l, Walk t link (some id) l := by
  induction h with
  | intro id _ ih =>
    by_cases hlt : id < t.size
    · cases hf : t.follow link id with
      | none => exact ⟨[id], .step hlt (hf ▸ .done)⟩
      | some next =>
        obtain ⟨l, hl⟩ := ih next hf
        exact ⟨id :: l, .step hlt (hf ▸ hl)⟩
    · exact ⟨[], .missing hlt⟩

/-- The loop visits the same nodes of a tree in which their links lead to the same places. -/
theorem congr {t' : Tree} (h : Walk t link start l) (hsize : t'.size = t.size)
    (hlink : ∀ id ∈ l, t'.follow link id = t.follow link id) : Walk t' link start l := by
  induction h with
  | done => exact .done
  | missing hn => exact .missing (hsize ▸ hn)
  | @step id rest hlt more ih =>
    refine .step (hsize ▸ hlt) ?_
    rw [hlink id List.mem_cons_self]
    exact ih fun x hx ↦ hlink x (List.mem_cons_of_mem id hx)

/-- The bounded chain of a walk that ends is the walk. -/
theorem along_eq (h : Walk t link start l) : t.along link t.size start = l :=
  along_eq_of_length_le h h.length_le_size

/-- The nodes visited from a node's link on are those that repeated links lead to. -/
theorem mem_iff {a b : NodeId} (h : Walk t link (t.follow link b) l) :
    a ∈ l ↔ a < t.size ∧ TransGen (t.Leads link) a b := by
  constructor
  · intro hm
    refine ⟨h.lt_size hm, ?_⟩
    generalize hs : t.follow link b = start at h
    induction h generalizing b with
    | done => cases hm
    | missing => cases hm
    | @step c rest hlt more ih =>
      rcases List.mem_cons.mp hm with rfl | hm
      · exact .single hs
      · exact .tail (ih hm rfl) hs
  · rintro ⟨ha, hlead⟩
    induction hlead generalizing l with
    | single hab =>
      rw [hab] at h
      cases h with
      | missing hn => exact absurd ha hn
      | step => exact List.mem_cons_self
    | @tail c b hac hcb ih =>
      rw [hcb] at h
      cases h with
      | missing hn => exact absurd (lt_size_of_transGen hac) hn
      | step _ more => exact List.mem_cons_of_mem c (ih more)

/-- Where every walk ends, no node leads to itself. -/
theorem not_transGen_self {id : NodeId} (h : Walk t link (some id) l) :
    ¬ TransGen (t.Leads link) id id := by
  intro hlead
  have hlt := lt_size_of_transGen hlead
  cases h with
  | missing hn => exact absurd hlt hn
  | step _ more => exact (step hlt more).not_mem_rest (more.mem_iff.mpr ⟨hlt, hlead⟩)

end Walk

end Tree

end StyleCheck.Dom
