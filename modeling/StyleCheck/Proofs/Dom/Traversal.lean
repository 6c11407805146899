import StyleCheck.Proofs.Dom.Forest

/-!
# Traversal

The loops over children, siblings and descendants of a tree that stands for lists of children. Each
comes to an end and visits what the lists say. Main statement: whatever the edits, the links of a
tree are those of an ordered forest.
-/

namespace StyleCheck.Dom

open Relation (TransGen ReflTransGen)

namespace Tree

/-- The first node is the second one or stands above it. -/
abbrev Over (t : Tree) : NodeId → NodeId → Prop := ReflTransGen (t.Leads Node.parent)

/-- No node has both of two others above it, or is one of them. -/
def Apart (t : Tree) (a b : NodeId) : Prop := ∀ x, t.Over a x → ¬ t.Over b x

/-- The nodes that a loop reads off a stack which replaces each by its children, until none is
left. -/
inductive Drained (t : Tree) : List NodeId → List NodeId → Prop
  | done : Drained t [] []
  | step {id : NodeId} {stack out : List NodeId} (more : Drained t (t.children id ++ stack) out) :
      Drained t (id :: stack) (id :: out)

namespace Drained

variable {t : Tree} {stack out : List NodeId}

/-- A stack is emptied from the top, whatever lies below. -/
theorem append {stack' out' : List NodeId} (h : Drained t stack out)
    (h' : Drained t stack' out') : Drained t (stack ++ stack') (out ++ out') := by
  induction h with
  | done => exact h'
  | step _ ih =>
    rw [List.append_assoc] at ih
    exact .step ih

/-- The loop over a stack comes to an end if the loop over each node of it does. -/
theorem exists_of_forall {stack : List NodeId} (h : ∀ id ∈ stack, ∃ out, Drained t [id] out) :
    ∃ out, Drained t stack out := by
  induction stack with
  | nil => exact ⟨[], .done⟩
  | cons id rest ih =>
    obtain ⟨out, ho⟩ := h id List.mem_cons_self
    obtain ⟨out', ho'⟩ := ih fun x hx ↦ h x (List.mem_cons_of_mem id hx)
    exact ⟨out ++ out', ho.append ho'⟩

/-- The bounded loop is the whole loop, if the bound is no less than the number of its steps. -/
theorem drain_eq (h : Drained t stack out) {bound : Nat} (hb : out.length ≤ bound) :
    t.drain bound stack = out := by
  induction h generalizing bound with
  | done => cases bound <;> rfl
  | step _ ih =>
    cases bound with
    | zero => cases hb
    | succ bound => rw [drain, ih (Nat.le_of_succ_le_succ hb)]

end Drained

namespace Represents

variable {t : Tree} {kids : NodeId → List NodeId} (h : Represents t kids)

include h

/-! ### Children and siblings -/

private theorem walk_next {p : NodeId} (done rest : List NodeId) (hk : kids p = done ++ rest) :
    Walk t Node.next rest.head? rest := by
  induction rest generalizing done with
  | nil => exact .done
  | cons c rest ih =>
    have hc : (kids p)[done.length]? = some c := by simp [hk]
    have hnext : t.follow Node.next c = rest.head? := by
      rw [h.next p _ c hc, hk, List.getElem?_append_right (Nat.le_add_right _ 1),
        Nat.add_sub_cancel_left, List.getElem?_cons_succ, List.head?_eq_getElem?]
    refine .step (h.lt_size (List.mem_of_getElem? hc)) ?_
    rw [hnext]
    exact ih (done ++ [c]) (by simp [hk])

private theorem walk_kids (p : NodeId) :
    Walk t Node.next (t.follow Node.firstChild p) (kids p) := by
  rw [h.first, ← List.head?_eq_getElem?]
  exact h.walk_next [] (kids p) rfl

theorem children_eq (p : NodeId) : t.children p = kids p := (h.walk_kids p).along_eq

/-- The chain from the first child on is walked to its end. -/
theorem walk_children (p : NodeId) :
    Walk t Node.next (t.follow Node.firstChild p) (t.children p) := by
  rw [h.children_eq]
  exact h.walk_kids p

theorem mem_children {p c : NodeId} : c ∈ t.children p ↔ t.follow Node.parent c = some p := by
  rw [h.children_eq, h.mem_iff]

private theorem walk_previous {p : NodeId} (i : Nat) {c : NodeId} (hc : (kids p)[i]? = some c) :
    ∃ l, Walk t Node.previous (before (kids p) i) l := by
  induction i generalizing c with
  | zero => exact ⟨[], .done⟩
  | succ i ih =>
    have hlt : i < (kids p).length := by
      have := (List.getElem?_eq_some_iff.mp hc).1
      omega
    have hb : (kids p)[i]? = some (kids p)[i] := List.getElem?_eq_getElem hlt
    obtain ⟨l, hl⟩ := ih hb
    refine ⟨(kids p)[i] :: l, ?_⟩
    rw [before, hb]
    refine .step (h.lt_size (List.getElem_mem hlt)) ?_
    rw [h.previous p i _ hb]
    exact hl

/-- The chain of preceding siblings is walked to its end. -/
theorem walk_preceding (id : NodeId) :
    Walk t Node.previous (t.follow Node.previous id) (t.preceding id) := by
  obtain ⟨l, hl⟩ : ∃ l, Walk t Node.previous (t.follow Node.previous id) l := by
    cases hp : t.follow Node.parent id with
    | none => exact ⟨[], by rw [(h.orphan id hp).1]; exact .done⟩
    | some p =>
      obtain ⟨i, hi⟩ := h.exists_index hp
      rw [h.previous p i id hi]
      exact h.walk_previous i hi
  have heq : t.preceding id = l := hl.along_eq
  rw [heq]
  exact hl

/-! ### Descendants -/

theorem not_transGen_self (id : NodeId) : ¬ TransGen (t.Leads Node.parent) id id :=
  (h.walk_upward id).not_transGen_self

/-- A child has one more node above it than its parent. -/
private theorem length_upward {p c : NodeId} (hc : c ∈ t.children p) :
    (t.upward c).length = (t.upward p).length + 1 := by
  have hparent := h.mem_children.mp hc
  have hw : Walk t Node.parent (some c) (c :: t.upward p) :=
    .step (lt_size_of_follow hparent) (hparent ▸ h.walk_upward p)
  rw [(h.walk_upward c).unique hw, List.length_cons]

/-- The loop over one node comes to an end: below it, more nodes stand above, and no more than
there are. -/
private theorem exists_drained_singleton (n : Nat) (id : NodeId)
    (hn : t.size - (t.upward id).length ≤ n) : ∃ out, Drained t [id] out := by
  induction n generalizing id with
  | zero =>
    have hnone : t.children id = [] := by
      refine List.eq_nil_iff_forall_not_mem.mpr fun c hc ↦ ?_
      have hlen := h.length_upward hc
      have hle := (h.walk_upward c).length_le_size
      omega
    exact ⟨[id], .step (by rw [hnone]; exact .done)⟩
  | succ n ih =>
    have hbelow : ∀ c ∈ t.children id, t.size - (t.upward c).length ≤ n := by
      intro c hc
      rw [h.length_upward hc]
      omega
    obtain ⟨out, ho⟩ := Drained.exists_of_forall fun c hc ↦ ih c (hbelow c hc)
    exact ⟨id :: out, .step (by rwa [List.append_nil])⟩

/-- The loop over a stack comes to an end. -/
theorem exists_drained (stack : List NodeId) : ∃ out, Drained t stack out :=
  Drained.exists_of_forall fun id _ ↦ h.exists_drained_singleton _ id (Nat.le_refl _)

/-- The loop over a stack visits the nodes of the stack and those below them. -/
theorem mem_drained {stack out : List NodeId} (hd : Drained t stack out) {x : NodeId} :
    x ∈ out ↔ ∃ id ∈ stack, t.Over id x := by
  induction hd with
  | done => simp
  | @step id stack out _ ih =>
    rw [List.mem_cons, ih]
    constructor
    · rintro (rfl | ⟨y, hy, hyx⟩)
      · exact ⟨x, List.mem_cons_self, .refl⟩
      · rcases List.mem_append.mp hy with hy | hy
        · exact ⟨id, List.mem_cons_self, .head (h.mem_children.mp hy) hyx⟩
        · exact ⟨y, List.mem_cons_of_mem id hy, hyx⟩
    · rintro ⟨y, hy, hyx⟩
      rcases List.mem_cons.mp hy with rfl | hy
      · rcases hyx.cases_head with rfl | ⟨c, hc, hcx⟩
        · exact .inl rfl
        · exact .inr ⟨c, List.mem_append_left _ (h.mem_children.mpr hc), hcx⟩
      · exact .inr ⟨y, List.mem_append_right _ hy, hyx⟩

omit h in
/-- Of two nodes above a third, one is above the other. -/
theorem over_total {a b x : NodeId} (ha : t.Over a x)
    (hb : t.Over b x) :
    t.Over a b ∨ t.Over b a := by
  have hunique : Relator.RightUnique (Function.swap (t.Leads Node.parent)) :=
    fun _ _ _ hy hz ↦ Option.some.inj (hy.symm.trans hz)
  have htotal := ReflTransGen.total_of_right_unique hunique (Relation.reflTransGen_swap.mpr ha)
    (Relation.reflTransGen_swap.mpr hb)
  exact htotal.symm.imp Relation.reflTransGen_swap.mp Relation.reflTransGen_swap.mp

/-- No child of a node stands above another one. -/
private theorem eq_of_over {p a b : NodeId} (ha : a ∈ t.children p) (hb : b ∈ t.children p)
    (hab : t.Over a b) : a = b := by
  rcases hab.cases_tail with rfl | ⟨q, haq, hqb⟩
  · rfl
  · obtain rfl : q = p := Option.some.inj (hqb.symm.trans (h.mem_children.mp hb))
    exact absurd (.head' (h.mem_children.mp ha) haq) (h.not_transGen_self q)

/-- No node has two children of one parent above it. -/
theorem eq_of_over_both {p a b x : NodeId} (ha : a ∈ t.children p)
    (hb : b ∈ t.children p) (hax : t.Over a x)
    (hbx : t.Over b x) : a = b := by
  rcases over_total hax hbx with hab | hba
  · exact h.eq_of_over ha hb hab
  · exact (h.eq_of_over hb ha hba).symm

theorem pairwise_apart_children (p : NodeId) : (t.children p).Pairwise t.Apart :=
  (h.walk_children p).nodup.imp_of_mem fun ha hb hne _ hax hbx ↦
    hne (h.eq_of_over_both ha hb hax hbx)

/-- The loop over a stack of separate subtrees visits no node twice. -/
theorem nodup_drained {stack out : List NodeId} (hd : Drained t stack out)
    (hapart : stack.Pairwise t.Apart) : out.Nodup := by
  induction hd with
  | done => exact List.nodup_nil
  | @step id stack out more ih =>
    obtain ⟨hid, hstack⟩ := List.pairwise_cons.mp hapart
    have hchildren := h.pairwise_apart_children id
    refine List.nodup_cons.mpr ⟨?_, ih (List.pairwise_append.mpr ⟨hchildren, hstack, ?_⟩)⟩
    · rw [h.mem_drained more]
      rintro ⟨y, hy, hyid⟩
      rcases List.mem_append.mp hy with hy | hy
      · exact h.not_transGen_self id (.head' (h.mem_children.mp hy) hyid)
      · exact hid y hy id .refl hyid
    · intro c hc y hy x hcx
      exact hid y hy x (.head (h.mem_children.mp hc) hcx)

/-- The bounded loop over the nodes below another is the whole loop. -/
theorem drained_descendants (id : NodeId) : Drained t (t.children id) (t.descendants id) := by
  obtain ⟨out, ho⟩ := h.exists_drained (t.children id)
  have hlt : out ⊆ List.range t.size := by
    intro x hx
    obtain ⟨c, hc, hcx⟩ := (h.mem_drained ho).mp hx
    exact List.mem_range.mpr (lt_size_of_transGen (.head' (h.mem_children.mp hc) hcx))
  have hlen : out.length ≤ t.size := by
    simpa using (h.nodup_drained ho (h.pairwise_apart_children id)).length_le_of_subset hlt
  rw [descendants, ho.drain_eq hlen]
  exact ho

end Represents

/-! ### Well-formed trees -/

/-- The links of a tree are those of an ordered forest, and the loops along them come to an end. -/
structure WellFormed (t : Tree) : Prop where
  /-- Links lead to nodes of the tree. -/
  inside : ∀ link ∈ links, ∀ a b, t.follow link a = some b → b < t.size
  next_iff_previous : ∀ a b, t.follow Node.next a = some b ↔ t.follow Node.previous b = some a
  /-- Neighbours have one parent. -/
  sibling : ∀ a b, t.follow Node.next a = some b →
    ∃ p, t.follow Node.parent a = some p ∧ t.follow Node.parent b = some p
  first_eq_none_iff : ∀ p, t.follow Node.firstChild p = none ↔ t.follow Node.lastChild p = none
  first_iff : ∀ p c, t.follow Node.firstChild p = some c ↔
    t.follow Node.parent c = some p ∧ t.follow Node.previous c = none
  last_iff : ∀ p c, t.follow Node.lastChild p = some c ↔
    t.follow Node.parent c = some p ∧ t.follow Node.next c = none
  orphan : ∀ c, t.follow Node.parent c = none →
    t.follow Node.previous c = none ∧ t.follow Node.next c = none
  /-- The chain from the first child on has each child once. -/
  children : ∀ p, Walk t Node.next (t.follow Node.firstChild p) (t.children p) ∧
    (t.children p).Nodup ∧ ∀ c, c ∈ t.children p ↔ t.follow Node.parent c = some p
  acyclic : ∀ id, ¬ TransGen (t.Leads Node.parent) id id
  /-- The loop upwards ends, whichever node it looks for. -/
  upward : ∀ id, Walk t Node.parent (some id) (t.upward id)
  /-- The loop over the preceding siblings ends, whether it meets an element or not. -/
  preceding : ∀ id, Walk t Node.previous (t.follow Node.previous id) (t.preceding id)
  /-- The loop over the nodes below another ends. -/
  descendants : ∀ id, Drained t (t.children id) (t.descendants id)

namespace Represents

variable {t : Tree} {kids : NodeId → List NodeId} (h : Represents t kids)

include h

private theorem first_iff {p c : NodeId} : t.follow Node.firstChild p = some c ↔
    t.follow Node.parent c = some p ∧ t.follow Node.previous c = none := by
  rw [h.first]
  constructor
  · intro hc
    exact ⟨h.parent p 0 c hc, h.previous p 0 c hc⟩
  · rintro ⟨hp, hnone⟩
    obtain ⟨i, hi⟩ := h.exists_index hp
    cases i with
    | zero => exact hi
    | succ i =>
      rw [h.previous p _ c hi, before, List.getElem?_eq_none_iff] at hnone
      have := (List.getElem?_eq_some_iff.mp hi).1
      omega

private theorem last_iff {p c : NodeId} : t.follow Node.lastChild p = some c ↔
    t.follow Node.parent c = some p ∧ t.follow Node.next c = none := by
  rw [h.last, List.getLast?_eq_getElem?]
  constructor
  · intro hc
    refine ⟨h.parent p _ c hc, ?_⟩
    rw [h.next p _ c hc, List.getElem?_eq_none_iff]
    omega
  · rintro ⟨hp, hnone⟩
    obtain ⟨i, hi⟩ := h.exists_index hp
    rw [h.next p i c hi, List.getElem?_eq_none_iff] at hnone
    have hlt := (List.getElem?_eq_some_iff.mp hi).1
    rwa [show (kids p).length - 1 = i by omega]

private theorem inside {link : Node → Option NodeId} (hl : link ∈ links) {a b : NodeId}
    (hab : t.follow link a = some b) : b < t.size := by
  simp only [links, List.mem_cons, List.not_mem_nil, or_false] at hl
  rcases hl with rfl | rfl | rfl | rfl | rfl
  · exact h.lt_size_of_mem (h.listed b a hab)
  · exact lt_size_of_follow (h.first_iff.mp hab).1
  · exact lt_size_of_follow (h.last_iff.mp hab).1
  · exact lt_size_of_follow (h.next_eq_some_iff.mpr hab)
  · exact lt_size_of_follow (h.next_eq_some_iff.mp hab)

/-- A tree that stands for lists of children is well-formed. -/
theorem wellFormed : WellFormed t where
  inside := fun _ hl _ _ ↦ h.inside hl
  next_iff_previous := fun _ _ ↦ h.next_eq_some_iff
  sibling := by
    intro a b hab
    obtain ⟨p, i, ha, hb⟩ := h.exists_index_of_next hab
    exact ⟨p, h.parent p i a ha, h.parent p (i + 1) b hb⟩
  first_eq_none_iff := by
    intro p
    rw [h.first, h.last, ← List.head?_eq_getElem?, List.head?_eq_none_iff,
      List.getLast?_eq_none_iff]
  first_iff := fun _ _ ↦ h.first_iff
  last_iff := fun _ _ ↦ h.last_iff
  orphan := h.orphan
  children := fun p ↦ ⟨h.walk_children p, (h.walk_children p).nodup, fun _ ↦ h.mem_children⟩
  acyclic := h.not_transGen_self
  upward := h.walk_upward
  preceding := h.walk_preceding
  descendants := h.drained_descendants

end Represents

/-- Whatever the edits and the ids that they name, the tree is well-formed. -/
theorem wellFormed_ofEdits (edits : List Edit) : WellFormed (ofEdits edits) := by
  obtain ⟨kids, h⟩ := exists_represents edits
  exact h.wellFormed

end Tree

end StyleCheck.Dom
