import StyleCheck.Proofs.Dom.Matching

/-!
# Document order

Which of two nodes comes first in a document, told by the links alone. Main statement: the loop over
the nodes below another visits them in this order, each once.
-/

namespace StyleCheck.Dom

open Relation (TransGen ReflTransGen reflTransGen_iff_eq_or_transGen)

namespace Tree

/-- The first node comes before the second in document order: it stands above it, or it belongs to
a sibling that precedes one to which the second belongs. -/
def Precedes (t : Tree) (a b : NodeId) : Prop :=
  TransGen (t.Leads Node.parent) a b ∨
    ∃ x y, t.PrecedingSibling x y ∧ t.Over x a ∧ t.Over y b

namespace Represents

variable {t : Tree} {kids : NodeId → List NodeId} (h : Represents t kids)

include h

/-! ### Siblings -/

/-- Siblings have one parent. -/
theorem exists_parent_of_precedingSibling {a b : NodeId} (hab : t.PrecedingSibling a b) :
    ∃ p, t.Leads Node.parent p a ∧ t.Leads Node.parent p b := by
  induction hab with
  | single hab => exact h.wellFormed.sibling _ _ (h.next_eq_some_iff.mpr hab)
  | tail _ hbc ih =>
    obtain ⟨p, hpa, hpb⟩ := ih
    obtain ⟨q, hqb, hqc⟩ := h.wellFormed.sibling _ _ (h.next_eq_some_iff.mpr hbc)
    obtain rfl : q = p := Option.some.inj (hqb.symm.trans hpb)
    exact ⟨q, hpa, hqc⟩

theorem not_precedingSibling_self (id : NodeId) : ¬ t.PrecedingSibling id id := by
  intro hself
  exact (Walk.step (lt_size_of_transGen hself) (h.walk_preceding id)).not_transGen_self hself

/-- No node belongs to two siblings. -/
theorem apart_of_precedingSibling {a b : NodeId} (hab : t.PrecedingSibling a b) :
    t.Apart a b := by
  intro x hax hbx
  obtain ⟨p, hpa, hpb⟩ := h.exists_parent_of_precedingSibling hab
  obtain rfl := h.eq_of_over_both (h.mem_children.mpr hpa) (h.mem_children.mpr hpb) hax hbx
  exact h.not_precedingSibling_self a hab

/-- Children are listed as their links to preceding siblings say. -/
theorem pairwise_precedingSibling_children (p : NodeId) :
    (t.children p).Pairwise t.PrecedingSibling := by
  rw [h.children_eq, List.pairwise_iff_getElem]
  intro i j hi hj hij
  induction hij with
  | refl =>
    have hfirst := h.previous p (i + 1) _ (List.getElem?_eq_getElem hj)
    rw [before, List.getElem?_eq_getElem hi] at hfirst
    exact .single hfirst
  | @step j hij ih =>
    have hstep : t.Leads Node.previous (kids p)[j] (kids p)[j + 1] := by
      rw [Leads, h.previous p (j + 1) _ (List.getElem?_eq_getElem hj), before,
        List.getElem?_eq_getElem]
    exact (ih (by omega)).tail hstep

/-! ### Order -/

/-- What stands above a node stands above a sibling of it. -/
private theorem over_sibling {a b x : NodeId} (hab : t.PrecedingSibling a b) :
    (TransGen (t.Leads Node.parent) x a → t.Over x b) ∧
      (TransGen (t.Leads Node.parent) x b → t.Over x a) := by
  obtain ⟨p, hpa, hpb⟩ := h.exists_parent_of_precedingSibling hab
  constructor
  · intro hxa
    obtain ⟨q, hxq, hqa⟩ := TransGen.tail'_iff.mp hxa
    obtain rfl := Option.some.inj (hqa.symm.trans hpa)
    exact hxq.tail hpb
  · intro hxb
    obtain ⟨q, hxq, hqb⟩ := TransGen.tail'_iff.mp hxb
    obtain rfl := Option.some.inj (hqb.symm.trans hpb)
    exact hxq.tail hpa

/-- Of two nodes at most one comes before the other. -/
theorem not_precedes_of_precedes {a b : NodeId} (hab : t.Precedes a b) : ¬ t.Precedes b a := by
  rintro (hba | ⟨x', y', hx', hx'b, hy'a⟩)
  · rcases hab with hab | ⟨x, y, hx, hxa, hyb⟩
    · exact h.not_transGen_self a (hab.trans hba)
    · exact h.apart_of_precedingSibling hx a hxa (hyb.trans hba.to_reflTransGen)
  · rcases hab with hab | ⟨x, y, hx, hxa, hyb⟩
    · exact h.apart_of_precedingSibling hx' b hx'b (hy'a.trans hab.to_reflTransGen)
    · rcases over_total hxa hy'a with hxy' | hy'x
      · rcases reflTransGen_iff_eq_or_transGen.mp hxy' with rfl | hxy'
        · exact h.apart_of_precedingSibling (hx'.trans hx) b hx'b hyb
        · exact h.apart_of_precedingSibling hx b (((h.over_sibling hx').2 hxy').trans hx'b) hyb
      · rcases reflTransGen_iff_eq_or_transGen.mp hy'x with rfl | hy'x
        · exact h.apart_of_precedingSibling (hx'.trans hx) b hx'b hyb
        · exact h.apart_of_precedingSibling hx' b hx'b (((h.over_sibling hx).1 hy'x).trans hyb)

theorem ne_of_precedes {a b : NodeId} (hab : t.Precedes a b) : a ≠ b := by
  rintro rfl
  exact h.not_precedes_of_precedes hab hab

/-! ### The loop over a stack -/

/-- A stack whose subtrees come one after the other is read off in document order. -/
private theorem pairwise_precedes_drained {stack out : List NodeId} (hd : Drained t stack out)
    (hstack : stack.Pairwise fun x y ↦ ∀ a b, t.Over x a → t.Over y b → t.Precedes a b) :
    out.Pairwise t.Precedes := by
  induction hd with
  | done => exact .nil
  | @step id stack out more ih =>
    obtain ⟨hid, hrest⟩ := List.pairwise_cons.mp hstack
    refine .cons ?_ (ih (List.pairwise_append.mpr ⟨?_, hrest, ?_⟩))
    · intro b hb
      obtain ⟨y, hy, hyb⟩ := (h.mem_drained more).mp hb
      rcases List.mem_append.mp hy with hy | hy
      · exact .inl (.head' (h.mem_children.mp hy) hyb)
      · exact hid y hy id b .refl hyb
    · exact (h.pairwise_precedingSibling_children id).imp fun hxy a b hxa hyb ↦
        .inr ⟨_, _, hxy, hxa, hyb⟩
    · intro x hx y hy a b hxa hyb
      exact hid y hy a b (.head (h.mem_children.mp hx) hxa) hyb

/-- The nodes below another are visited in document order. -/
theorem pairwise_precedes_descendants (id : NodeId) :
    (t.descendants id).Pairwise t.Precedes := by
  refine h.pairwise_precedes_drained (h.drained_descendants id) ?_
  exact (h.pairwise_precedingSibling_children id).imp fun hxy a b hxa hyb ↦
    .inr ⟨_, _, hxy, hxa, hyb⟩

theorem mem_descendants {id x : NodeId} :
    x ∈ t.descendants id ↔ TransGen (t.Leads Node.parent) id x := by
  rw [h.mem_drained (h.drained_descendants id), TransGen.head'_iff]
  simp only [h.mem_children]
  rfl

end Represents

end Tree

end StyleCheck.Dom
