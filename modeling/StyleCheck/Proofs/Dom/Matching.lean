import StyleCheck.Proofs.Dom.Satisfaction
import StyleCheck.Proofs.Dom.Traversal

/-!
# Matching

What it means that elements stand for the compounds of a selector, told by the links of the tree
and by the signs between the compounds. Main statement: the search from the subject leftwards finds
such elements whenever there are any.
-/

namespace StyleCheck.Dom

open Relation (TransGen)
open Selector (Combinator Kind)

namespace Tree

/-! ### Related elements -/

/-- The first node is the parent of the second, and an element. -/
def ParentElement (t : Tree) (a b : NodeId) : Prop := t.Leads Node.parent a b ∧ t.IsElement a

/-- The first node stands before the second among its siblings. -/
def PrecedingSibling (t : Tree) : NodeId → NodeId → Prop := TransGen (t.Leads Node.previous)

/-- The first node is an element before the second among its siblings, and no other one is
nearer. -/
structure NearestElement (t : Tree) (a b : NodeId) : Prop where
  precedes : t.PrecedingSibling a b
  isElement : t.IsElement a
  nearest : ∀ x, t.PrecedingSibling x b → t.IsElement x → x = a ∨ t.PrecedingSibling x a

/-- The elements on both sides of a token that joins compounds. Three kinds of tokens are signs of
their own; every other one stands for white space. -/
def Related (t : Tree) (sign : Kind) : NodeId → NodeId → Prop :=
  if sign = .ofChar '>' then t.ParentElement
  else if sign = .ofChar '+' then t.NearestElement
  else if sign = .ofChar '~' then TransGen t.NearestElement
  else TransGen t.ParentElement

/-- Elements stand for the compounds of a selector, from left to right. -/
def StandFor (t : Tree) : Selector.Complex → List NodeId → Prop
  | .compound c, [x] => t.Satisfies x c
  | .joined operator left right, x :: y :: rest =>
    t.Satisfies x left ∧ t.Related operator.kind x y ∧ t.StandFor right (y :: rest)
  | _, _ => False

theorem IsElement.lt_size {t : Tree} {id : NodeId} (h : t.IsElement id) : id < t.size := by
  obtain ⟨e, he⟩ := h
  obtain ⟨node, hn, -⟩ := Option.map_eq_some_iff.mp he
  exact lt_size_of_get? hn

/-! ### Chains of related elements -/

/-- A chain of related nodes by its last step. -/
private theorem transGen_iff {r : NodeId → NodeId → Prop} {a b : NodeId} :
    TransGen r a b ↔ ∃ c, r c b ∧ (a = c ∨ TransGen r a c) := by
  rw [TransGen.tail'_iff]
  constructor
  · rintro ⟨c, hac, hcb⟩
    exact ⟨c, hcb, (Relation.reflTransGen_iff_eq_or_transGen.mp hac).imp_left Eq.symm⟩
  · rintro ⟨c, hcb, hac⟩
    exact ⟨c, Relation.reflTransGen_iff_eq_or_transGen.mpr (hac.imp_left Eq.symm), hcb⟩

section

variable {t : Tree} {a b c : NodeId}

/-- The chain of parents that are elements goes over the parent, if that is one. -/
private theorem transGen_parentElement_iff (hcb : t.Leads Node.parent c b) :
    TransGen t.ParentElement a b ↔ t.IsElement c ∧ (a = c ∨ TransGen t.ParentElement a c) := by
  rw [transGen_iff]
  constructor
  · rintro ⟨d, ⟨hdb, hd⟩, hac⟩
    obtain rfl := Option.some.inj (hdb.symm.trans hcb)
    exact ⟨hd, hac⟩
  · rintro ⟨hc, hac⟩
    exact ⟨c, ⟨hcb, hc⟩, hac⟩

private theorem precedingSibling_iff (hcb : t.Leads Node.previous c b) :
    t.PrecedingSibling a b ↔ a = c ∨ t.PrecedingSibling a c := by
  rw [PrecedingSibling, transGen_iff]
  constructor
  · rintro ⟨d, hdb, hac⟩
    obtain rfl := Option.some.inj (hdb.symm.trans hcb)
    exact hac
  · exact fun hac ↦ ⟨c, hcb, hac⟩

private theorem not_nearestElement (hb : t.follow Node.previous b = none) :
    ¬ t.NearestElement a b := by
  intro h
  obtain ⟨c, hcb, -⟩ := transGen_iff.mp h.precedes
  cases hb.symm.trans hcb

/-- An element right before a node is the nearest one. -/
private theorem nearestElement_iff_of_isElement (hcb : t.Leads Node.previous c b)
    (hc : t.IsElement c) (hcycle : ¬ t.PrecedingSibling c c) :
    t.NearestElement a b ↔ a = c := by
  constructor
  · intro h
    have hac := (precedingSibling_iff hcb).mp h.precedes
    have hca := h.nearest c (.single hcb) hc
    rcases hac with rfl | hac
    · rfl
    · rcases hca with rfl | hca
      · rfl
      · exact absurd (hca.trans hac) hcycle
  · rintro rfl
    exact ⟨.single hcb, hc, fun x hx _ ↦ (precedingSibling_iff hcb).mp hx⟩

/-- A node that is no element is passed over. -/
private theorem nearestElement_iff_of_not_isElement (hcb : t.Leads Node.previous c b)
    (hc : ¬ t.IsElement c) : t.NearestElement a b ↔ t.NearestElement a c := by
  have hskip : ∀ x, t.IsElement x → (t.PrecedingSibling x b ↔ t.PrecedingSibling x c) := by
    intro x hx
    rw [precedingSibling_iff hcb]
    refine or_iff_right ?_
    rintro rfl
    exact hc hx
  constructor
  · intro h
    exact ⟨(hskip a h.isElement).mp h.precedes, h.isElement,
      fun x hxc hx ↦ h.nearest x ((hskip x hx).mpr hxc) hx⟩
  · intro h
    exact ⟨(hskip a h.isElement).mpr h.precedes, h.isElement,
      fun x hxb hx ↦ h.nearest x ((hskip x hx).mp hxb) hx⟩

end

/-! ### What the loops find -/

namespace Walk

variable {t : Tree} {a b : NodeId} {l : List NodeId}

/-- Going up as far as there are elements meets those that chains of parents lead to. -/
theorem mem_takeWhile_iff (h : Walk t Node.parent (t.follow Node.parent b) l) :
    a ∈ l.takeWhile t.isElement ↔ TransGen t.ParentElement a b := by
  generalize hs : t.follow Node.parent b = start at h
  induction h generalizing b with
  | done =>
    refine iff_of_false List.not_mem_nil fun hab ↦ ?_
    obtain ⟨c, ⟨hcb, -⟩, -⟩ := transGen_iff.mp hab
    cases hs.symm.trans hcb
  | @missing c hc =>
    rw [transGen_parentElement_iff hs]
    exact iff_of_false List.not_mem_nil fun hab ↦ hc hab.1.lt_size
  | @step c rest _ _ ih =>
    rw [transGen_parentElement_iff hs, ← isElement_iff]
    by_cases hc : t.isElement c
    · rw [List.takeWhile_cons_of_pos hc, List.mem_cons, ih rfl, and_iff_right hc]
    · rw [List.takeWhile_cons_of_neg hc]
      exact iff_of_false List.not_mem_nil fun hab ↦ hc hab.1

/-- The first element met on the way through the preceding siblings is the nearest one. -/
theorem head?_filter_eq_some_iff (h : Walk t Node.previous (t.follow Node.previous b) l) :
    (l.filter t.isElement).head? = some a ↔ t.NearestElement a b := by
  generalize hs : t.follow Node.previous b = start at h
  induction h generalizing b with
  | done => exact iff_of_false nofun (not_nearestElement hs)
  | @missing c hc =>
    rw [nearestElement_iff_of_not_isElement hs fun he ↦ hc he.lt_size]
    exact iff_of_false nofun (not_nearestElement (follow_of_not_lt hc))
  | @step c rest hlt more ih =>
    by_cases hc : t.isElement c
    · rw [nearestElement_iff_of_isElement hs (isElement_iff.mp hc)
        (step hlt more).not_transGen_self, List.filter_cons_of_pos hc, List.head?_cons,
        Option.some_inj, eq_comm]
    · rw [nearestElement_iff_of_not_isElement hs (mt isElement_iff.mpr hc),
        List.filter_cons_of_neg hc, ih rfl]

/-- The elements met on the way through the preceding siblings are those that chains of nearest
elements lead to. -/
theorem mem_filter_iff (h : Walk t Node.previous (t.follow Node.previous b) l) :
    a ∈ l.filter t.isElement ↔ TransGen t.NearestElement a b := by
  generalize hs : t.follow Node.previous b = start at h
  induction h generalizing b with
  | done =>
    refine iff_of_false List.not_mem_nil fun hab ↦ ?_
    obtain ⟨c, hcb, -⟩ := transGen_iff.mp hab
    exact not_nearestElement hs hcb
  | @missing c hc =>
    refine iff_of_false List.not_mem_nil fun hab ↦ ?_
    obtain ⟨d, hdb, -⟩ := transGen_iff.mp hab
    rw [nearestElement_iff_of_not_isElement hs fun he ↦ hc he.lt_size] at hdb
    exact not_nearestElement (follow_of_not_lt hc) hdb
  | @step c rest hlt more ih =>
    by_cases hc : t.isElement c
    · have hnearest := fun d ↦ nearestElement_iff_of_isElement (a := d) hs (isElement_iff.mp hc)
        (step hlt more).not_transGen_self
      rw [List.filter_cons_of_pos hc, List.mem_cons, ih rfl, transGen_iff (b := b)]
      simp only [hnearest, exists_eq_left]
    · have hnearest := fun d ↦
        nearestElement_iff_of_not_isElement (a := d) hs (mt isElement_iff.mpr hc)
      rw [List.filter_cons_of_neg hc, ih rfl, transGen_iff (b := b), transGen_iff (b := c)]
      simp only [hnearest]

end Walk

namespace Represents

variable {t : Tree} {kids : NodeId → List NodeId} (h : Represents t kids)

include h

omit h in
private theorem related_eq (sign : Kind) :
    t.Related sign = match Combinator.ofKind sign with
      | .child => t.ParentElement
      | .descendant => TransGen t.ParentElement
      | .nextSibling => t.NearestElement
      | .laterSibling => TransGen t.NearestElement := by
  cases sign <;> rfl

/-- The elements that a sign admits to the left of another are those it relates to it. -/
theorem mem_leftOf {a b : NodeId} {sign : Kind} :
    a ∈ t.leftOf b (.ofKind sign) ↔ t.Related sign a b := by
  rw [related_eq]
  cases Combinator.ofKind sign with
  | child =>
    rw [leftOf, Option.mem_toList, parentElement?, Option.filter_eq_some_iff, isElement_iff]
    rfl
  | descendant =>
    have hw := h.walk_upward b
    rw [leftOf, ancestorElements]
    cases hu : t.upward b with
    | nil =>
      rw [hu] at hw
      cases hw with
      | missing hb =>
        refine iff_of_false List.not_mem_nil fun hab ↦ ?_
        obtain ⟨c, ⟨hcb, -⟩, -⟩ := transGen_iff.mp hab
        exact hb (lt_size_of_follow hcb)
    | cons x rest =>
      rw [hu] at hw
      cases hw with
      | step _ more => exact more.mem_takeWhile_iff
  | nextSibling =>
    rw [leftOf, Option.mem_toList, previousElement?]
    exact (h.walk_preceding b).head?_filter_eq_some_iff
  | laterSibling => exact (h.walk_preceding b).mem_filter_iff

/-! ### The search -/

/-- The links left of a compound can be met from its element. -/
private def Continues (t : Tree) (combinator : Option Combinator) (rest : List Selector.Link)
    (x : NodeId) : Prop :=
  ∀ k, combinator = some k → ∃ a ∈ t.leftOf x k, t.matchesLinks rest a

omit h in
private theorem matchesLinks_cons {link : Selector.Link} {rest : List Selector.Link} {x : NodeId} :
    t.matchesLinks (link :: rest) x ↔
      t.Satisfies x link.compound ∧ Continues t link.combinator rest x := by
  obtain ⟨combinator, c⟩ := link
  rw [matchesLinks, Bool.and_eq_true, matchesCompound_iff]
  refine and_congr_right fun _ ↦ ?_
  cases combinator with
  | none => simp [Continues]
  | some k =>
    simp only [List.any_eq_true, Continues, Option.some_inj, forall_eq']

/-- The search from the right meets the links of a selector, and then what is left of them, if
elements stand for its compounds from which the rest can be met. -/
private theorem matchesLinks_iff (s : Selector.Complex) (combinator : Option Combinator)
    (rest : List Selector.Link) (e : NodeId) :
    t.matchesLinks ((s.linksAfter combinator).reverse ++ rest) e ↔
      ∃ x es, t.StandFor s (x :: es) ∧ (x :: es).getLast? = some e ∧
        Continues t combinator rest x := by
  induction s generalizing combinator rest with
  | compound c =>
    rw [Selector.Complex.linksAfter, List.reverse_singleton, List.singleton_append,
      matchesLinks_cons]
    constructor
    · rintro ⟨hc, hrest⟩
      exact ⟨e, [], hc, rfl, hrest⟩
    · rintro ⟨x, es, hes, hlast, hrest⟩
      cases es with
      | nil =>
        obtain rfl := Option.some.inj hlast
        exact ⟨hes, hrest⟩
      | cons => cases hes
  | joined operator left right ih =>
    rw [Selector.Complex.linksAfter, List.reverse_cons, List.append_assoc, ih]
    constructor
    · rintro ⟨y, es, hes, hlast, hrest⟩
      obtain ⟨x, hxy, hx⟩ := hrest _ rfl
      rw [List.singleton_append, matchesLinks_cons] at hx
      exact ⟨x, y :: es, ⟨hx.1, h.mem_leftOf.mp hxy, hes⟩, by rwa [List.getLast?_cons_cons], hx.2⟩
    · rintro ⟨x, es, hes, hlast, hrest⟩
      cases es with
      | nil => cases hes
      | cons y es =>
        obtain ⟨hx, hxy, hes⟩ := hes
        refine ⟨y, es, hes, by rwa [List.getLast?_cons_cons] at hlast, ?_⟩
        rintro _ ⟨⟩
        exact ⟨x, h.mem_leftOf.mpr hxy, matchesLinks_cons.mpr ⟨hx, hrest⟩⟩

end Represents

/-- An element matches a selector if and only if there are elements that stand for its compounds
and end with that element. -/
theorem matchesSelector_ofEdits (edits : List Edit) (e : NodeId) (s : Selector.Complex) :
    (ofEdits edits).matchesSelector e s ↔
      (ofEdits edits).IsElement e ∧
        ∃ es : List NodeId, (ofEdits edits).StandFor s es ∧ es.getLast? = some e := by
  obtain ⟨kids, h⟩ := exists_represents edits
  have hlinks := h.matchesLinks_iff s none [] e
  rw [List.append_nil] at hlinks
  rw [matchesSelector, Bool.and_eq_true, isElement_iff, Selector.Complex.chain, hlinks]
  refine and_congr_right fun _ ↦ ?_
  constructor
  · rintro ⟨x, es, hes, hlast, -⟩
    exact ⟨x :: es, hes, hlast⟩
  · rintro ⟨es, hes, hlast⟩
    cases es with
    | nil => cases hlast
    | cons x es => exact ⟨x, es, hes, hlast, nofun⟩

-- the nearest `li` above the `b` is no child of the `ul`: the search has to go on to the outer one
example : (ofEdits [.addElement "ul", .addElement "li", .addElement "li", .addElement "b",
    .appendChild 1 2, .appendChild 2 3, .appendChild 3 4]).matchesText 4 "ul > li b" = true := by
  decide +kernel

end Tree

end StyleCheck.Dom
