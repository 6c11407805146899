import StyleCheck.Proofs.Dom.Edits

/-!
# Forests

The links of a tree stand for a list of children for every node. The invariant says so with the
lists given; every edit changes the lists in the plain way and keeps the invariant.
-/

namespace StyleCheck.Dom

open Relation (TransGen)

namespace Tree

/-- What stands before a place in a list. -/
def before {α : Type} (l : List α) : Nat → Option α
  | 0 => none
  | i + 1 => l[i]?

/-- The links of a tree stand for the lists `kids` of children. -/
structure Represents (t : Tree) (kids : NodeId → List NodeId) : Prop where
  first : ∀ p, t.follow Node.firstChild p = (kids p)[0]?
  last : ∀ p, t.follow Node.lastChild p = (kids p).getLast?
  parent : ∀ p (i : Nat) c, (kids p)[i]? = some c → t.follow Node.parent c = some p
  previous : ∀ p (i : Nat) c, (kids p)[i]? = some c → t.follow Node.previous c = before (kids p) i
  next : ∀ p (i : Nat) c, (kids p)[i]? = some c → t.follow Node.next c = (kids p)[i + 1]?
  listed : ∀ p c, t.follow Node.parent c = some p → c ∈ kids p
  orphan : ∀ c, t.follow Node.parent c = none →
    t.follow Node.previous c = none ∧ t.follow Node.next c = none
  nodup : ∀ p, (kids p).Nodup
  grounded : WellFounded (t.Leads Node.parent)

namespace Represents

variable {t : Tree} {kids : NodeId → List NodeId} (h : Represents t kids)

include h

theorem mem_iff {p c : NodeId} : c ∈ kids p ↔ t.follow Node.parent c = some p := by
  refine ⟨?_, h.listed p c⟩
  intro hc
  obtain ⟨i, hi⟩ := List.mem_iff_getElem?.mp hc
  exact h.parent p i c hi

theorem lt_size {p c : NodeId} (hc : c ∈ kids p) : c < t.size :=
  lt_size_of_follow (h.mem_iff.mp hc)

/-- A node with children is in the tree. -/
theorem lt_size_of_mem {p c : NodeId} (hc : c ∈ kids p) : p < t.size := by
  have hlen := List.length_pos_of_mem hc
  have hf : (kids p)[0]? = some (kids p)[0] := List.getElem?_eq_getElem hlen
  exact lt_size_of_follow ((h.first p).trans hf)

theorem eq_nil {p : NodeId} (hp : ¬ p < t.size) : kids p = [] :=
  List.eq_nil_iff_forall_not_mem.mpr fun _ hc ↦ hp (h.lt_size_of_mem hc)

theorem index_eq {p c : NodeId} {i j : Nat} (hi : (kids p)[i]? = some c)
    (hj : (kids p)[j]? = some c) : i = j := by
  obtain ⟨hlt, -⟩ := List.getElem?_eq_some_iff.mp hi
  exact (List.getElem?_inj hlt (h.nodup p)).mp (hi.trans hj.symm)

theorem exists_index {p c : NodeId} (hc : t.follow Node.parent c = some p) :
    ∃ i : Nat, (kids p)[i]? = some c :=
  List.mem_iff_getElem?.mp (h.listed p c hc)

/-- The node that the next link leads to stands behind in the same list. -/
theorem exists_index_of_next {a b : NodeId} (hab : t.follow Node.next a = some b) :
    ∃ p, ∃ i : Nat, (kids p)[i]? = some a ∧ (kids p)[i + 1]? = some b := by
  cases hp : t.follow Node.parent a with
  | none =>
    rw [(h.orphan a hp).2] at hab
    cases hab
  | some p =>
    obtain ⟨i, hi⟩ := h.exists_index hp
    exact ⟨p, i, hi, (h.next p i a hi).symm.trans hab⟩

/-- The node that the previous link leads to stands before in the same list. -/
theorem exists_index_of_previous {a b : NodeId} (hab : t.follow Node.previous b = some a) :
    ∃ p, ∃ i : Nat, (kids p)[i]? = some a ∧ (kids p)[i + 1]? = some b := by
  cases hp : t.follow Node.parent b with
  | none =>
    rw [(h.orphan b hp).1] at hab
    cases hab
  | some p =>
    obtain ⟨i, hi⟩ := h.exists_index hp
    rw [h.previous p i b hi] at hab
    cases i with
    | zero => cases hab
    | succ i => exact ⟨p, i, hab, hi⟩

theorem next_eq_some_iff {a b : NodeId} :
    t.follow Node.next a = some b ↔ t.follow Node.previous b = some a := by
  constructor
  · intro hab
    obtain ⟨p, i, ha, hb⟩ := h.exists_index_of_next hab
    exact (h.previous p (i + 1) b hb).trans ha
  · intro hab
    obtain ⟨p, i, ha, hb⟩ := h.exists_index_of_previous hab
    exact (h.next p i a ha).trans hb

/-- Trees with the same links stand for the same lists. -/
theorem congr {t' : Tree} (hlinks : ∀ link ∈ links, ∀ j, t'.follow link j = t.follow link j) :
    Represents t' kids := by
  have hparent := hlinks Node.parent (by simp [links])
  have hprevious := hlinks Node.previous (by simp [links])
  have hnext := hlinks Node.next (by simp [links])
  exact {
    first := fun p ↦ (hlinks Node.firstChild (by simp [links]) p).trans (h.first p)
    last := fun p ↦ (hlinks Node.lastChild (by simp [links]) p).trans (h.last p)
    parent := fun p i c hc ↦ (hparent c).trans (h.parent p i c hc)
    previous := fun p i c hc ↦ (hprevious c).trans (h.previous p i c hc)
    next := fun p i c hc ↦ (hnext c).trans (h.next p i c hc)
    listed := fun p c hc ↦ h.listed p c ((hparent c).symm.trans hc)
    orphan := fun c hc ↦ by
      rw [hprevious, hnext]
      exact h.orphan c ((hparent c).symm.trans hc)
    nodup := h.nodup
    grounded := Subrelation.wf (fun {_ b} hab ↦ (hparent b).symm.trans hab) h.grounded }

/-! ### Taking out a node -/

/-- A node either is not listed, or taking it out takes out its place. -/
private theorem erase_cases (p d : NodeId) :
    (t.follow Node.parent d ≠ some p ∧ (kids p).erase d = kids p) ∨
      ∃ j : Nat, (kids p)[j]? = some d ∧ (kids p).erase d = (kids p).eraseIdx j := by
  by_cases hd : d ∈ kids p
  · refine .inr ⟨(kids p).idxOf d, ?_, List.erase_eq_eraseIdx_of_idxOf rfl⟩
    rw [List.getElem?_eq_getElem (List.idxOf_lt_length_iff.mpr hd), List.getElem_idxOf]
  · exact .inl ⟨mt h.mem_iff.mpr hd, List.erase_of_not_mem hd⟩

private theorem first_detach (d p : NodeId) :
    (t.detach d).follow Node.firstChild p = ((kids p).erase d)[0]? := by
  by_cases hp : p < t.size
  · rw [follow_firstChild_detach d hp]
    rcases h.erase_cases p d with ⟨hd, he⟩ | ⟨j, hj, he⟩
    · rw [if_neg (fun hc ↦ hd hc.2), he, h.first]
    · rw [he, h.previous p j d hj, h.parent p j d hj, h.next p j d hj]
      cases j with
      | zero => rw [if_pos ⟨rfl, rfl⟩, List.getElem?_eraseIdx_of_ge (Nat.le_refl _)]
      | succ j =>
        have hlt := (List.getElem?_eq_some_iff.mp hj).1
        have hbefore : before (kids p) (j + 1) ≠ none := by
          simp only [before, ne_eq, List.getElem?_eq_none_iff]
          omega
        rw [if_neg (fun hc ↦ hbefore hc.1), List.getElem?_eraseIdx_of_lt (Nat.succ_pos j), h.first]
  · rw [follow_of_not_lt (by rwa [size_detach]), h.eq_nil hp]
    rfl

private theorem last_detach (d p : NodeId) :
    (t.detach d).follow Node.lastChild p = ((kids p).erase d).getLast? := by
  by_cases hp : p < t.size
  · rw [follow_lastChild_detach d hp]
    rcases h.erase_cases p d with ⟨hd, he⟩ | ⟨j, hj, he⟩
    · rw [if_neg (fun hc ↦ hd hc.2), he, h.last]
    · have hlt := (List.getElem?_eq_some_iff.mp hj).1
      rw [he, h.next p j d hj, h.parent p j d hj, h.previous p j d hj, List.getLast?_eq_getElem?,
        List.length_eraseIdx_of_lt hlt]
      by_cases hlast : j + 1 = (kids p).length
      · rw [if_pos ⟨by rw [hlast, List.getElem?_eq_none (Nat.le_refl _)], rfl⟩]
        cases j with
        | zero =>
          rw [List.getElem?_eraseIdx_of_ge (Nat.zero_le _), List.getElem?_eq_none (by omega)]
          rfl
        | succ j =>
          rw [← hlast, List.getElem?_eraseIdx_of_lt (by omega)]
          rfl
      · have hnext : (kids p)[j + 1]? ≠ none := by
          simp only [ne_eq, List.getElem?_eq_none_iff]
          omega
        rw [if_neg (fun hc ↦ hnext hc.1), h.last, List.getLast?_eq_getElem?,
          List.getElem?_eraseIdx_of_ge (by omega)]
        congr 1
        omega
  · rw [follow_of_not_lt (by rwa [size_detach]), h.eq_nil hp]
    rfl

/-- The place of a node that is left, among the children before one was taken out. -/
private theorem getElem?_erase {d p c : NodeId} {i : Nat} (hc : ((kids p).erase d)[i]? = some c) :
    d ≠ c ∧ c ∈ kids p := by
  have hmem := (h.nodup p).mem_erase_iff.mp (List.mem_of_getElem? hc)
  exact ⟨hmem.1.symm, hmem.2⟩

private theorem previous_detach {d p c : NodeId} {i : Nat}
    (hc : ((kids p).erase d)[i]? = some c) :
    (t.detach d).follow Node.previous c = before ((kids p).erase d) i := by
  obtain ⟨hne, hmem⟩ := h.getElem?_erase hc
  rw [follow_previous_detach d (h.lt_size hmem), if_neg hne]
  rcases h.erase_cases p d with ⟨hd, he⟩ | ⟨j, hj, he⟩
  · rw [he] at hc ⊢
    rw [if_neg, h.previous p i c hc]
    intro hn
    obtain ⟨q, k, hk, hk'⟩ := h.exists_index_of_next hn
    have hq : q = p := Option.some.inj ((h.parent q _ c hk').symm.trans (h.parent p i c hc))
    exact hd (hq ▸ h.parent q k d hk)
  · rw [he, h.next p j d hj, h.previous p j d hj]
    rw [he, List.getElem?_eraseIdx] at hc
    split at hc
    next hlt =>
      rw [if_neg, h.previous p i c hc]
      · cases i with
        | zero => rfl
        | succ i => exact (List.getElem?_eraseIdx_of_lt (by omega)).symm
      · intro hn
        have := h.index_eq hn hc
        omega
    next hge =>
      by_cases hij : j = i
      · subst hij
        rw [if_pos hc]
        cases j with
        | zero => rfl
        | succ j => exact (List.getElem?_eraseIdx_of_lt (by omega)).symm
      · rw [if_neg, h.previous p (i + 1) c hc]
        · cases i with
          | zero => omega
          | succ i => exact (List.getElem?_eraseIdx_of_ge (by omega)).symm
        · intro hn
          have := h.index_eq hn hc
          omega

private theorem next_detach {d p c : NodeId} {i : Nat} (hc : ((kids p).erase d)[i]? = some c) :
    (t.detach d).follow Node.next c = ((kids p).erase d)[i + 1]? := by
  obtain ⟨hne, hmem⟩ := h.getElem?_erase hc
  rw [follow_next_detach d (h.lt_size hmem), if_neg hne]
  rcases h.erase_cases p d with ⟨hd, he⟩ | ⟨j, hj, he⟩
  · rw [he] at hc ⊢
    rw [if_neg, h.next p i c hc]
    intro hn
    obtain ⟨q, k, hk, hk'⟩ := h.exists_index_of_previous hn
    have hq : q = p := Option.some.inj ((h.parent q _ c hk).symm.trans (h.parent p i c hc))
    exact hd (hq ▸ h.parent q _ d hk')
  · rw [he, h.next p j d hj, h.previous p j d hj]
    rw [he, List.getElem?_eraseIdx] at hc
    split at hc
    next hlt =>
      by_cases hij : i + 1 = j
      · subst hij
        have hbefore : before (kids p) (i + 1) = some c := hc
        rw [if_pos hbefore, List.getElem?_eraseIdx_of_ge (Nat.le_refl _)]
      · rw [if_neg, h.next p i c hc, List.getElem?_eraseIdx_of_lt (by omega)]
        intro hn
        cases j with
        | zero => cases hn
        | succ j =>
          have := h.index_eq hn hc
          omega
    next hge =>
      rw [if_neg, h.next p (i + 1) c hc, List.getElem?_eraseIdx_of_ge (by omega)]
      intro hn
      cases j with
      | zero => cases hn
      | succ j =>
        have := h.index_eq hn hc
        omega

/-- Taking out a node takes it out of the list in which it stands. -/
theorem detach (d : NodeId) : Represents (t.detach d) fun p ↦ (kids p).erase d where
  first := h.first_detach d
  last := h.last_detach d
  parent := by
    intro p i c hc
    obtain ⟨hne, hmem⟩ := h.getElem?_erase hc
    rw [follow_parent_detach, if_neg hne, h.mem_iff.mp hmem]
  previous := fun _ _ _ hc ↦ h.previous_detach hc
  next := fun _ _ _ hc ↦ h.next_detach hc
  listed := by
    intro p c hc
    rw [follow_parent_detach] at hc
    split at hc
    · cases hc
    next hne => exact (List.mem_erase_of_ne (Ne.symm hne)).mpr (h.listed p c hc)
  orphan := by
    intro c hc
    by_cases hlt : c < t.size
    · rw [follow_parent_detach] at hc
      rw [follow_previous_detach d hlt, follow_next_detach d hlt]
      by_cases hd : d = c
      · simp only [if_pos hd, and_self]
      · rw [if_neg hd] at hc
        obtain ⟨hp, hn⟩ := h.orphan c hc
        have hnext : t.follow Node.next d ≠ some c := by
          intro hdc
          rw [h.next_eq_some_iff, hp] at hdc
          cases hdc
        have hprevious : t.follow Node.previous d ≠ some c := by
          intro hcd
          rw [← h.next_eq_some_iff, hn] at hcd
          cases hcd
        rw [if_neg hd, if_neg hnext, if_neg hd, if_neg hprevious]
        exact ⟨hp, hn⟩
    · have hsize : ¬ c < (t.detach d).size := by rwa [size_detach]
      exact ⟨follow_of_not_lt hsize, follow_of_not_lt hsize⟩
  nodup := fun p ↦ (h.nodup p).erase d
  grounded := by
    refine Subrelation.wf (fun {a b} hab ↦ ?_) h.grounded
    rw [Leads, follow_parent_detach] at hab
    split at hab
    · cases hab
    · exact hab

/-! ### Linking a node -/

theorem last_mem {p c : NodeId} (hc : t.follow Node.lastChild p = some c) : c ∈ kids p :=
  List.mem_of_getLast? ((h.last p).symm.trans hc)

section

variable {p c : NodeId} (horphan : t.follow Node.parent c = none)

include horphan

private theorem not_listed (q : NodeId) : c ∉ kids q := by
  rw [h.mem_iff, horphan]
  exact nofun

private theorem ne_of_mem {q x : NodeId} (hx : x ∈ kids q) : c ≠ x := by
  rintro rfl
  exact h.not_listed horphan q hx

/-- A place in the list behind which a node was put: an old one, or the last. -/
private theorem getElem?_append {i : Nat} {x : NodeId} (hx : (kids p ++ [c])[i]? = some x) :
    (c ≠ x ∧ (kids p)[i]? = some x) ∨ (c = x ∧ i = (kids p).length) := by
  rw [List.getElem?_append] at hx
  split at hx
  · exact .inl ⟨h.ne_of_mem horphan (List.mem_of_getElem? hx), hx⟩
  next hlt =>
    obtain ⟨hi, he⟩ := List.getElem?_eq_some_iff.mp hx
    rw [List.length_singleton] at hi
    rw [List.getElem_singleton] at he
    exact .inr ⟨he, by omega⟩

private theorem lt_size_append (hc : c < t.size) {i : Nat} {x : NodeId}
    (hx : (kids p ++ [c])[i]? = some x) : x < t.size := by
  rcases h.getElem?_append horphan hx with ⟨-, hi⟩ | ⟨rfl, -⟩
  · exact h.lt_size (List.mem_of_getElem? hi)
  · exact hc

private theorem previous_link (hc : c < t.size) {i : Nat} {x : NodeId}
    (hx : (kids p ++ [c])[i]? = some x) :
    (t.link p c).follow Node.previous x = before (kids p ++ [c]) i := by
  rw [follow_previous_link p c (h.lt_size_append horphan hc hx)]
  rcases h.getElem?_append horphan hx with ⟨hne, hi⟩ | ⟨rfl, rfl⟩
  · have hlen := (List.getElem?_eq_some_iff.mp hi).1
    rw [if_neg hne, h.previous p i x hi]
    cases i with
    | zero => rfl
    | succ i => exact (List.getElem?_append_left (by omega)).symm
  · rw [if_pos rfl, h.last, List.getLast?_eq_getElem?]
    cases hl : (kids p).length with
    | zero => rw [List.getElem?_eq_none (by omega)]; rfl
    | succ n => exact (List.getElem?_append_left (by omega)).symm

private theorem next_link (hc : c < t.size) {i : Nat} {x : NodeId}
    (hx : (kids p ++ [c])[i]? = some x) :
    (t.link p c).follow Node.next x = (kids p ++ [c])[i + 1]? := by
  rw [follow_next_link p c (h.lt_size_append horphan hc hx)]
  rcases h.getElem?_append horphan hx with ⟨hne, hi⟩ | ⟨rfl, rfl⟩
  · have hlen := (List.getElem?_eq_some_iff.mp hi).1
    rw [if_neg hne, h.last, List.getLast?_eq_getElem?, h.next p i x hi]
    by_cases hend : i + 1 = (kids p).length
    · rw [if_pos (by rw [← hend]; exact hi), hend, List.getElem?_concat_length]
    · rw [if_neg, List.getElem?_append_left (by omega)]
      intro hl
      have := h.index_eq hl hi
      omega
  · rw [if_neg (fun hl ↦ h.not_listed horphan p (h.last_mem hl)), if_pos rfl,
      List.getElem?_eq_none (by simp)]

omit horphan in
/-- No upward loop begins where the linked node is no ancestor and not the node itself. -/
private theorem acc_link {x : NodeId} (hne : c ≠ x)
    (hup : ¬ TransGen (t.Leads Node.parent) c x) :
    Acc ((t.link p c).Leads Node.parent) x := by
  induction x using h.grounded.induction with
  | _ x ih =>
    refine ⟨x, fun a hax ↦ ?_⟩
    have hlt : x < t.size := size_link (t := t) p c ▸ lt_size_of_follow hax
    rw [Leads, follow_parent_link p c hlt, if_neg hne] at hax
    refine ih a hax ?_ ?_
    · rintro rfl
      exact hup (.single hax)
    · exact fun hca ↦ hup (.tail hca hax)

omit horphan in
private theorem grounded_link (hne : c ≠ p) (hup : ¬ TransGen (t.Leads Node.parent) c p) :
    WellFounded ((t.link p c).Leads Node.parent) := by
  refine ⟨fun x ↦ ?_⟩
  induction x using h.grounded.induction with
  | _ x ih =>
    refine ⟨x, fun a hax ↦ ?_⟩
    have hlt : x < t.size := size_link (t := t) p c ▸ lt_size_of_follow hax
    rw [Leads, follow_parent_link p c hlt] at hax
    split at hax
    · obtain rfl := Option.some.inj hax
      exact h.acc_link hne hup
    · exact ih a hax

/-- Linking a node without parent puts it last in its new parent's list. -/
theorem link (hp : p < t.size) (hc : c < t.size) (hne : c ≠ p)
    (hup : ¬ TransGen (t.Leads Node.parent) c p) :
    Represents (t.link p c) fun q ↦ if q = p then kids q ++ [c] else kids q where
  first := by
    intro q
    by_cases hq : q < t.size
    · rw [follow_firstChild_link p c hq, h.last, h.first]
      by_cases he : p = q
      · subst he
        rw [if_pos rfl]
        cases kids p <;> simp
      · rw [if_neg (fun hl ↦ he hl.2), if_neg (Ne.symm he)]
    · rw [follow_of_not_lt (by rwa [size_link]), if_neg, h.eq_nil hq]
      · rfl
      · rintro rfl
        exact hq hp
  last := by
    intro q
    by_cases hq : q < t.size
    · rw [follow_lastChild_link p c hq, h.last]
      by_cases he : p = q
      · subst he
        simp
      · rw [if_neg he, if_neg (Ne.symm he)]
    · rw [follow_of_not_lt (by rwa [size_link]), if_neg, h.eq_nil hq]
      · rfl
      · rintro rfl
        exact hq hp
  parent := by
    intro q i x hx
    split at hx
    next he =>
      subst he
      rcases h.getElem?_append horphan hx with ⟨hcx, hi⟩ | ⟨rfl, -⟩
      · rw [follow_parent_link q c (h.lt_size (List.mem_of_getElem? hi)), if_neg hcx,
          h.parent q i x hi]
      · rw [follow_parent_link q c hc, if_pos rfl]
    next =>
      have hmem := List.mem_of_getElem? hx
      rw [follow_parent_link p c (h.lt_size hmem), if_neg (h.ne_of_mem horphan hmem),
        h.parent q i x hx]
  previous := by
    intro q i x hx
    by_cases he : q = p
    · subst he
      simp only [if_true] at hx ⊢
      exact h.previous_link horphan hc hx
    · simp only [if_neg he] at hx ⊢
      have hmem := List.mem_of_getElem? hx
      rw [follow_previous_link p c (h.lt_size hmem), if_neg (h.ne_of_mem horphan hmem),
        h.previous q i x hx]
  next := by
    intro q i x hx
    by_cases he : q = p
    · subst he
      simp only [if_true] at hx ⊢
      exact h.next_link horphan hc hx
    · simp only [if_neg he] at hx ⊢
      have hmem := List.mem_of_getElem? hx
      have hlast : t.follow Node.lastChild p ≠ some x := by
        intro hl
        have hpx := h.mem_iff.mp (h.last_mem hl)
        rw [h.parent q i x hx] at hpx
        exact he (Option.some.inj hpx)
      rw [follow_next_link p c (h.lt_size hmem), if_neg hlast, if_neg (h.ne_of_mem horphan hmem),
        h.next q i x hx]
  listed := by
    intro q x hx
    have hlt : x < t.size := size_link (t := t) p c ▸ lt_size_of_follow hx
    rw [follow_parent_link p c hlt] at hx
    split at hx
    next hcx =>
      obtain rfl := Option.some.inj hx
      simp [hcx]
    next =>
      have hmem := h.listed q x hx
      split
      · exact List.mem_append_left _ hmem
      · exact hmem
  orphan := by
    intro x hx
    by_cases hlt : x < t.size
    · rw [follow_parent_link p c hlt] at hx
      split at hx
      · cases hx
      next hcx =>
        rw [follow_previous_link p c hlt, follow_next_link p c hlt, if_neg hcx, if_neg hcx, if_neg]
        · exact h.orphan x hx
        · intro hl
          rw [h.mem_iff.mp (h.last_mem hl)] at hx
          cases hx
    · have hsize : ¬ x < (t.link p c).size := by rwa [size_link]
      exact ⟨follow_of_not_lt hsize, follow_of_not_lt hsize⟩
  nodup := by
    intro q
    split
    · refine List.nodup_append.mpr ⟨h.nodup q, by simp, ?_⟩
      intro x hx y hy
      rw [List.mem_singleton.mp hy]
      exact (h.ne_of_mem horphan hx).symm
    · exact h.nodup q
  grounded := h.grounded_link hne hup

end

/-! ### Moving a node -/

/-- The chain of ancestors is walked to its end. -/
theorem walk_upward (id : NodeId) : Walk t Node.parent (some id) (t.upward id) := by
  obtain ⟨l, hl⟩ := Walk.exists_of_acc (h.grounded.apply id)
  rw [upward, hl.along_eq]
  exact hl

theorem mem_upward {a id : NodeId} (hid : id < t.size) :
    a ∈ t.upward id ↔ a = id ∨ a < t.size ∧ TransGen (t.Leads Node.parent) a id := by
  have hw := h.walk_upward id
  cases hu : t.upward id with
  | nil =>
    rw [hu] at hw
    cases hw with
    | missing hn => exact absurd hid hn
  | cons x rest =>
    rw [hu] at hw
    cases hw with
    | step _ more => rw [List.mem_cons, more.mem_iff]

end Represents

/-- A node can be put below another: both are there, and it is not the other one nor above it. -/
def Attachable (t : Tree) (p c : NodeId) : Prop :=
  p < t.size ∧ c < t.size ∧ c ∉ t.upward p

theorem has_iff {t : Tree} {id : NodeId} : t.has id ↔ id < t.size := by
  rw [has, get?, size]
  simp

theorem appendChild_of_attachable {t : Tree} {p c : NodeId} (hatt : t.Attachable p c) :
    t.appendChild p c = (t.detach c).link p c := by
  obtain ⟨hp, hc, hup⟩ := hatt
  rw [appendChild, if_pos]
  simp [has_iff.mpr hp, has_iff.mpr hc, hup]

theorem appendChild_of_not_attachable {t : Tree} {p c : NodeId} (hatt : ¬ t.Attachable p c) :
    t.appendChild p c = t := by
  rw [appendChild, if_neg]
  intro hcond
  simp only [Bool.and_eq_true, Bool.not_eq_true', has_iff, List.contains_eq_mem,
    decide_eq_false_iff_not] at hcond
  exact hatt ⟨hcond.1.1, hcond.1.2, hcond.2⟩

namespace Represents

variable {t : Tree} {kids : NodeId → List NodeId} (h : Represents t kids)

include h

/-- A moved node is taken out of its list and put last in another. -/
theorem appendChild {p c : NodeId} (hatt : t.Attachable p c) :
    Represents (t.appendChild p c) fun q ↦
      if q = p then (kids q).erase c ++ [c] else (kids q).erase c := by
  rw [appendChild_of_attachable hatt]
  obtain ⟨hp, hc, hup⟩ := hatt
  rw [h.mem_upward hp, not_or] at hup
  refine (h.detach c).link ?_ (by rwa [size_detach]) (by rwa [size_detach]) hup.1 ?_
  · rw [follow_parent_detach, if_pos rfl]
  · intro hlead
    refine hup.2 ⟨hc, TransGen.mono (fun a b hab ↦ ?_) _ _ hlead⟩
    rw [Leads, follow_parent_detach] at hab
    split at hab
    · cases hab
    · exact hab

end Represents

/-! ### Trees that edits lead to -/

/-- A tree that holds the document node alone has no links. -/
theorem follow_new {link : Node → Option NodeId} (hl : link ∈ links) (j : NodeId) :
    new.follow link j = none := by
  cases j with
  | zero => exact link_ofContent hl .document
  | succ j => exact follow_of_not_lt (t := new) (by simp [new, size])

theorem represents_new : Represents new fun _ ↦ [] := by
  have hnone : ∀ link ∈ links, ∀ j, new.follow link j = none := fun _ hl j ↦ follow_new hl j
  have hparent := hnone Node.parent (by simp [links])
  exact {
    first := fun p ↦ hnone Node.firstChild (by simp [links]) p
    last := fun p ↦ hnone Node.lastChild (by simp [links]) p
    parent := by simp
    previous := by simp
    next := by simp
    listed := fun p c hc ↦ by rw [hparent] at hc; cases hc
    orphan := fun c _ ↦
      ⟨hnone Node.previous (by simp [links]) c, hnone Node.next (by simp [links]) c⟩
    nodup := fun _ ↦ List.nodup_nil
    grounded := ⟨fun b ↦ ⟨b, fun a hab ↦ by rw [Leads, hparent] at hab; cases hab⟩⟩ }

/-- Every edit of a tree that stands for lists of children gives such a tree. -/
theorem Represents.apply {t : Tree} {kids : NodeId → List NodeId} (h : Represents t kids)
    (edit : Edit) : ∃ kids', Represents (t.apply edit) kids' := by
  cases edit with
  | addElement tag => exact ⟨kids, h.congr fun link hl j ↦ follow_add hl _ j⟩
  | addText text => exact ⟨kids, h.congr fun link hl j ↦ follow_add hl _ j⟩
  | addComment text => exact ⟨kids, h.congr fun link hl j ↦ follow_add hl _ j⟩
  | addDoctype name => exact ⟨kids, h.congr fun link hl j ↦ follow_add hl _ j⟩
  | setAttribute id name value =>
    exact ⟨kids, h.congr fun link hl j ↦ follow_setAttribute hl id name value j⟩
  | appendChild p c =>
    by_cases hatt : t.Attachable p c
    · exact ⟨_, h.appendChild hatt⟩
    · exact ⟨kids, by rw [Tree.apply, appendChild_of_not_attachable hatt]; exact h⟩
  | detach id => exact ⟨_, h.detach id⟩

/-- Every tree that edits lead to stands for lists of children. -/
theorem exists_represents (edits : List Edit) : ∃ kids, Represents (ofEdits edits) kids := by
  refine ofEdits_induction (P := fun t ↦ ∃ kids, Represents t kids) ?_ ?_ edits
  · exact ⟨_, represents_new⟩
  · intro t edit ⟨kids, h⟩
    exact h.apply edit

end Tree

end StyleCheck.Dom
