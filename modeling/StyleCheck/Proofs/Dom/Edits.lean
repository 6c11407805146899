import StyleCheck.Proofs.Dom.Walk

/-!
# Edits

What each edit of a tree changes at each node, and the trees that edits lead to.
-/

namespace StyleCheck.Dom

namespace Tree

variable {t : Tree}

theorem get?_update (id : NodeId) (change : Node → Node) (j : NodeId) :
    (t.update id change).get? j = (t.get? j).map fun m ↦ if id = j then change m else m := by
  rw [get?, update, Array.getElem?_modify]
  split
  · rfl
  · exact Option.map_id'.symm

theorem get?_update? (id : Option NodeId) (change : Node → Node) (j : NodeId) :
    (t.update? id change).get? j =
      (t.get? j).map fun m ↦ if id = some j then change m else m := by
  cases id with
  | none => exact Option.map_id'.symm
  | some id => simp only [update?, get?_update, Option.some_inj]

theorem size_update (id : NodeId) (change : Node → Node) : (t.update id change).size = t.size :=
  Array.size_modify

theorem size_update? (id : Option NodeId) (change : Node → Node) :
    (t.update? id change).size = t.size := by
  cases id with
  | none => rfl
  | some id => exact size_update id change

/-! ### Taking out a node -/

/-- Tell the node before a gap what comes after it, or the parent where its children now begin. -/
private def joinBefore (t : Tree) (parent previous next : Option NodeId) : Tree :=
  match previous with
  | some previous => t.update previous fun n ↦ { n with next }
  | none => t.update? parent fun n ↦ { n with firstChild := next }

/-- Tell the node after a gap what comes before it, or the parent where its children now end. -/
private def joinAfter (t : Tree) (parent previous next : Option NodeId) : Tree :=
  match next with
  | some next => t.update next fun n ↦ { n with previous }
  | none => t.update? parent fun n ↦ { n with lastChild := previous }

private theorem get?_joinBefore (parent previous next : Option NodeId) (j : NodeId) :
    (t.joinBefore parent previous next).get? j = (t.get? j).map fun m ↦
      { m with
        next := if previous = some j then next else m.next
        firstChild := if previous = none ∧ parent = some j then next else m.firstChild } := by
  cases previous with
  | none =>
    rw [joinBefore, get?_update?]
    congr 1
    funext m
    by_cases hp : parent = some j <;> simp [hp]
  | some previous =>
    rw [joinBefore, get?_update]
    congr 1
    funext m
    by_cases hp : previous = j <;> simp [hp]

private theorem get?_joinAfter (parent previous next : Option NodeId) (j : NodeId) :
    (t.joinAfter parent previous next).get? j = (t.get? j).map fun m ↦
      { m with
        previous := if next = some j then previous else m.previous
        lastChild := if next = none ∧ parent = some j then previous else m.lastChild } := by
  cases next with
  | none =>
    rw [joinAfter, get?_update?]
    congr 1
    funext m
    by_cases hp : parent = some j <;> simp [hp]
  | some next =>
    rw [joinAfter, get?_update]
    congr 1
    funext m
    by_cases hn : next = j <;> simp [hn]

/-- Taking out a node cuts its links to its parent and neighbours, joins the neighbours, and moves
the ends of its parent's children past it. -/
theorem get?_detach (d j : NodeId) : (t.detach d).get? j = (t.get? j).map fun m ↦
    { m with
      parent := if d = j then none else m.parent
      previous := if d = j then none else
        if t.follow Node.next d = some j then t.follow Node.previous d else m.previous
      next := if d = j then none else
        if t.follow Node.previous d = some j then t.follow Node.next d else m.next
      firstChild := if t.follow Node.previous d = none ∧ t.follow Node.parent d = some j then
        t.follow Node.next d else m.firstChild
      lastChild := if t.follow Node.next d = none ∧ t.follow Node.parent d = some j then
        t.follow Node.previous d else m.lastChild } := by
  cases h : t.get? d with
  | none =>
    have hd : ∀ m, t.get? j = some m → d ≠ j := by
      rintro m hj rfl
      rw [h] at hj
      cases hj
    cases hj : t.get? j with
    | none => simp [detach, h, hj]
    | some m => simp [detach, follow, h, hj, hd m hj]
  | some n =>
    have hdetach : t.detach d = ((t.joinBefore n.parent n.previous n.next).joinAfter n.parent
        n.previous n.next).update d fun m ↦
          { m with parent := none, previous := none, next := none } := by
      simp only [detach, h]
      rfl
    rw [hdetach, get?_update, get?_joinAfter, get?_joinBefore, Option.map_map, Option.map_map]
    simp only [follow_of_get? h]
    congr 1
    funext m
    by_cases hd : d = j <;> simp [Function.comp, hd]

section

variable (d : NodeId) {j : NodeId}

theorem follow_parent_detach : (t.detach d).follow Node.parent j =
    if d = j then none else t.follow Node.parent j := by
  simp only [follow, get?_detach]
  cases t.get? j <;> simp

theorem follow_previous_detach (hj : j < t.size) : (t.detach d).follow Node.previous j =
    if d = j then none else
      if t.follow Node.next d = some j then t.follow Node.previous d
      else t.follow Node.previous j := by
  obtain ⟨m, hm⟩ := exists_get? hj
  rw [follow, get?_detach, hm, follow_of_get? hm]
  rfl

theorem follow_next_detach (hj : j < t.size) : (t.detach d).follow Node.next j =
    if d = j then none else
      if t.follow Node.previous d = some j then t.follow Node.next d
      else t.follow Node.next j := by
  obtain ⟨m, hm⟩ := exists_get? hj
  rw [follow, get?_detach, hm, follow_of_get? hm]
  rfl

theorem follow_firstChild_detach (hj : j < t.size) : (t.detach d).follow Node.firstChild j =
    if t.follow Node.previous d = none ∧ t.follow Node.parent d = some j then t.follow Node.next d
    else t.follow Node.firstChild j := by
  obtain ⟨m, hm⟩ := exists_get? hj
  rw [follow, get?_detach, hm, follow_of_get? hm]
  rfl

theorem follow_lastChild_detach (hj : j < t.size) : (t.detach d).follow Node.lastChild j =
    if t.follow Node.next d = none ∧ t.follow Node.parent d = some j then t.follow Node.previous d
    else t.follow Node.lastChild j := by
  obtain ⟨m, hm⟩ := exists_get? hj
  rw [follow, get?_detach, hm, follow_of_get? hm]
  rfl

theorem size_detach : (t.detach d).size = t.size := by
  unfold detach
  split
  · rfl
  · rw [size_update]
    split <;> split <;> simp only [size_update, size_update?]

end

/-! ### Linking a node -/

/-- Linking a node behind the last child of another sets its three outer links, and makes it known
to that last child and to the parent. -/
theorem get?_link (p c j : NodeId) : (t.link p c).get? j = (t.get? j).map fun m ↦
    { m with
      parent := if c = j then some p else m.parent
      previous := if c = j then t.follow Node.lastChild p else m.previous
      next := if t.follow Node.lastChild p = some j then some c else
        if c = j then none else m.next
      firstChild := if t.follow Node.lastChild p = none ∧ p = j then some c else m.firstChild
      lastChild := if p = j then some c else m.lastChild } := by
  unfold link
  rw [show (t.get? p).bind Node.lastChild = t.follow Node.lastChild p from rfl]
  cases t.follow Node.lastChild p with
  | none =>
    simp only [get?_update, Option.map_map]
    congr 1
    funext m
    by_cases hc : c = j <;> by_cases hp : p = j <;> simp [Function.comp, hc, hp]
  | some last =>
    simp only [get?_update, Option.map_map]
    congr 1
    funext m
    by_cases hc : c = j <;> by_cases hp : p = j <;> by_cases hl : last = j <;>
      simp [Function.comp, hc, hp, hl]

section

variable (p c : NodeId) {j : NodeId}

theorem follow_parent_link (hj : j < t.size) : (t.link p c).follow Node.parent j =
    if c = j then some p else t.follow Node.parent j := by
  obtain ⟨m, hm⟩ := exists_get? hj
  rw [follow, get?_link, hm, follow_of_get? hm]
  rfl

theorem follow_previous_link (hj : j < t.size) : (t.link p c).follow Node.previous j =
    if c = j then t.follow Node.lastChild p else t.follow Node.previous j := by
  obtain ⟨m, hm⟩ := exists_get? hj
  rw [follow, get?_link, hm, follow_of_get? hm]
  rfl

theorem follow_next_link (hj : j < t.size) : (t.link p c).follow Node.next j =
    if t.follow Node.lastChild p = some j then some c else
      if c = j then none else t.follow Node.next j := by
  obtain ⟨m, hm⟩ := exists_get? hj
  rw [follow, get?_link, hm, follow_of_get? hm]
  rfl

theorem follow_firstChild_link (hj : j < t.size) : (t.link p c).follow Node.firstChild j =
    if t.follow Node.lastChild p = none ∧ p = j then some c
    else t.follow Node.firstChild j := by
  obtain ⟨m, hm⟩ := exists_get? hj
  rw [follow, get?_link, hm, follow_of_get? hm]
  rfl

theorem follow_lastChild_link (hj : j < t.size) : (t.link p c).follow Node.lastChild j =
    if p = j then some c else t.follow Node.lastChild j := by
  obtain ⟨m, hm⟩ := exists_get? hj
  rw [follow, get?_link, hm, follow_of_get? hm]
  rfl

theorem size_link : (t.link p c).size = t.size := by
  unfold link
  rw [size_update]
  split <;> simp only [size_update]

end

/-! ### Edits that leave the links alone -/

/-- The links of a node. -/
def links : List (Node → Option NodeId) :=
  [Node.parent, Node.firstChild, Node.lastChild, Node.previous, Node.next]

theorem link_ofContent {link : Node → Option NodeId} (h : link ∈ links) (content : Content) :
    link (.ofContent content) = none := by
  simp only [links, List.mem_cons, List.not_mem_nil, or_false] at h
  rcases h with rfl | rfl | rfl | rfl | rfl <;> rfl

theorem link_content {link : Node → Option NodeId} (h : link ∈ links) (node : Node)
    (content : Content) : link { node with content } = link node := by
  simp only [links, List.mem_cons, List.not_mem_nil, or_false] at h
  rcases h with rfl | rfl | rfl | rfl | rfl <;> rfl

theorem get?_add (content : Content) (j : NodeId) :
    (t.add content).2.get? j = if j = t.size then some (.ofContent content) else t.get? j :=
  Array.getElem?_push

theorem follow_add {link : Node → Option NodeId} (h : link ∈ links) (content : Content)
    (j : NodeId) : (t.add content).2.follow link j = t.follow link j := by
  rw [follow, get?_add]
  split
  · subst j
    rw [Option.bind_some, link_ofContent h, follow, get?_of_size_le (Nat.le_refl _)]
    rfl
  · rfl

theorem follow_setAttribute {link : Node → Option NodeId} (h : link ∈ links) (id : NodeId)
    (name value : String) (j : NodeId) :
    (t.setAttribute id name value).follow link j = t.follow link j := by
  have hget : (t.intern name).2.get? j = t.get? j := rfl
  rw [follow, setAttribute, get?_update, hget, follow]
  cases t.get? j with
  | none => rfl
  | some node =>
    simp only [Option.map_some, Option.bind_some]
    split
    · split
      · exact link_content h node _
      · rfl
    · rfl

/-! ### Trees that edits lead to -/

end Tree

/-- A change of a tree that a caller can ask for, with whatever ids. -/
inductive Edit
  | addElement (tag : String)
  | addText (text : String)
  | addComment (text : String)
  | addDoctype (name : String)
  | setAttribute (id : NodeId) (name value : String)
  | appendChild (parent child : NodeId)
  | detach (id : NodeId)
  deriving DecidableEq, Repr

namespace Tree

/-- Make a change. -/
def apply (t : Tree) : Edit → Tree
  | .addElement tag => (t.addElement tag).2
  | .addText text => (t.addText text).2
  | .addComment text => (t.addComment text).2
  | .addDoctype name => (t.addDoctype name).2
  | .setAttribute id name value => t.setAttribute id name value
  | .appendChild parent child => t.appendChild parent child
  | .detach id => t.detach id

/-- The tree that changes lead to, from a tree that holds the document node alone. -/
def ofEdits (edits : List Edit) : Tree := edits.foldl apply new

/-- What holds of the first tree and is kept by every change holds of all trees that changes lead
to. -/
theorem ofEdits_induction {P : Tree → Prop} (hnew : P new)
    (hstep : ∀ t edit, P t → P (t.apply edit)) (edits : List Edit) : P (ofEdits edits) := by
  suffices hrun : ∀ t, P t → P (edits.foldl apply t) from hrun new hnew
  induction edits with
  | nil => exact fun _ h ↦ h
  | cons edit rest ih => exact fun t h ↦ ih (t.apply edit) (hstep t edit h)

end Tree

end StyleCheck.Dom
