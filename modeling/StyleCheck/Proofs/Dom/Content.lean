import StyleCheck.Proofs.Dom.Forest

/-!
# Content

What the nodes of a tree hold, apart from their links: new nodes hold what they are made of, setting
an attribute changes one element, and moving nodes about changes none.
-/

namespace StyleCheck.Dom.Tree

/-- What the node at a place holds. -/
def content? (t : Tree) (id : NodeId) : Option Content := (t.get? id).map Node.content

/-- Two trees have the same nodes and names, up to links. -/
def SameContent (t t' : Tree) : Prop := t'.names = t.names ∧ ∀ id, t'.content? id = t.content? id

theorem SameContent.trans {t t' t'' : Tree} (h : t.SameContent t') (h' : t'.SameContent t'') :
    t.SameContent t'' :=
  ⟨h'.1.trans h.1, fun id ↦ (h'.2 id).trans (h.2 id)⟩

variable {t : Tree}

/-- An element stands where it is the content. -/
theorem element?_eq_some_iff {id : NodeId} {e : Element} :
    t.element? id = some e ↔ t.content? id = some (.element e) := by
  rw [element?, content?]
  cases t.get? id with
  | none => simp
  | some node =>
    rw [Option.bind_some, Option.map_some, Node.element?]
    cases node.content <;> simp

theorem SameContent.element? {t' : Tree} (h : t.SameContent t') (id : NodeId) :
    t'.element? id = t.element? id := by
  ext e
  rw [element?_eq_some_iff, element?_eq_some_iff, h.2]

/-! ### Moving nodes -/

theorem sameContent_detach (t : Tree) (d : NodeId) : t.SameContent (t.detach d) := by
  constructor
  · unfold detach
    split
    · rfl
    next node _ =>
      rcases node with ⟨parent, _, _, previous, next, _⟩
      cases parent <;> cases previous <;> cases next <;> rfl
  · intro id
    rw [content?, get?_detach, Option.map_map]
    rfl

theorem sameContent_link (t : Tree) (p c : NodeId) : t.SameContent (t.link p c) := by
  constructor
  · unfold link
    cases (t.get? p).bind Node.lastChild <;> rfl
  · intro id
    rw [content?, get?_link, Option.map_map]
    rfl

theorem sameContent_appendChild (t : Tree) (p c : NodeId) :
    t.SameContent (t.appendChild p c) := by
  unfold appendChild
  split
  · exact (sameContent_detach t c).trans (sameContent_link _ p c)
  · exact ⟨rfl, fun _ ↦ rfl⟩

/-! ### New nodes and attributes -/

theorem content?_add (content : Content) (id : NodeId) :
    (t.add content).2.content? id = if id = t.size then some content else t.content? id := by
  rw [content?, get?_add]
  split <;> rfl

/-- Setting an attribute changes the element, if there is one. -/
theorem element?_setAttribute (id : NodeId) (name value : String) (j : NodeId) :
    (t.setAttribute id name value).element? j = (t.element? j).map fun e ↦
      if id = j then e.set (t.names.intern name).1 name value else e := by
  have hget : (t.intern name).2.get? j = t.get? j := rfl
  rw [element?, setAttribute, get?_update, hget, element?]
  cases t.get? j with
  | none => rfl
  | some node =>
    obtain ⟨_, _, _, _, _, content⟩ := node
    by_cases hid : id = j
    · simp only [Option.map_some, Option.bind_some, if_pos hid]
      cases content <;> rfl
    · simp only [Option.map_some, Option.bind_some, if_neg hid]
      exact Option.map_id'.symm

end StyleCheck.Dom.Tree
