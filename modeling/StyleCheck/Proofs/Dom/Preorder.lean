import StyleCheck.Proofs.Dom.Order

/-!
# Preorder

The nodes below another as a recursive walk lists them: each child, and at once the nodes below it.
A tree lists them with one stack instead. Main statement: whatever the edits, the loop over the
stack ends with the list of the walk, and the text of a node is put together from the texts of its
children.
-/

namespace StyleCheck.Dom

open Relation (TransGen)

namespace Tree

/-- A run of the loop over a stack, from the stack and the nodes listed so far to the list that the
loop ends with. The top of the stack is its last node. It is taken off and listed; its children are
pushed, and they alone are reversed, so that the first of them is the next top. -/
inductive Pops (t : Tree) : List NodeId → List NodeId → List NodeId → Prop
  | done {listed : List NodeId} : Pops t [] listed listed
  | pop {stack listed result : List NodeId} {id : NodeId}
      (more : Pops t (stack ++ (t.children id).reverse) (listed ++ [id]) result) :
      Pops t (stack ++ [id]) listed result

variable {t : Tree} {stack out : List NodeId}

/-- The loop reads a stack from its top, and lists what it reads behind the nodes listed so far. -/
theorem pops_iff {listed result : List NodeId} :
    t.Pops stack listed result ↔ ∃ out, Drained t stack.reverse out ∧ result = listed ++ out := by
  constructor
  · intro h
    induction h with
    | done => exact ⟨[], .done, by simp⟩
    | pop _ ih =>
      obtain ⟨out, hout, hresult⟩ := ih
      refine ⟨_ :: out, ?_, by simpa using hresult⟩
      simp only [List.reverse_append, List.reverse_reverse, List.reverse_singleton,
        List.singleton_append] at hout ⊢
      exact .step hout
  · rintro ⟨out, hout, rfl⟩
    generalize hrev : stack.reverse = down at hout
    obtain rfl : stack = down.reverse := by simp [← hrev]
    clear hrev
    induction hout generalizing listed with
    | done => simpa using Pops.done
    | @step id stack out _ ih =>
      rw [List.reverse_cons]
      apply Pops.pop
      simpa using @ih (listed ++ [id])

namespace Drained

/-- The loop over a stack lists the same nodes each time. -/
theorem unique {out' : List NodeId} (h : Drained t stack out) (h' : Drained t stack out') :
    out = out' := by
  induction h generalizing out' with
  | done =>
    cases h'
    rfl
  | step _ ih =>
    cases h' with
    | step more' => rw [ih more']

/-- A recursive walk and the loop over a stack list the same nodes: the stack holds the siblings at
which the walk has still to call. -/
theorem eq_flatMap {walk : NodeId → List NodeId}
    (hwalk : ∀ id, walk id = (t.children id).flatMap fun c ↦ c :: walk c)
    (h : Drained t stack out) : out = stack.flatMap fun c ↦ c :: walk c := by
  induction h with
  | done => rfl
  | @step id stack out _ ih =>
    calc id :: out
        = id :: (t.children id ++ stack).flatMap (fun c ↦ c :: walk c) := by rw [ih]
      _ = (id :: walk id) ++ stack.flatMap (fun c ↦ c :: walk c) := by
        rw [hwalk id, List.flatMap_append, List.cons_append]
      _ = (id :: stack).flatMap (fun c ↦ c :: walk c) := by rw [List.flatMap_cons]

end Drained

namespace Represents

variable {kids : NodeId → List NodeId} (h : Represents t kids)

include h

/-- The loop over siblings lists each of them and the nodes below it. -/
theorem drained_flatMap (nodes : List NodeId) :
    Drained t nodes (nodes.flatMap fun c ↦ c :: t.descendants c) := by
  induction nodes with
  | nil => exact .done
  | cons c rest ih =>
    have hc : Drained t [c] (c :: t.descendants c) := by
      apply Drained.step
      simpa using h.drained_descendants c
    exact hc.append ih

/-- The nodes below another are its children, each with the nodes below it. -/
theorem descendants_eq_flatMap (id : NodeId) :
    t.descendants id = (t.children id).flatMap fun c ↦ c :: t.descendants c :=
  (h.drained_descendants id).unique (h.drained_flatMap (t.children id))

/-- No other function lists them so. -/
theorem eq_descendants_iff (walk : NodeId → List NodeId) :
    walk = t.descendants ↔ ∀ id, walk id = (t.children id).flatMap fun c ↦ c :: walk c := by
  constructor
  · rintro rfl id
    exact h.descendants_eq_flatMap id
  · intro hwalk
    ext1 id
    rw [hwalk id]
    exact ((h.drained_descendants id).eq_flatMap hwalk).symm

end Represents

/-! ### Texts -/

/-- What a node says by its content: a text node its text, and any other node nothing. -/
def said : Option Content → String
  | some (.text text) => text
  | _ => ""

theorem ownText_eq (t : Tree) (id : NodeId) : t.ownText id = said (t.content? id) := by
  rw [ownText, content?]
  cases t.get? id with
  | none => rfl
  | some node =>
    rw [Option.bind_some, Option.map_some, Node.text?]
    cases node.content <;> rfl

namespace Represents

variable {kids : NodeId → List NodeId} (h : Represents t kids)

include h

/-- The text of a node is its own and then the texts of its children. -/
theorem textContent_eq_append (id : NodeId) :
    t.textContent id = t.ownText id ++ String.join ((t.children id).map t.textContent) := by
  have hjoin : ∀ nodes : List NodeId,
      String.join ((nodes.flatMap fun c ↦ c :: t.descendants c).map t.ownText) =
        String.join (nodes.map t.textContent) := by
    intro nodes
    induction nodes with
    | nil => rfl
    | cons c rest ih => simp [textContent, ih, String.append_assoc]
  rw [textContent, h.descendants_eq_flatMap, hjoin]

end Represents

/-- Whatever the edits, the loop over a stack comes to an end, and the nodes below another that it
lists are those of the recursive walk, which is the only one to list each child with the nodes below
it. They are the nodes that have the other one above them, each once; the text of a node is what its
content says and then the texts of its children in order. -/
theorem descendants_ofEdits (edits : List Edit) :
    let t := ofEdits edits
    (∀ walk : NodeId → List NodeId,
      walk = t.descendants ↔ ∀ id, walk id = (t.children id).flatMap fun c ↦ c :: walk c) ∧
    ∀ id,
      (∀ result, t.Pops (t.children id).reverse [] result ↔ result = t.descendants id) ∧
      (t.descendants id).Nodup ∧
      (∀ x, x ∈ t.descendants id ↔ TransGen (t.Leads Node.parent) id x) ∧
      t.textContent id =
        said (t.content? id) ++ String.join ((t.children id).map t.textContent) := by
  intro t
  obtain ⟨kids, h⟩ := exists_represents edits
  refine ⟨h.eq_descendants_iff, fun id ↦ ⟨?_, ?_, ?_, ?_⟩⟩
  · intro result
    rw [pops_iff, List.reverse_reverse]
    constructor
    · rintro ⟨out, hout, rfl⟩
      exact hout.unique (h.drained_descendants id)
    · rintro rfl
      exact ⟨_, h.drained_descendants id, rfl⟩
  · exact (h.pairwise_precedes_descendants id).imp h.ne_of_precedes
  · intro x
    exact h.mem_descendants
  · rw [h.textContent_eq_append, ownText_eq]

end Tree

end StyleCheck.Dom
