import StyleCheck.Dom.Document
import StyleCheck.Proofs.Dom.Naming
import StyleCheck.Proofs.Dom.Refinement

/-!
# Building

What adding a form to a tree does: new nodes are put behind the last child of one node, and
everything else stays in its place and reads as it did.
-/

namespace StyleCheck.Dom

open Relation (ReflTransGen)

namespace Tree

/-! ### Building by edits -/

/-- Edits lead to a tree. -/
def Reachable (t : Tree) : Prop := ∃ edits, ofEdits edits = t

namespace Reachable

variable {t : Tree} (h : t.Reachable)

include h

theorem apply (edit : Edit) : (t.apply edit).Reachable := by
  obtain ⟨edits, rfl⟩ := h
  exact ⟨edits ++ [edit], List.foldl_append⟩

theorem setAttributes (id : NodeId) (attributes : List (String × String)) :
    (t.setAttributes id attributes).Reachable := by
  induction attributes generalizing t with
  | nil => exact h
  | cons a rest ih => exact ih (h.apply (.setAttribute id a.1 a.2))

theorem exists_represents : ∃ kids, Represents t kids := by
  obtain ⟨edits, rfl⟩ := h
  exact Tree.exists_represents edits

theorem named : t.Named := by
  obtain ⟨edits, rfl⟩ := h
  exact named_ofEdits edits

end Reachable

mutual

/-- Building a form is a run of edits. -/
theorem Reachable.build {t : Tree} (h : t.Reachable) (parent : NodeId) :
    (form : Form) → (t.build parent form).Reachable
  | .document => h
  | .doctype name => (h.apply (.addDoctype name)).apply (.appendChild parent t.size)
  | .text text => (h.apply (.addText text)).apply (.appendChild parent t.size)
  | .comment text => (h.apply (.addComment text)).apply (.appendChild parent t.size)
  | .element tag attributes children =>
    Reachable.buildAll (((h.apply (.addElement tag)).setAttributes t.size attributes).apply
      (.appendChild parent t.size)) t.size children

theorem Reachable.buildAll {t : Tree} (h : t.Reachable) (parent : NodeId) :
    (forms : List Form) → (t.buildAll parent forms).Reachable
  | [] => h
  | form :: rest => (h.build parent form).buildAll parent rest

end

theorem buildAll_append (t : Tree) (parent : NodeId) (forms rest : List Form) :
    t.buildAll parent (forms ++ rest) = (t.buildAll parent forms).buildAll parent rest := by
  induction forms generalizing t with
  | nil => rfl
  | cons form forms ih => exact ih (t.build parent form)

/-! ### A new node -/

/-- A tree becomes another one as a node without links is added. -/
structure Adds (t t' : Tree) : Prop where
  size : t'.size = t.size + 1
  ownForm : ∀ i < t.size, t'.ownForm? i = t.ownForm? i
  follow : ∀ link ∈ links, ∀ j, t'.follow link j = t.follow link j

theorem adds_add {t : Tree} (h : t.Named) {names : Names} (hnames : t.names.Extends names)
    (content : Content) : t.Adds (add { t with names } content).2 where
  size := Array.size_push _
  ownForm := by
    intro i hi
    have hcontent : (add { t with names } content).2.content? i = t.content? i := by
      rw [content?_add]
      exact if_neg (Nat.ne_of_lt hi)
    exact h.ownForm?_eq hnames hcontent
  follow := fun _ hl j ↦ follow_add hl content j

theorem size_setAttribute (t : Tree) (id : NodeId) (name value : String) :
    (t.setAttribute id name value).size = t.size :=
  size_update id _

namespace Adds

variable {t t' : Tree} (h : t.Adds t')

include h

/-- The attributes of the new node do not show elsewhere. -/
theorem setAttribute (ht' : t'.Reachable) (name value : String) :
    t.Adds (t'.setAttribute t.size name value) where
  size := (size_setAttribute t' _ name value).trans h.size
  ownForm := by
    intro i hi
    have hcontent : (t'.setAttribute t.size name value).content? i = t'.content? i := by
      rw [content?_setAttribute]
      simp only [if_neg (Nat.ne_of_gt hi)]
      exact Option.map_id'
    rw [ht'.named.ownForm?_eq (t'.names.extends_intern name) hcontent, h.ownForm i hi]
  follow := fun _ hl j ↦ (follow_setAttribute hl _ name value j).trans (h.follow _ hl j)

/-- The attributes of the new node are set one after the other. -/
theorem setAttributes (ht' : t'.Reachable) {tag : String} {listed : List (String × String)}
    (hform : t'.ownForm? t.size = some (.element tag listed []))
    (attributes : List (String × String)) :
    t.Adds (t'.setAttributes t.size attributes) ∧
      (t'.setAttributes t.size attributes).ownForm? t.size =
        some (.element tag (attributes.foldl (fun l a ↦ putNamed a.1 a.2 l) listed) []) := by
  induction attributes generalizing t' listed with
  | nil => exact ⟨h, hform⟩
  | cons a rest ih =>
    exact ih (h.setAttribute ht' a.1 a.2) (ht'.apply (.setAttribute t.size a.1 a.2))
      (ht'.named.ownForm?_setAttribute hform a.1 a.2)

end Adds

/-! ### Growth below a node -/

/-- A tree becomes another one as nodes are added: those of them that are listed stand behind the
last child of `p`, and the other nodes that were there keep their forms and their children. -/
structure Grows (t t' : Tree) (p : NodeId) (added : List NodeId) : Prop where
  size : t.size ≤ t'.size
  ownForm : ∀ i < t.size, t'.ownForm? i = t.ownForm? i
  elsewhere : ∀ i < t.size, i ≠ p → t'.children i = t.children i
  children : t'.children p = t.children p ++ added

namespace Grows

variable {t t' t'' : Tree} {p : NodeId} {added more : List NodeId}

theorem refl (t : Tree) (p : NodeId) : t.Grows t p [] :=
  ⟨Nat.le_refl _, fun _ _ ↦ rfl, fun _ _ _ ↦ rfl, (List.append_nil _).symm⟩

theorem trans (h : t.Grows t' p added) (h' : t'.Grows t'' p more) :
    t.Grows t'' p (added ++ more) where
  size := Nat.le_trans h.size h'.size
  ownForm := fun i hi ↦ (h'.ownForm i (Nat.lt_of_lt_of_le hi h.size)).trans (h.ownForm i hi)
  elsewhere := fun i hi hne ↦
    (h'.elsewhere i (Nat.lt_of_lt_of_le hi h.size) hne).trans (h.elsewhere i hi hne)
  children := by rw [h'.children, h.children, List.append_assoc]

/-- Growth below a new node is no growth elsewhere. -/
theorem below (h : t.Grows t' p added) (hp : p < t.size) {q : NodeId} (hq : t.size ≤ q)
    (h' : t'.Grows t'' q more) : t.Grows t'' p added where
  size := Nat.le_trans h.size h'.size
  ownForm := fun i hi ↦ (h'.ownForm i (Nat.lt_of_lt_of_le hi h.size)).trans (h.ownForm i hi)
  elsewhere := fun i hi hne ↦
    (h'.elsewhere i (Nat.lt_of_lt_of_le hi h.size) (by omega)).trans (h.elsewhere i hi hne)
  children :=
    (h'.elsewhere p (Nat.lt_of_lt_of_le hp h.size) (Nat.ne_of_lt (Nat.lt_of_lt_of_le hp hq))).trans
      h.children

end Grows

/-- A tree becomes another one as a node with a form of its own is put behind the last child of
`p`. -/
structure Places (t t' : Tree) (p : NodeId) (form : Form) : Prop where
  size : t'.size = t.size + 1
  grows : t.Grows t' p [t.size]
  ownForm : t'.ownForm? t.size = some form
  children : t'.children t.size = []

theorem Places.lt_size {t t' : Tree} {p : NodeId} {form : Form} (h : t.Places t' p form) :
    t.size < t'.size := by
  rw [h.size]
  exact Nat.lt_succ_self _

/-- A node that was added is put in its place. -/
theorem Adds.places {t t' : Tree} (h : t.Adds t') {kids : NodeId → List NodeId}
    (hkids : Represents t kids) {p : NodeId} (hp : p < t.size) {form : Form}
    (hform : t'.ownForm? t.size = some form) :
    t.Places (t'.appendChild p t.size) p form := by
  have hkids' : Represents t' kids := hkids.congr h.follow
  have hchildren : ∀ q, t'.children q = t.children q := by
    intro q
    rw [hkids'.children_eq, hkids.children_eq]
  have horphan : t'.follow Node.parent t.size = none := by
    rw [h.follow Node.parent (by simp [links])]
    exact follow_of_not_lt (Nat.lt_irrefl _)
  have hleaf : t'.children t.size = [] := by
    rw [hchildren, hkids.children_eq, hkids.eq_nil (Nat.lt_irrefl _)]
  have hover : ¬ t'.Over t.size p := by
    intro hover
    rcases hover.cases_head with rfl | ⟨c, hc, -⟩
    · exact Nat.lt_irrefl _ hp
    · rw [Leads, ← hkids'.mem_children, hleaf] at hc
      cases hc
  have hatt : t'.Attachable p t.size := by
    rw [hkids'.attachable_iff, h.size]
    exact ⟨Nat.lt_succ_of_lt hp, Nat.lt_succ_self _, hover⟩
  have happends := hkids'.appends hatt
  have hother : ∀ q, q ≠ p → (t'.appendChild p t.size).children q = t.children q := by
    intro q hq
    have hparent : t'.follow Node.parent t.size ≠ some q := by
      rw [horphan]
      exact (Option.some_ne_none q).symm
    rw [happends.elsewhere q hparent hq, hchildren]
  have hown : ∀ i, (t'.appendChild p t.size).ownForm? i = t'.ownForm? i := happends.content.ownForm?
  have hsize' : (t'.appendChild p t.size).size = t'.size := by
    rw [appendChild_of_attachable hatt, size_link, size_detach]
  have hlast : (t'.appendChild p t.size).children p = t.children p ++ [t.size] := by
    rw [happends.children, hchildren, List.filter_eq_self.mpr]
    intro c hc
    rw [hkids.children_eq] at hc
    simpa using Nat.ne_of_lt (hkids.lt_size hc)
  exact {
    size := hsize'.trans h.size
    grows := {
      size := by rw [hsize', h.size]; exact Nat.le_succ _
      ownForm := fun i hi ↦ (hown i).trans (h.ownForm i hi)
      elsewhere := fun i _ hne ↦ hother i hne
      children := hlast }
    ownForm := (hown t.size).trans hform
    children := (hother t.size (Nat.ne_of_gt hp)).trans (by rw [← hchildren, hleaf]) }

section

variable {t : Tree} (h : t.Reachable) {p : NodeId} (hp : p < t.size)

include h hp

theorem places_text (text : String) :
    t.Places (t.build p (.text text)) p (.text text) := by
  obtain ⟨kids, hkids⟩ := h.exists_represents
  exact (adds_add h.named (.refl _) _).places hkids hp (ownForm?_add t _)

theorem places_comment (text : String) :
    t.Places (t.build p (.comment text)) p (.comment text) := by
  obtain ⟨kids, hkids⟩ := h.exists_represents
  exact (adds_add h.named (.refl _) _).places hkids hp (ownForm?_add t _)

theorem places_doctype (name : String) :
    t.Places (t.build p (.doctype name)) p (.doctype name) := by
  obtain ⟨kids, hkids⟩ := h.exists_represents
  have hform : (t.addDoctype name).2.ownForm? t.size = some (.doctype name) := by
    have hown := ownForm?_add (t.intern name).2 (.doctype (t.intern name).1)
    rw [Form.ofContent] at hown
    exact hown.trans (congrArg (some ∘ Form.doctype) (h.named.names.get_intern name))
  exact (adds_add h.named (t.names.extends_intern name) _).places hkids hp hform

/-- An element is complete with its attributes before its children are added. -/
theorem exists_places_element (tag : String) (attributes : List (String × String))
    (children : List Form) :
    ∃ t', t.Places t' p (.element (Text.lower tag)
        (attributes.foldl (fun l a ↦ putNamed a.1 a.2 l) []) []) ∧ t'.Reachable ∧
      t.build p (.element tag attributes children) = t'.buildAll t.size children := by
  obtain ⟨kids, hkids⟩ := h.exists_represents
  have hadded := h.apply (.addElement tag)
  have hform : (t.addElement tag).2.ownForm? t.size =
      some (.element (Text.lower tag) [] []) := by
    have hown := ownForm?_add (t.intern (Text.lower tag)).2
      (.element (.ofName (t.intern (Text.lower tag)).1))
    rw [Form.ofContent] at hown
    exact hown.trans (congrArg (fun name ↦ some (Form.element name [] []))
      (h.named.names.get_intern (Text.lower tag)))
  obtain ⟨hadds, hset⟩ := (adds_add h.named (t.names.extends_intern _) _).setAttributes hadded
    hform attributes
  exact ⟨_, hadds.places hkids hp hset,
    (hadded.setAttributes t.size attributes).apply (.appendChild p t.size), rfl⟩

end

/-- A tree that holds the document node alone is no edits away. -/
theorem reachable_new : new.Reachable := ⟨[], rfl⟩

end Tree

/-- Locating elements leaves the tree. -/
theorem Document.tree_finalize (d : Document) : d.finalize.tree = d.tree := by
  have hlocate : ∀ (children : List NodeId) (d : Document),
      (children.foldl Document.locate d).tree = d.tree := by
    intro children
    induction children with
    | nil => exact fun _ ↦ rfl
    | cons child rest ih =>
      intro d
      rw [List.foldl_cons, ih, Document.locate]
      split <;> rfl
  rw [Document.finalize]
  split
  · rfl
  · exact hlocate _ _

end StyleCheck.Dom
