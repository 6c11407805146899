import StyleCheck.Html.Node
import StyleCheck.Proofs.Dom.Building

/-!
# Copies of parsed markup

What a document made of a parsed tree looks like. The nodes of the copy are numbered in document
order, so what a list of nodes adds stands in one run of places. Main statement: the whole document
is such a copy, and it holds nothing else.
-/

namespace StyleCheck.Html

open Dom (Form Merged NodeId Tree putNamed)

/-! ### Copies -/

/-- Instructions and texts of white space alone are left out of a copy. -/
inductive Node.LeftOut : Node → Prop
  | instruction (text : String) : LeftOut (.instruction text)
  | blank {text : String} (space : ∀ c ∈ text.toList, Text.isSpace c) : LeftOut (.text text)

/-- Other texts, comments and document types have a node of the same form in a copy. -/
inductive Node.Kept : Node → Form → Prop
  | text {text : String} (visible : ∃ c ∈ text.toList, ¬ Text.isSpace c) :
      Kept (.text text) (.text text)
  | comment (text : String) : Kept (.comment text) (.comment text)
  | doctype (name : String) : Kept (.doctype name) (.doctype name)

/-- Nodes were copied into a tree, to the places from `n` on and below `m`. Those on top of the copy
are listed. -/
inductive Copied (t : Tree) : NodeId → List Node → List NodeId → NodeId → Prop
  | nil {n : NodeId} : Copied t n [] [] n
  | leftOut {n m : NodeId} {node : Node} {rest : List Node} {tops : List NodeId}
      (out : node.LeftOut) (more : Copied t n rest tops m) : Copied t n (node :: rest) tops m
  /-- A document within is opened up. -/
  | document {n k m : NodeId} {children rest : List Node} {inner outer : List NodeId}
      (opened : Copied t n children inner k) (more : Copied t k rest outer m) :
      Copied t n (.document children :: rest) (inner ++ outer) m
  | leaf {n m : NodeId} {node : Node} {form : Form} {rest : List Node} {tops : List NodeId}
      (kept : node.Kept form) (own : t.ownForm? n = some form) (below : t.children n = [])
      (more : Copied t (n + 1) rest tops m) : Copied t n (node :: rest) (n :: tops) m
  /-- An element has its tag lowered, its attributes merged, and its children below it. -/
  | element {n k m : NodeId} {name : String} {attributes listed : List (String × String)}
      {children rest : List Node} {tops : List NodeId}
      (own : t.ownForm? n = some (.element (Text.lower name) listed []))
      (merged : Merged attributes listed) (below : Copied t (n + 1) children (t.children n) k)
      (more : Copied t k rest tops m) :
      Copied t n (.element name attributes children :: rest) (n :: tops) m

/-- The places from `n` on and below `m`. -/
private def span (n m : Nat) : List Nat := List.range' n (m - n)

private theorem span_cons {n m : Nat} (h : n < m) : span n m = n :: span (n + 1) m := by
  have hlength : m - n = (m - (n + 1)) + 1 := by omega
  rw [span, hlength, List.range'_succ, span]

private theorem span_append {n k m : Nat} (hnk : n ≤ k) (hkm : k ≤ m) :
    span n k ++ span k m = span n m := by
  have hlength : m - n = (k - n) + (m - k) := by omega
  have hstart : k = n + (k - n) := by omega
  rw [span, span, span, hlength, ← List.range'_append_1, ← hstart]

namespace Copied

variable {t : Tree} {n m : NodeId} {nodes : List Node} {tops : List NodeId}

theorem le (h : Copied t n nodes tops m) : n ≤ m := by
  induction h with
  | nil => exact Nat.le_refl _
  | leftOut _ _ ih => exact ih
  | document _ _ ih ih' => exact Nat.le_trans ih ih'
  | leaf _ _ _ _ ih => exact Nat.le_of_succ_le ih
  | element _ _ _ _ ih ih' => exact Nat.le_trans (Nat.le_of_succ_le ih) ih'

/-- A copy stays one as long as its nodes keep their forms and their children. -/
theorem mono {t' : Tree} (h : Copied t n nodes tops m)
    (hsame : ∀ i, n ≤ i → i < m →
      t'.ownForm? i = t.ownForm? i ∧ t'.children i = t.children i) :
    Copied t' n nodes tops m := by
  induction h with
  | nil => exact .nil
  | leftOut out _ ih => exact .leftOut out (ih hsame)
  | document opened more ih ih' =>
    have hnk := opened.le
    have hkm := more.le
    exact .document (ih fun i hi hik ↦ hsame i hi (Nat.lt_of_lt_of_le hik hkm))
      (ih' fun i hi him ↦ hsame i (Nat.le_trans hnk hi) him)
  | @leaf n m _ _ _ _ kept own below more ih =>
    obtain ⟨hform, hchildren⟩ := hsame n (Nat.le_refl _) more.le
    exact .leaf kept (hform.trans own) (hchildren.trans below)
      (ih fun i hi him ↦ hsame i (Nat.le_of_succ_le hi) him)
  | @element n k m _ _ _ children _ _ own merged below more ih ih' =>
    have hnk := below.le
    have hkm := more.le
    obtain ⟨hform, hchildren⟩ := hsame n (Nat.le_refl _) (Nat.lt_of_lt_of_le hnk hkm)
    have below' : Copied t' (n + 1) children (t'.children n) k := by
      rw [hchildren]
      exact ih fun i hi hik ↦ hsame i (Nat.le_of_succ_le hi) (Nat.lt_of_lt_of_le hik hkm)
    exact .element (hform.trans own) merged below'
      (ih' fun i hi him ↦ hsame i (Nat.le_trans (Nat.le_of_succ_le hnk) hi) him)

/-- The loop over the nodes on top of a copy reads off its places in order. -/
theorem drained (h : Copied t n nodes tops m) : t.Drained tops (List.range' n (m - n)) := by
  show t.Drained tops (span n m)
  induction h with
  | @nil n =>
    rw [span, Nat.sub_self]
    exact .done
  | leftOut _ _ ih => exact ih
  | document opened more ih ih' =>
    rw [← span_append opened.le more.le]
    exact ih.append ih'
  | leaf _ _ below more ih =>
    rw [span_cons more.le]
    refine .step ?_
    rwa [below, List.nil_append]
  | element _ _ below more ih ih' =>
    have hnk := below.le
    have hkm := more.le
    rw [span_cons (Nat.lt_of_lt_of_le hnk hkm), ← span_append hnk hkm]
    exact .step (ih.append ih')

end Copied

/-! ### Building -/

private theorem leftOut_or_kept (text : String) :
    Node.isBlankText text ∧ (Node.text text).LeftOut ∨
      ¬ Node.isBlankText text ∧ (Node.text text).Kept (.text text) := by
  have hblank : Node.isBlankText text ↔ ∀ c ∈ text.toList, Text.isSpace c := List.all_eq_true
  by_cases h : Node.isBlankText text
  · exact .inl ⟨h, .blank (hblank.mp h)⟩
  · refine .inr ⟨h, .text ?_⟩
    rw [hblank] at h
    simpa using h

section

variable {t t₁ t₂ : Tree} {p : NodeId} (hp : p < t.size) {rest : List Node}
  {tops : List NodeId}

include hp

/-- Growth at `p` leaves a copy as it is that was made later than `p`. -/
private theorem Copied.of_grows {n m : NodeId} {nodes : List Node} {below : List NodeId}
    (h : Copied t₁ n nodes below m) (hn : t.size ≤ n) (hm : m ≤ t₁.size)
    (hgrows : t₁.Grows t₂ p tops) : Copied t₂ n nodes below m := by
  refine h.mono fun i hi him ↦ ?_
  have hlt : i < t₁.size := Nat.lt_of_lt_of_le him hm
  have hne : i ≠ p := Nat.ne_of_gt (Nat.lt_of_lt_of_le hp (Nat.le_trans hn hi))
  exact ⟨hgrows.ownForm i hlt, hgrows.elsewhere i hlt hne⟩

/-- A node that was put in its place stays there as more is added behind it. -/
private theorem places_grows {form : Form} (hplaces : t.Places t₁ p form)
    (hgrows : t₁.Grows t₂ p tops) :
    t₂.ownForm? t.size = some form ∧ t₂.children t.size = [] := by
  rw [hgrows.ownForm _ hplaces.lt_size, hgrows.elsewhere _ hplaces.lt_size (Nat.ne_of_gt hp)]
  exact ⟨hplaces.ownForm, hplaces.children⟩

private theorem copied_leaf {node : Node} {form : Form} (hkept : node.Kept form)
    (hplaces : t.Places t₁ p form)
    (hrest : t₁.Grows t₂ p tops ∧ Copied t₂ t₁.size rest tops t₂.size) :
    t.Grows t₂ p (t.size :: tops) ∧
      Copied t₂ t.size (node :: rest) (t.size :: tops) t₂.size := by
  obtain ⟨hgrows, hcopied⟩ := hrest
  obtain ⟨hown, hbelow⟩ := places_grows hp hplaces hgrows
  rw [hplaces.size] at hcopied
  exact ⟨hplaces.grows.trans hgrows, .leaf hkept hown hbelow hcopied⟩

/-- An element was put in its place, then its children below it, then more behind it. -/
private theorem copied_element {t₃ : Tree} {name : String}
    {attributes : List (String × String)} {children : List Node} {kids : List NodeId}
    (hplaces : t.Places t₁ p (.element (Text.lower name)
      (attributes.foldl (fun listed a ↦ putNamed a.1 a.2 listed) []) []))
    (hkids : t₁.Grows t₂ t.size kids) (hbelow : Copied t₂ t₁.size children kids t₂.size)
    (hgrows : t₂.Grows t₃ p tops) (hmore : Copied t₃ t₂.size rest tops t₃.size) :
    t.Grows t₃ p (t.size :: tops) ∧
      Copied t₃ t.size (.element name attributes children :: rest) (t.size :: tops)
        t₃.size := by
  have hplaced := hplaces.grows.below hp (Nat.le_refl _) hkids
  have hlt : t.size < t₂.size := Nat.lt_of_lt_of_le hplaces.lt_size hkids.size
  have hown : t₃.ownForm? t.size = some (.element (Text.lower name)
      (attributes.foldl (fun listed a ↦ putNamed a.1 a.2 listed) []) []) := by
    rw [hgrows.ownForm _ hlt, hkids.ownForm _ hplaces.lt_size, hplaces.ownForm]
  have hchildren : t₃.children t.size = kids := by
    rw [hgrows.elsewhere _ hlt (Nat.ne_of_gt hp), hkids.children, hplaces.children,
      List.nil_append]
  have hbelow' : Copied t₃ (t.size + 1) children (t₃.children t.size) t₂.size := by
    rw [hchildren, ← hplaces.size]
    exact hbelow.of_grows hp hplaces.grows.size (Nat.le_refl _) hgrows
  exact ⟨hplaced.trans hgrows,
    .element hown (Dom.merged_foldl_putNamed attributes) hbelow' hmore⟩

end

/-- The forms of parsed nodes, built below a node that was there, are a copy of them. -/
theorem exists_copied_buildAll {t : Tree} (ht : t.Reachable) {p : NodeId} (hp : p < t.size) :
    (nodes : List Node) → ∃ tops, t.Grows (t.buildAll p (Node.formsOfAll nodes)) p tops ∧
      Copied (t.buildAll p (Node.formsOfAll nodes)) t.size nodes tops
        (t.buildAll p (Node.formsOfAll nodes)).size
  | [] => ⟨[], .refl t p, .nil⟩
  | .document children :: rest => by
    obtain ⟨inner, hinner, hopened⟩ := exists_copied_buildAll ht hp children
    obtain ⟨outer, houter, hmore⟩ := exists_copied_buildAll (ht.buildAll p _)
      (Nat.lt_of_lt_of_le hp hinner.size) rest
    rw [Node.formsOfAll, Node.forms, Tree.buildAll_append]
    exact ⟨inner ++ outer, hinner.trans houter,
      .document (hopened.of_grows hp (Nat.le_refl _) (Nat.le_refl _) houter) hmore⟩
  | .instruction text :: rest => by
    obtain ⟨tops, hgrows, hmore⟩ := exists_copied_buildAll ht hp rest
    exact ⟨tops, hgrows, .leftOut (.instruction text) hmore⟩
  | .text text :: rest => by
    rw [Node.formsOfAll, Node.forms]
    rcases leftOut_or_kept text with ⟨hblank, hout⟩ | ⟨hblank, hkept⟩
    · obtain ⟨tops, hgrows, hmore⟩ := exists_copied_buildAll ht hp rest
      rw [if_pos hblank]
      exact ⟨tops, hgrows, .leftOut hout hmore⟩
    · have hplaces := Tree.places_text ht hp text
      obtain ⟨tops, hrest⟩ := exists_copied_buildAll (ht.build p (.text text))
        (Nat.lt_of_lt_of_le hp hplaces.grows.size) rest
      rw [if_neg hblank]
      exact ⟨_, copied_leaf hp hkept hplaces hrest⟩
  | .comment text :: rest => by
    have hplaces := Tree.places_comment ht hp text
    obtain ⟨tops, hrest⟩ := exists_copied_buildAll (ht.build p (.comment text))
      (Nat.lt_of_lt_of_le hp hplaces.grows.size) rest
    exact ⟨_, copied_leaf hp (.comment text) hplaces hrest⟩
  | .doctype name :: rest => by
    have hplaces := Tree.places_doctype ht hp name
    obtain ⟨tops, hrest⟩ := exists_copied_buildAll (ht.build p (.doctype name))
      (Nat.lt_of_lt_of_le hp hplaces.grows.size) rest
    exact ⟨_, copied_leaf hp (.doctype name) hplaces hrest⟩
  | .element name attributes children :: rest => by
    obtain ⟨t₁, hplaces, ht₁, hbuild⟩ :=
      Tree.exists_places_element ht hp name attributes (Node.formsOfAll children)
    obtain ⟨kids, hkids, hbelow⟩ := exists_copied_buildAll ht₁ hplaces.lt_size children
    have hplaced := hplaces.grows.below hp (Nat.le_refl _) hkids
    obtain ⟨tops, hgrows, hmore⟩ := exists_copied_buildAll (ht₁.buildAll t.size _)
      (Nat.lt_of_lt_of_le hp hplaced.size) rest
    rw [Node.formsOfAll, Node.forms, List.singleton_append, Tree.buildAll, hbuild]
    exact ⟨_, copied_element hp hplaces hkids hbelow hgrows hmore⟩

/-! ### Documents -/

theorem Node.tree_toDocument (url : String) (node : Node) :
    (node.toDocument url).tree = Tree.new.buildAll Tree.root (Node.formsOfAll [node]) := by
  rw [Node.toDocument, Dom.Document.tree_finalize, Node.formsOfAll, Node.formsOfAll,
    List.append_nil]
  rfl

/-- A document made of a parsed tree is a copy of it and nothing else: its links agree, and its
nodes are numbered in document order. -/
theorem toDocument_copied (url : String) (node : Node) :
    let t := (node.toDocument url).tree
    t.WellFormed ∧ t.ownForm? Tree.root = some .document ∧
      Copied t 1 [node] (t.children Tree.root) t.size ∧
      t.descendants Tree.root = List.range' 1 (t.size - 1) := by
  intro t
  have ht : t = Tree.new.buildAll Tree.root (Node.formsOfAll [node]) := node.tree_toDocument url
  obtain ⟨tops, hgrows, hcopied⟩ :=
    exists_copied_buildAll Tree.reachable_new (p := Tree.root) Nat.one_pos [node]
  rw [← ht] at hgrows hcopied
  have htops : t.children Tree.root = tops := by
    rw [hgrows.children, Dom.Tree.represents_new.children_eq, List.nil_append]
  have hlength : (List.range' 1 (t.size - 1)).length ≤ t.size := by
    rw [List.length_range']
    exact Nat.sub_le _ _
  have hreachable : t.Reachable := ht ▸ Tree.reachable_new.buildAll Tree.root _
  obtain ⟨kids, hkids⟩ := hreachable.exists_represents
  refine ⟨hkids.wellFormed, hgrows.ownForm Tree.root Nat.one_pos, ?_, ?_⟩
  · rwa [htops]
  · rw [Tree.descendants, htops]
    exact hcopied.drained.drain_eq hlength

example :
    let t := ((Node.document [.doctype "html", .instruction "x", .document [.text " \n",
      .element "P" [("id", "a"), ("lang", "en"), ("id", "b")] [.text " x"]],
      .comment "c"]).toDocument "").tree
    t.descendants Tree.root = [1, 2, 3, 4] ∧ t.children 2 = [3] ∧ t.tag? 2 = some "p" ∧
      t.attribute? 2 "id" = some "b" := by
  decide +kernel

end StyleCheck.Html
