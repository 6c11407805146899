import StyleCheck.Proofs.Dom.Lookup

/-!
# Located elements

A document notes where its `html`, `head` and `body` elements stand. The note of `html` is made anew
each time. The notes of the other two are replaced where there is something to note, and stay
otherwise, though the tree has changed. Main statement: what is noted after the elements of a
document were located, and that locating them again changes nothing.
-/

namespace StyleCheck.Dom

/-! ### Children with a tag -/

namespace Tree

/-- A child with a tag of a node that may be missing. -/
def TaggedChild (t : Tree) (p : Option NodeId) (tag : String) (c : NodeId) : Prop :=
  (∃ q, p = some q ∧ t.Leads Node.parent q c) ∧ t.tag? c = some tag

/-- No child with the tag stands before this one. -/
structure FirstTagged (t : Tree) (p : Option NodeId) (tag : String) (c : NodeId) : Prop where
  tagged : t.TaggedChild p tag c
  first : ∀ b, t.PrecedingSibling b c → t.tag? b ≠ some tag

/-- No child with the tag stands behind this one. -/
structure LastTagged (t : Tree) (p : Option NodeId) (tag : String) (c : NodeId) : Prop where
  tagged : t.TaggedChild p tag c
  last : ∀ b, t.PrecedingSibling c b → t.tag? b ≠ some tag

/-- The children with a tag in order. -/
def taggedChildren (t : Tree) (p : Option NodeId) (tag : String) : List NodeId :=
  (p.elim [] t.elementChildren).filter fun c ↦ t.tag? c == some tag

theorem isElement_of_tag? {t : Tree} {id : NodeId} {tag : String} (h : t.tag? id = some tag) :
    t.isElement id := by
  obtain ⟨e, he, -⟩ := Option.map_eq_some_iff.mp h
  rw [isElement, he, Option.isSome_some]

end Tree

/-- In an ordered list the first member is the one that none comes before. -/
private theorem head?_eq_some_iff_of_pairwise {α : Type} {R : α → α → Prop}
    (hasymm : ∀ a b, R a b → ¬ R b a) {l : List α} (hl : l.Pairwise R) {c : α} :
    l.head? = some c ↔ c ∈ l ∧ ∀ b ∈ l, ¬ R b c := by
  cases hl with
  | nil => simp
  | @cons a rest ha _ =>
    rw [List.head?_cons, Option.some_inj]
    constructor
    · rintro rfl
      refine ⟨List.mem_cons_self, fun b hb ↦ ?_⟩
      rcases List.mem_cons.mp hb with rfl | hb
      · exact fun hbb ↦ hasymm b b hbb hbb
      · exact hasymm a b (ha b hb)
    · rintro ⟨hc, hnone⟩
      rcases List.mem_cons.mp hc with rfl | hc
      · rfl
      · exact absurd (ha c hc) (hnone a List.mem_cons_self)

/-- In an ordered list the last member is the one that none comes behind. -/
private theorem getLast?_eq_some_iff_of_pairwise {α : Type} {R : α → α → Prop}
    (hasymm : ∀ a b, R a b → ¬ R b a) {l : List α} (hl : l.Pairwise R) {c : α} :
    l.getLast? = some c ↔ c ∈ l ∧ ∀ b ∈ l, ¬ R c b := by
  have hreverse : l.reverse.Pairwise (fun a b ↦ R b a) := List.pairwise_reverse.mpr hl
  rw [← List.head?_reverse,
    head?_eq_some_iff_of_pairwise (fun a b hba hab ↦ hasymm a b hab hba) hreverse]
  simp only [List.mem_reverse]

namespace Tree.Represents

variable {t : Tree} {kids : NodeId → List NodeId} (h : Represents t kids) {p : Option NodeId}
  {tag : String} {b c : NodeId}

include h

theorem mem_taggedChildren : c ∈ t.taggedChildren p tag ↔ t.TaggedChild p tag c := by
  rw [taggedChildren, List.mem_filter, beq_iff_eq, TaggedChild]
  refine and_congr_left fun htag ↦ ?_
  cases p with
  | none => simp
  | some q => simp [elementChildren, h.mem_children, isElement_of_tag? htag, Leads]

theorem not_precedingSibling_of_precedingSibling (hab : t.PrecedingSibling b c) :
    ¬ t.PrecedingSibling c b :=
  fun hba ↦ h.not_precedingSibling_self b (hab.trans hba)

private theorem pairwise_taggedChildren :
    (t.taggedChildren p tag).Pairwise t.PrecedingSibling := by
  apply List.Pairwise.filter
  cases p with
  | none => exact .nil
  | some q => exact (h.pairwise_precedingSibling_children q).filter _

/-- A sibling is a child with the tag if it has the tag. -/
private theorem taggedChild_iff_of_sibling
    (hbc : t.PrecedingSibling b c ∨ t.PrecedingSibling c b) (hc : t.TaggedChild p tag c) :
    t.TaggedChild p tag b ↔ t.tag? b = some tag := by
  obtain ⟨⟨q, hp, hqc⟩, -⟩ := hc
  refine ⟨And.right, fun htag ↦ ⟨⟨q, hp, ?_⟩, htag⟩⟩
  rcases hbc with hbc | hcb
  · obtain ⟨r, hrb, hrc⟩ := h.exists_parent_of_precedingSibling hbc
    obtain rfl : r = q := Option.some.inj (hrc.symm.trans hqc)
    exact hrb
  · obtain ⟨r, hrc, hrb⟩ := h.exists_parent_of_precedingSibling hcb
    obtain rfl : r = q := Option.some.inj (hrc.symm.trans hqc)
    exact hrb

theorem head?_taggedChildren :
    (t.taggedChildren p tag).head? = some c ↔ t.FirstTagged p tag c := by
  rw [head?_eq_some_iff_of_pairwise (fun _ _ ↦ h.not_precedingSibling_of_precedingSibling)
    h.pairwise_taggedChildren, h.mem_taggedChildren]
  constructor
  · rintro ⟨hc, hnone⟩
    refine ⟨hc, fun b hbc htag ↦ hnone b ?_ hbc⟩
    exact h.mem_taggedChildren.mpr ((h.taggedChild_iff_of_sibling (.inl hbc) hc).mpr htag)
  · rintro ⟨hc, hfirst⟩
    exact ⟨hc, fun b hb hbc ↦ hfirst b hbc (h.mem_taggedChildren.mp hb).2⟩

theorem getLast?_taggedChildren :
    (t.taggedChildren p tag).getLast? = some c ↔ t.LastTagged p tag c := by
  rw [getLast?_eq_some_iff_of_pairwise (fun _ _ ↦ h.not_precedingSibling_of_precedingSibling)
    h.pairwise_taggedChildren, h.mem_taggedChildren]
  constructor
  · rintro ⟨hc, hnone⟩
    refine ⟨hc, fun b hcb htag ↦ hnone b ?_ hcb⟩
    exact h.mem_taggedChildren.mpr ((h.taggedChild_iff_of_sibling (.inr hcb) hc).mpr htag)
  · rintro ⟨hc, hlast⟩
    exact ⟨hc, fun b hb hcb ↦ hlast b hcb (h.mem_taggedChildren.mp hb).2⟩

theorem taggedChildren_eq_nil : t.taggedChildren p tag = [] ↔ ∀ c, ¬ t.TaggedChild p tag c := by
  simp only [List.eq_nil_iff_forall_not_mem, h.mem_taggedChildren]

end Tree.Represents

/-! ### Notes -/

/-- The note that is left where some nodes were found behind one another: the last of them, or the
old note. -/
def renote (found : List NodeId) (old : Option NodeId) : Option NodeId := found.getLast?.or old

theorem renote_cons (c : NodeId) (found : List NodeId) (old : Option NodeId) :
    renote (c :: found) old = renote found (some c) := by
  rw [renote, renote, List.getLast?_cons]
  cases found.getLast? <;> rfl

theorem renote_renote (found : List NodeId) (old : Option NodeId) :
    renote found (renote found old) = renote found old := by
  rw [renote, renote]
  cases found.getLast? <;> rfl

namespace Document

/-- Going over children notes the last head and the last body of them. -/
theorem foldl_locate (children : List NodeId) (d : Document) :
    children.foldl locate d = { d with
      head := renote (children.filter fun c ↦ d.tree.tag? c == some "head") d.head
      body := renote (children.filter fun c ↦ d.tree.tag? c == some "body") d.body } := by
  induction children generalizing d with
  | nil => rfl
  | cons c rest ih =>
    rw [List.foldl_cons, ih]
    by_cases hhead : d.tree.tag? c = some "head"
    · simp [locate, hhead, renote_cons]
    · by_cases hbody : d.tree.tag? c = some "body"
      · simp [locate, hbody, renote_cons]
      · have hnone : d.locate c = d := by
          rw [locate]
          split
          · contradiction
          · contradiction
          · rfl
        simp [hnone, hhead, hbody]

/-- Locating notes the first `html` below the document node, and the last head and body below it. -/
theorem finalize_eq (d : Document) :
    let html := (d.tree.taggedChildren (some Tree.root) "html").head?
    d.finalize = { d with
      html := html
      head := renote (d.tree.taggedChildren html "head") d.head
      body := renote (d.tree.taggedChildren html "body") d.body } := by
  intro html
  have hhtml : html =
      (d.tree.elementChildren Tree.root).find? fun id ↦ d.tree.tag? id == some "html" :=
    List.head?_filter
  rw [finalize, ← hhtml]
  cases html with
  | none => rfl
  | some html => exact foldl_locate _ _

/-- What is located twice is located as once. -/
theorem finalize_finalize (d : Document) : d.finalize.finalize = d.finalize := by
  have hfinalize := d.finalize_eq
  have hagain := d.finalize.finalize_eq
  rw [tree_finalize] at hagain
  rw [hagain, hfinalize]
  simp only [renote_renote]

/-! ### Tags of what is noted -/

/-- What is noted are elements with the tags of the notes. -/
structure Tagged (d : Document) : Prop where
  html : ∀ c, d.html = some c → d.tree.tag? c = some "html"
  head : ∀ c, d.head = some c → d.tree.tag? c = some "head"
  body : ∀ c, d.body = some c → d.tree.tag? c = some "body"

private theorem tag?_of_renote {t : Tree} {p old : Option NodeId} {tag : String}
    (hold : ∀ c, old = some c → t.tag? c = some tag) (c : NodeId)
    (hc : renote (t.taggedChildren p tag) old = some c) : t.tag? c = some tag := by
  rcases Option.or_eq_some_iff.mp hc with hc | ⟨-, hc⟩
  · exact eq_of_beq (List.mem_filter.mp (List.mem_of_getLast? hc)).2
  · exact hold c hc

theorem Tagged.finalize {d : Document} (h : d.Tagged) : d.finalize.Tagged := by
  rw [finalize_eq]
  exact {
    html := fun c hc ↦ eq_of_beq (List.mem_filter.mp (List.mem_of_head? hc)).2
    head := tag?_of_renote h.head
    body := tag?_of_renote h.body }

theorem Reachable.tagged {d : Document} (hd : d.Reachable) : d.Tagged := by
  induction hd with
  | empty url => exact ⟨nofun, nofun, nofun⟩
  | blank url =>
    -- the address has no part in the tree
    let t := (Document.blank blankUrl).tree
    have htags : t.tag? 1 = some "html" ∧ t.tag? 2 = some "head" ∧ t.tag? 3 = some "body" := by
      decide +kernel
    constructor
    · rintro c ⟨⟩
      exact htags.1
    · rintro c ⟨⟩
      exact htags.2.1
    · rintro c ⟨⟩
      exact htags.2.2
  | parsed url node => exact Tagged.finalize ⟨nofun, nofun, nofun⟩
  | edited hd edit ih =>
    have hnamed := hd.tree.named
    exact {
      html := fun c hc ↦ hnamed.tag?_apply edit (ih.html c hc)
      head := fun c hc ↦ hnamed.tag?_apply edit (ih.head c hc)
      body := fun c hc ↦ hnamed.tag?_apply edit (ih.body c hc) }
  | finalized _ ih => exact ih.finalize

/-! ### What is noted after locating -/

/-- A note describes the tree: what is noted is a child of `html` with the tag. -/
def Describes (t : Tree) (html : Option NodeId) (tag : String) (note : Option NodeId) : Prop :=
  ∀ c, note = some c → t.TaggedChild html tag c

/-- A note as it is made after another: the last child of `html` with the tag, if there is one. If
there is none the old note stays, so that the note describes the tree only where there was none. -/
structure Renoted (t : Tree) (html : Option NodeId) (tag : String) (old note : Option NodeId) :
    Prop where
  found : (∃ c, t.TaggedChild html tag c) → ∃ c, note = some c ∧ t.LastTagged html tag c
  kept : (∀ c, ¬ t.TaggedChild html tag c) → note = old
  describes_iff : Describes t html tag note ↔ old = none ∨ ∃ c, t.TaggedChild html tag c
  tagged : ∀ c, note = some c → t.tag? c = some tag

theorem renoted_renote {t : Tree} {kids : NodeId → List NodeId} (h : Tree.Represents t kids)
    (html : Option NodeId) (tag : String) {old : Option NodeId}
    (hold : ∀ c, old = some c → t.tag? c = some tag) :
    Renoted t html tag old (renote (t.taggedChildren html tag) old) := by
  have hfound : (∃ c, t.TaggedChild html tag c) → ∃ c,
      renote (t.taggedChildren html tag) old = some c ∧ t.LastTagged html tag c := by
    rintro ⟨b, hb⟩
    cases hlast : (t.taggedChildren html tag).getLast? with
    | none =>
      rw [List.getLast?_eq_none_iff, h.taggedChildren_eq_nil] at hlast
      exact absurd hb (hlast b)
    | some c => exact ⟨c, by rw [renote, hlast, Option.some_or], h.getLast?_taggedChildren.mp hlast⟩
  have hkept : (∀ c, ¬ t.TaggedChild html tag c) →
      renote (t.taggedChildren html tag) old = old := by
    intro hnone
    rw [h.taggedChildren_eq_nil.mpr hnone]
    rfl
  refine ⟨hfound, hkept, ?_, tag?_of_renote hold⟩
  by_cases hchild : ∃ c, t.TaggedChild html tag c
  · obtain ⟨c, hc, hlast⟩ := hfound hchild
    rw [hc]
    refine iff_of_true ?_ (.inr hchild)
    rintro _ ⟨⟩
    exact hlast.tagged
  · rw [hkept (not_exists.mp hchild), or_iff_left hchild]
    constructor
    · intro hdescribes
      exact Option.eq_none_iff_forall_not_mem.mpr fun c hc ↦ hchild ⟨c, hdescribes c hc⟩
    · rintro rfl
      exact nofun

/-- After locating, the noted `html` is the first such element child of the document node, and it is
missing only where there is none. The noted head is the last one below `html`; where there is none
the note stays as it was, and so it is with the body. Hence a note describes the tree unless it is
an old one that nothing replaces, and then it is still an element with its tag. Locating again
changes nothing. -/
theorem renoted_finalize {d : Document} (hd : d.Reachable) :
    let t := d.tree
    let located := d.finalize
    located.tree = t ∧
      (∀ c, located.html = some c → t.FirstTagged (some Tree.root) "html" c) ∧
      (located.html = none → ∀ c, ¬ t.TaggedChild (some Tree.root) "html" c) ∧
      Renoted t located.html "head" d.head located.head ∧
      Renoted t located.html "body" d.body located.body ∧
      located.finalize = located := by
  intro t located
  obtain ⟨kids, h⟩ := hd.tree.exists_represents
  have htagged := hd.tagged
  have hlocated : located = _ := d.finalize_eq
  refine ⟨d.tree_finalize, ?_, ?_, ?_, ?_, d.finalize_finalize⟩
  · intro c hc
    rw [hlocated] at hc
    exact h.head?_taggedChildren.mp hc
  · intro hnone
    rw [hlocated] at hnone
    exact h.taggedChildren_eq_nil.mp (List.head?_eq_none_iff.mp hnone)
  · rw [hlocated]
    exact renoted_renote h _ "head" htagged.head
  · rw [hlocated]
    exact renoted_renote h _ "body" htagged.body

/-- A second head goes behind the body, which is taken out: the note of the head moves on, and that
of the body stays. -/
theorem renoted_finalize_second_head :
    let t := (((blank blankUrl).tree.apply (.addElement "HEAD")).apply (.appendChild 1 4)).apply
      (.detach 3)
    let d : Document := { blank blankUrl with tree := t }
    d.Reachable ∧ t.FirstTagged (some Tree.root) "html" 1 ∧
      d.finalize.head = some 4 ∧ t.LastTagged (some 1) "head" 4 ∧
      d.finalize.body = d.body ∧ ¬ Describes t (some 1) "body" d.finalize.body ∧
      d.finalize.finalize = d.finalize := by
  intro t d
  have hd : d.Reachable := .edited (.edited (.edited (.blank blankUrl) (.addElement "HEAD"))
    (.appendChild 1 4)) (.detach 3)
  have hhtml : d.finalize.html = some 1 := by decide +kernel
  have hsecond : d.finalize.head = some 4 := by decide +kernel
  have hbelow : ∀ c < t.size, t.follow Node.parent c = some 1 → t.tag? c ≠ some "body" := by
    decide +kernel
  obtain ⟨-, hfirst, -, hhead, hbody, hagain⟩ := renoted_finalize hd
  rw [hhtml] at hhead hbody
  have hnone : ∀ c, ¬ t.TaggedChild (some 1) "body" c := by
    rintro c ⟨⟨q, ⟨⟩, hparent⟩, htag⟩
    exact hbelow c (Tree.lt_size_of_follow hparent) hparent htag
  have hold : t.follow Node.parent 2 = some 1 := by decide +kernel
  have hchild : t.TaggedChild (some 1) "head" 4 :=
    hhead.describes_iff.mpr (.inr ⟨2, ⟨1, rfl, hold⟩, by decide +kernel⟩) 4 hsecond
  obtain ⟨c, hc, hlast⟩ := hhead.found ⟨4, hchild⟩
  obtain rfl : c = 4 := Option.some.inj (hc.symm.trans hsecond)
  refine ⟨hd, hfirst 1 hhtml, hsecond, hlast, hbody.kept hnone, ?_, hagain⟩
  rw [hbody.describes_iff]
  rintro (hold | ⟨c, hc⟩)
  · cases hold
  · exact hnone c hc

/-- A head that was taken out goes on being noted, and where there is no `html` any more so does the
body. -/
theorem notes_of_detached_elements :
    let d : Document := { blank blankUrl with tree := (blank blankUrl).tree.apply (.detach 2) }
    let located := d.finalize
    let bare : Document := { located with tree := located.tree.apply (.detach 1) }
    bare.Reachable ∧ located.html = some 1 ∧
      ¬ Describes located.tree located.html "head" located.head ∧ bare.finalize.html = none ∧
      ¬ Describes bare.tree bare.finalize.html "head" bare.finalize.head ∧
      ¬ Describes bare.tree bare.finalize.html "body" bare.finalize.body := by
  intro d located bare
  have hbare : bare.Reachable := .edited (.finalized (.edited (.blank blankUrl) (.detach 2)))
    (.detach 1)
  have hhtml : located.html = some 1 := by decide +kernel
  have hnone : bare.finalize.html = none := by decide +kernel
  rw [hhtml, hnone]
  refine ⟨hbare, rfl, ?_, rfl, ?_, ?_⟩
  · intro hdescribes
    obtain ⟨⟨q, ⟨⟩, hparent⟩, -⟩ := hdescribes 2 (by decide +kernel)
    revert hparent
    exact (by decide +kernel : ¬ located.tree.follow Node.parent 2 = some 1)
  · intro hdescribes
    obtain ⟨⟨q, ⟨⟩, -⟩, -⟩ := hdescribes 2 (by decide +kernel)
  · intro hdescribes
    obtain ⟨⟨q, ⟨⟩, -⟩, -⟩ := hdescribes 3 (by decide +kernel)

end Document

end StyleCheck.Dom
