import StyleCheck.Dom.Form
import StyleCheck.Proofs.Dom.Caches

/-!
# Names in use

Nodes refer to tags, document types and attributes by their places in the name table. Whatever names
are entered later, a node reads as it did; and read by names, an element's attributes change as a
list of names and values does.
-/

namespace StyleCheck.Dom

/-! ### Names of contents -/

/-- The places in the name table to which a content refers. -/
def Content.names : Content → List NameId
  | .doctype name => [name]
  | .element e => e.name :: e.attributes.map Prod.fst
  | _ => []

theorem Element.name_set (e : Element) (name : NameId) (spelling value : String) :
    (e.set name spelling value).name = e.name := by
  unfold set
  split
  · rfl
  · split <;> rfl

/-- A content with an attribute set, if it is an element. -/
def Content.set (name : NameId) (spelling value : String) : Content → Content
  | .element e => .element (e.set name spelling value)
  | content => content

/-- Setting an attribute refers to its name and to no other new one. -/
theorem Content.mem_names_set {content : Content} {name i : NameId} {spelling value : String}
    (hi : i ∈ (content.set name spelling value).names) : i = name ∨ i ∈ content.names := by
  cases content with
  | element e =>
    rw [set, names, Element.name_set, Element.attributes_set] at hi
    rcases List.mem_cons.mp hi with rfl | hi
    · exact .inr List.mem_cons_self
    · obtain ⟨a, ha, rfl⟩ := List.mem_map.mp hi
      rcases Element.mem_of_mem_putAttribute ha with rfl | ha
      · exact .inl rfl
      · exact .inr (List.mem_cons_of_mem _ (List.mem_map_of_mem ha))
  | _ => exact .inr hi

namespace Tree

/-- Setting an attribute changes the content of one node. -/
theorem content?_setAttribute (t : Tree) (id : NodeId) (name value : String) (j : NodeId) :
    (t.setAttribute id name value).content? j = (t.content? j).map fun content ↦
      if id = j then content.set (t.names.intern name).1 name value else content := by
  have hget : (t.intern name).2.get? j = t.get? j := rfl
  rw [content?, setAttribute, get?_update, hget, content?]
  cases t.get? j with
  | none => rfl
  | some node =>
    obtain ⟨_, _, _, _, _, content⟩ := node
    by_cases hid : id = j
    · simp only [Option.map_some, if_pos hid]
      cases content <;> rfl
    · simp only [Option.map_some, if_neg hid]

/-- The name table is faithful, and it has the names to which contents refer. -/
structure Named (t : Tree) : Prop where
  names : t.names.Faithful
  known : ∀ id content, t.content? id = some content → ∀ i ∈ content.names, i < t.names.size

namespace Named

variable {t : Tree} (h : t.Named)

include h

theorem of_sameContent {t' : Tree} (hsame : t.SameContent t') : t'.Named where
  names := hsame.1 ▸ h.names
  known := by
    intro id content hcontent i hi
    rw [hsame.2] at hcontent
    rw [hsame.1]
    exact h.known id content hcontent i hi

theorem intern (name : String) : (t.intern name).2.Named where
  names := h.names.intern name
  known := fun id content hcontent i hi ↦
    Nat.lt_of_lt_of_le (h.known id content hcontent i hi) (t.names.extends_intern name).1

theorem add {content : Content} (hnew : ∀ i ∈ content.names, i < t.names.size) :
    (t.add content).2.Named where
  names := h.names
  known := by
    intro id content' hcontent i hi
    rw [content?_add] at hcontent
    split at hcontent
    · cases hcontent
      exact hnew i hi
    · exact h.known id content' hcontent i hi

theorem setAttribute (id : NodeId) (name value : String) :
    (t.setAttribute id name value).Named where
  names := h.names.intern name
  known := by
    intro j content hcontent i hi
    rw [content?_setAttribute, Option.map_eq_some_iff] at hcontent
    obtain ⟨old, hold, rfl⟩ := hcontent
    have hold' : ∀ i ∈ old.names, i < (t.names.intern name).2.size := fun i hi ↦
      Nat.lt_of_lt_of_le (h.known j old hold i hi) (t.names.extends_intern name).1
    split at hi
    · rcases Content.mem_names_set hi with rfl | hi
      · exact h.names.intern_lt_size name
      · exact hold' i hi
    · exact hold' i hi

/-- Every edit leaves contents with names of the table. -/
theorem apply (edit : Edit) : (t.apply edit).Named := by
  cases edit with
  | addElement tag =>
    refine (h.intern (Text.lower tag)).add fun i hi ↦ ?_
    rw [List.mem_singleton.mp hi]
    exact h.names.intern_lt_size (Text.lower tag)
  | addText text => exact h.add nofun
  | addComment text => exact h.add nofun
  | addDoctype name =>
    refine (h.intern name).add fun i hi ↦ ?_
    rw [List.mem_singleton.mp hi]
    exact h.names.intern_lt_size name
  | setAttribute id name value => exact h.setAttribute id name value
  | appendChild p c => exact h.of_sameContent (sameContent_appendChild t p c)
  | detach d => exact h.of_sameContent (sameContent_detach t d)

end Named

theorem named_new : new.Named where
  names := Names.faithful_initial
  known := by
    intro id content hcontent i hi
    cases id with
    | zero =>
      cases hcontent
      cases hi
    | succ id => cases hcontent

/-- Whatever the edits, contents have names of the table. -/
theorem named_ofEdits (edits : List Edit) : (ofEdits edits).Named :=
  ofEdits_induction named_new (fun _ edit h ↦ h.apply edit) edits

end Tree

/-! ### The form of a node alone -/

/-- The attributes of an element under their names. -/
def Element.listed (e : Element) (n : Names) : List (String × String) :=
  e.attributes.map fun a ↦ (n.get a.1, a.2)

/-- A content written down with its names. -/
def Form.ofContent (n : Names) : Content → Form
  | .document => .document
  | .doctype name => .doctype (n.get name)
  | .text written => .text written
  | .comment written => .comment written
  | .element e => .element (n.get e.name) (e.listed n) []

namespace Tree

/-- The form of a node without what is below it. -/
def ownForm? (t : Tree) (id : NodeId) : Option Form :=
  (t.content? id).map (Form.ofContent t.names)

theorem ownForm?_add (t : Tree) (content : Content) :
    (t.add content).2.ownForm? t.size = some (.ofContent t.names content) := by
  rw [ownForm?, content?_add, if_pos rfl]
  rfl

theorem SameContent.ownForm? {t t' : Tree} (h : t.SameContent t') (id : NodeId) :
    t'.ownForm? id = t.ownForm? id := by
  rw [Tree.ownForm?, h.2, h.1, Tree.ownForm?]

variable {t : Tree} (h : t.Named)

include h

/-- A node that keeps its content reads as it did, whatever names are added. -/
theorem Named.ownForm?_eq {t' : Tree} (hnames : t.names.Extends t'.names) {id : NodeId}
    (hcontent : t'.content? id = t.content? id) : t'.ownForm? id = t.ownForm? id := by
  rw [ownForm?, hcontent, ownForm?]
  cases hc : t.content? id with
  | none => rfl
  | some content =>
    have hget : ∀ i ∈ content.names, t'.names.get i = t.names.get i :=
      fun i hi ↦ hnames.2 i (h.known id content hc i hi)
    refine congrArg some ?_
    cases content with
    | doctype name => rw [Form.ofContent, hget name List.mem_cons_self, Form.ofContent]
    | element e =>
      have hlisted : e.listed t'.names = e.listed t.names := by
        refine List.map_congr_left fun a ha ↦ ?_
        rw [hget a.1 (List.mem_cons_of_mem _ (List.mem_map_of_mem ha))]
      rw [Form.ofContent, hget e.name List.mem_cons_self, hlisted, Form.ofContent]
    | _ => rfl

end Tree

/-! ### Tags -/

namespace Tree

variable {t : Tree}

theorem element?_add (content : Content) {id : NodeId} (hid : id < t.size) :
    (t.add content).2.element? id = t.element? id := by
  ext e
  rw [element?_eq_some_iff, element?_eq_some_iff, content?_add, if_neg (Nat.ne_of_lt hid)]

theorem lt_size_of_element? {id : NodeId} {e : Element} (he : t.element? id = some e) :
    id < t.size := by
  obtain ⟨node, hn, -⟩ := Option.bind_eq_some_iff.mp he
  exact lt_size_of_get? hn

/-- Names stand where they stood after every edit. -/
theorem extends_apply (t : Tree) (edit : Edit) : t.names.Extends (t.apply edit).names := by
  cases edit with
  | addElement tag => exact t.names.extends_intern (Text.lower tag)
  | addText text => exact .refl t.names
  | addComment text => exact .refl t.names
  | addDoctype name => exact t.names.extends_intern name
  | setAttribute id name value => exact t.names.extends_intern name
  | appendChild p c =>
    have hsame : (t.apply (.appendChild p c)).names = t.names := (sameContent_appendChild t p c).1
    rw [hsame]
    exact .refl t.names
  | detach d =>
    have hsame : (t.apply (.detach d)).names = t.names := (sameContent_detach t d).1
    rw [hsame]
    exact .refl t.names

/-- An element goes on being one under the name that it was made with. -/
theorem exists_element?_apply (edit : Edit) {id : NodeId} {e : Element}
    (he : t.element? id = some e) :
    ∃ e', (t.apply edit).element? id = some e' ∧ e'.name = e.name := by
  have hlt := lt_size_of_element? he
  cases edit with
  | setAttribute j name value =>
    have hset := element?_setAttribute (t := t) j name value id
    rw [he, Option.map_some] at hset
    refine ⟨_, hset, ?_⟩
    split
    · exact e.name_set _ name value
    · rfl
  | appendChild p c => exact ⟨e, ((sameContent_appendChild t p c).element? id).trans he, rfl⟩
  | detach d => exact ⟨e, ((sameContent_detach t d).element? id).trans he, rfl⟩
  | _ => exact ⟨e, (element?_add _ hlt).trans he, rfl⟩

/-- An element keeps its tag whatever is edited. -/
theorem Named.tag?_apply (h : t.Named) (edit : Edit) {id : NodeId} {tag : String}
    (htag : t.tag? id = some tag) : (t.apply edit).tag? id = some tag := by
  obtain ⟨e, he, hget⟩ := Option.map_eq_some_iff.mp htag
  obtain ⟨e', he', hname⟩ := exists_element?_apply edit he
  have hlt : e.name < t.names.size :=
    h.known id _ (element?_eq_some_iff.mp he) e.name List.mem_cons_self
  rw [tag?, he', Option.map_some, hname, (extends_apply t edit).2 _ hlt, hget]

end Tree

/-! ### Setting an attribute by its name -/

/-- Give a listed name its value in place, or list a new one last. -/
def putNamed (name value : String) : List (String × String) → List (String × String)
  | [] => [(name, value)]
  | (n, v) :: rest =>
    if n = name then (name, value) :: rest else (n, v) :: putNamed name value rest

/-- Where one place stands for a name and no other one does, values are set by name. -/
private theorem listed_putAttribute {n : Names} {i : NameId} {name : String}
    (hname : n.get i = name) (value : String) (attributes : List (NameId × String))
    (honly : ∀ a ∈ attributes, n.get a.1 = name → a.1 = i) :
    (Element.putAttribute i value attributes).map (fun a ↦ (n.get a.1, a.2)) =
      putNamed name value (attributes.map fun a ↦ (n.get a.1, a.2)) := by
  induction attributes with
  | nil => rw [Element.putAttribute, List.map_singleton, hname, List.map_nil, putNamed]
  | cons a rest ih =>
    obtain ⟨j, v⟩ := a
    rw [Element.putAttribute, List.map_cons, putNamed]
    by_cases hj : j = i
    · subst hj
      rw [if_pos rfl, if_pos hname, List.map_cons, hname]
    · have hne : n.get j ≠ name := mt (honly (j, v) List.mem_cons_self) hj
      rw [if_neg hj, if_neg hne, List.map_cons,
        ih fun a ha ↦ honly a (List.mem_cons_of_mem _ ha)]

namespace Tree

variable {t : Tree} (h : t.Named)

include h

/-- Setting an attribute of an element sets the value under its name. -/
theorem Named.ownForm?_setAttribute {id : NodeId} {tag : String}
    {attributes : List (String × String)}
    (hform : t.ownForm? id = some (.element tag attributes [])) (name value : String) :
    (t.setAttribute id name value).ownForm? id =
      some (.element tag (putNamed name value attributes) []) := by
  obtain ⟨content, hc, hof⟩ := Option.map_eq_some_iff.mp hform
  cases content with
  | element e =>
    cases hof
    have hknown := h.known id _ hc
    have hextends := t.names.extends_intern name
    have hlisted : e.listed (t.names.intern name).2 = e.listed t.names := by
      refine List.map_congr_left fun a ha ↦ ?_
      rw [hextends.2 a.1 (hknown a.1 (List.mem_cons_of_mem _ (List.mem_map_of_mem ha)))]
    have honly : ∀ a ∈ e.attributes, (t.names.intern name).2.get a.1 = name →
        a.1 = (t.names.intern name).1 := by
      intro a ha hget
      have hlt := hknown a.1 (List.mem_cons_of_mem _ (List.mem_map_of_mem ha))
      refine (h.names.intern name).eq_of_get_eq (Nat.lt_of_lt_of_le hlt hextends.1)
        (h.names.intern_lt_size name) ?_
      rw [hget, h.names.get_intern]
    have hset : (t.setAttribute id name value).ownForm? id =
        some (Form.ofContent (t.names.intern name).2
          (.element (e.set (t.names.intern name).1 name value))) := by
      rw [ownForm?, content?_setAttribute, hc, Option.map_some, if_pos rfl]
      rfl
    rw [hset, Form.ofContent, Element.name_set, hextends.2 e.name (hknown _ List.mem_cons_self),
      ← hlisted, Element.listed, Element.attributes_set,
      listed_putAttribute (h.names.get_intern name) value e.attributes honly, Element.listed]
  | _ => cases hof

end Tree

/-! ### Repeated names -/

/-- A list has each name of another one once, at its first place and with its last value. -/
structure Merged (source listed : List (String × String)) : Prop where
  names : listed.map Prod.fst = (source.map Prod.fst).eraseDups
  values : ∀ a ∈ listed, source.reverse.lookup a.1 = some a.2

/-- A listed name keeps its place, and a new one goes last. -/
private theorem map_fst_putNamed (name value : String) (listed : List (String × String)) :
    (putNamed name value listed).map Prod.fst =
      if name ∈ listed.map Prod.fst then listed.map Prod.fst
      else listed.map Prod.fst ++ [name] := by
  induction listed with
  | nil => rfl
  | cons a rest ih =>
    obtain ⟨n, v⟩ := a
    by_cases hn : n = name
    · subst hn
      simp [putNamed]
    · have hname : name ≠ n := Ne.symm hn
      simp only [putNamed, if_neg hn, List.map_cons, ih, List.mem_cons, hname, false_or]
      split <;> rfl

/-- Where no name is listed twice, other names keep their values. -/
private theorem mem_putNamed {name value : String} {listed : List (String × String)}
    (hnodup : (listed.map Prod.fst).Nodup) {a : String × String}
    (ha : a ∈ putNamed name value listed) : a = (name, value) ∨ a ∈ listed ∧ a.1 ≠ name := by
  induction listed with
  | nil => exact .inl (List.mem_singleton.mp ha)
  | cons b rest ih =>
    obtain ⟨n, v⟩ := b
    obtain ⟨hnew, hrest⟩ := List.nodup_cons.mp hnodup
    by_cases hn : n = name
    · subst hn
      rw [putNamed, if_pos rfl] at ha
      refine (List.mem_cons.mp ha).imp_right fun ha ↦ ⟨List.mem_cons_of_mem _ ha, ?_⟩
      exact fun heq ↦ hnew (List.mem_map.mpr ⟨a, ha, heq⟩)
    · rw [putNamed, if_neg hn] at ha
      rcases List.mem_cons.mp ha with rfl | ha
      · exact .inr ⟨List.mem_cons_self, hn⟩
      · exact (ih hrest ha).imp_right fun h ↦ ⟨List.mem_cons_of_mem _ h.1, h.2⟩

/-- No name comes to be listed twice. -/
theorem nodup_putNamed {name value : String} {listed : List (String × String)}
    (hnodup : (listed.map Prod.fst).Nodup) : ((putNamed name value listed).map Prod.fst).Nodup := by
  rw [map_fst_putNamed]
  split
  · exact hnodup
  next hnew =>
    refine List.nodup_append.mpr ⟨hnodup, List.nodup_cons.mpr ⟨List.not_mem_nil, .nil⟩, ?_⟩
    intro n hn n' hn' heq
    rw [List.mem_singleton.mp hn'] at heq
    exact hnew (heq ▸ hn)

/-- One more name and value keep the list merged. -/
private theorem Merged.put {source listed : List (String × String)} (h : Merged source listed)
    (hnodup : (listed.map Prod.fst).Nodup) (name value : String) :
    Merged (source ++ [(name, value)]) (putNamed name value listed) := by
  have hmem : name ∈ listed.map Prod.fst ↔ name ∈ source.map Prod.fst := by
    rw [h.names, List.mem_eraseDups]
  refine ⟨?_, ?_⟩
  · rw [map_fst_putNamed, List.map_append, List.map_singleton, List.eraseDups_append, ← h.names]
    by_cases hknown : name ∈ source.map Prod.fst
    · rw [if_pos (hmem.mpr hknown)]
      simp [List.removeAll, hknown]
    · rw [if_neg (mt hmem.mp hknown)]
      simp [List.removeAll, hknown, List.eraseDups_cons]
  · intro a ha
    rw [List.reverse_concat, List.lookup_cons]
    rcases mem_putNamed hnodup ha with rfl | ⟨ha, hne⟩
    · rw [beq_self_eq_true]
    · rw [beq_eq_false_iff_ne.mpr hne]
      exact h.values a ha

/-- Setting attributes one after the other lists each name once, at its first place and with its
last value. -/
theorem merged_foldl_putNamed (source : List (String × String)) :
    Merged source (source.foldl (fun listed a ↦ putNamed a.1 a.2 listed) []) := by
  suffices hrun : ∀ rest done listed : List (String × String), Merged done listed →
      (listed.map Prod.fst).Nodup →
      Merged (done ++ rest) (rest.foldl (fun listed a ↦ putNamed a.1 a.2 listed) listed) by
    exact hrun source [] [] ⟨rfl, nofun⟩ .nil
  intro rest
  induction rest with
  | nil =>
    intro done listed h _
    rwa [List.append_nil]
  | cons a rest ih =>
    intro done listed h hnodup
    rw [List.append_cons]
    exact ih _ _ (h.put hnodup a.1 a.2) (nodup_putNamed hnodup)

end StyleCheck.Dom
