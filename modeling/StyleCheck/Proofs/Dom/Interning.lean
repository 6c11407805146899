import StyleCheck.Proofs.Dom.Naming

/-!
# Trees without a name table

Nothing of the name table shows in a tree: an element reads as if it kept its tag and the names of
its attributes as texts of its own, whatever names are entered for other nodes. Main statement: the
tag of every element is the one it was made with, and its attributes are those of a list of names
and values in which the same attributes were set.
-/

namespace StyleCheck.Dom

/-! ### Trees in use -/

/-- A step in the use of a tree: an edit, or a name entered into its table for its own sake. -/
inductive Use
  | edit (edit : Edit)
  | intern (name : String)

/-- The name and the value of the attribute that a step sets on a node. -/
def Use.setting? (id : NodeId) : Use → Option (String × String)
  | .edit (.setAttribute id' name value) => if id' = id then some (name, value) else none
  | _ => none

/-- Names and values put into a list one after the other. -/
def putAllNamed (listed : List (String × String)) (settings : List (String × String)) :
    List (String × String) :=
  settings.foldl (fun listed a ↦ putNamed a.1 a.2 listed) listed

namespace Tree

/-- Take a step. -/
def use (t : Tree) : Use → Tree
  | .edit edit => t.apply edit
  | .intern name => (t.intern name).2

/-- The tree that steps lead to from another. -/
def useAll (t : Tree) (uses : List Use) : Tree := uses.foldl use t

variable {t : Tree} {id : NodeId}

theorem extends_use (t : Tree) (step : Use) : t.names.Extends (t.use step).names := by
  cases step with
  | edit edit => exact extends_apply t edit
  | intern name => exact t.names.extends_intern name

theorem Named.use (h : t.Named) (step : Use) : (t.use step).Named := by
  cases step with
  | edit edit => exact h.apply edit
  | intern name => exact h.intern name

theorem Named.useAll (h : t.Named) (uses : List Use) : (t.useAll uses).Named := by
  induction uses generalizing t with
  | nil => exact h
  | cons step rest ih => exact ih (h.use step)

/-! ### What a step does to one node -/

/-- A node keeps its content in every step that sets none of its attributes. -/
theorem content?_use {step : Use} (hid : id < t.size) (hstep : step.setting? id = none) :
    (t.use step).content? id = t.content? id := by
  have hadd (names : Names) (content : Content) :
      (add { t with names } content).2.content? id = t.content? id := by
    rw [content?_add]
    exact if_neg (Nat.ne_of_lt hid)
  match step with
  | .intern name => rfl
  | .edit (.addElement tag) => exact hadd _ _
  | .edit (.addText written) => exact hadd _ _
  | .edit (.addComment written) => exact hadd _ _
  | .edit (.addDoctype name) => exact hadd _ _
  | .edit (.appendChild p c) => exact (sameContent_appendChild t p c).2 id
  | .edit (.detach d) => exact (sameContent_detach t d).2 id
  | .edit (.setAttribute id' name value) =>
    have hne : id' ≠ id := by
      intro heq
      rw [Use.setting?, if_pos heq] at hstep
      cases hstep
    exact (content?_setAttribute t id' name value id).trans (by simp [hne])

/-- An element reads after a step as if it kept its names as texts. -/
theorem Named.ownForm?_use (h : t.Named) {tag : String} {listed : List (String × String)}
    (hform : t.ownForm? id = some (.element tag listed [])) (step : Use) :
    (t.use step).ownForm? id =
      some (.element tag (putAllNamed listed (step.setting? id).toList) []) := by
  cases hset : step.setting? id with
  | none =>
    have hid : id < t.size := by
      obtain ⟨content, hcontent, -⟩ := Option.map_eq_some_iff.mp hform
      obtain ⟨node, hnode, -⟩ := Option.map_eq_some_iff.mp hcontent
      exact lt_size_of_get? hnode
    rw [h.ownForm?_eq (extends_use t step) (content?_use hid hset), hform]
    rfl
  | some a =>
    match step with
    | .edit (.setAttribute id' name value) =>
      by_cases heq : id' = id
      · subst heq
        rw [Use.setting?, if_pos rfl] at hset
        cases hset
        exact h.ownForm?_setAttribute hform name value
      · rw [Use.setting?, if_neg heq] at hset
        cases hset

/-- An element reads after any steps as if it kept its names as texts. -/
theorem Named.ownForm?_useAll (h : t.Named) {tag : String} {listed : List (String × String)}
    (hform : t.ownForm? id = some (.element tag listed [])) (uses : List Use) :
    (t.useAll uses).ownForm? id =
      some (.element tag (putAllNamed listed (uses.filterMap (Use.setting? id))) []) := by
  induction uses generalizing t listed with
  | nil => exact hform
  | cons step rest ih =>
    refine (ih (h.use step) (h.ownForm?_use hform step)).trans ?_
    rw [List.filterMap_cons]
    cases step.setting? id <;> rfl

/-! ### Where an element comes from -/

/-- A new element reads as its tag in lower case, without attributes. -/
theorem Named.ownForm?_addElement (h : t.Named) (tag : String) :
    (t.use (.edit (.addElement tag))).ownForm? t.size =
      some (.element (Text.lower tag) [] []) := by
  refine (ownForm?_add (t.intern (Text.lower tag)).2 _).trans ?_
  rw [Form.ofContent, Element.listed]
  exact congrArg (fun name ↦ some (Form.element name [] [])) (h.names.get_intern (Text.lower tag))

/-- A node that is an element after a step was one before, or the step made it. -/
theorem element?_use_cases {step : Use} {e : Element} (he : (t.use step).element? id = some e) :
    (∃ e', t.element? id = some e') ∨ ∃ tag, step = .edit (.addElement tag) ∧ id = t.size := by
  have hadd (names : Names) (content : Content)
      (he : (add { t with names } content).2.element? id = some e) :
      t.element? id = some e ∨ id = t.size ∧ content = .element e := by
    rw [element?_eq_some_iff, content?_add] at he
    split at he
    next hid => exact .inr ⟨hid, Option.some.inj he⟩
    next => exact .inl (element?_eq_some_iff.mpr he)
  match step with
  | .intern name => exact .inl ⟨e, he⟩
  | .edit (.addElement tag) =>
    rcases hadd _ _ he with he | ⟨hid, -⟩
    · exact .inl ⟨e, he⟩
    · exact .inr ⟨tag, rfl, hid⟩
  | .edit (.addText written) => exact .inl ⟨e, (hadd _ _ he).resolve_right nofun⟩
  | .edit (.addComment written) => exact .inl ⟨e, (hadd _ _ he).resolve_right nofun⟩
  | .edit (.addDoctype name) => exact .inl ⟨e, (hadd _ _ he).resolve_right nofun⟩
  | .edit (.appendChild p c) =>
    exact .inl ⟨e, ((sameContent_appendChild t p c).element? id).symm.trans he⟩
  | .edit (.detach d) => exact .inl ⟨e, ((sameContent_detach t d).element? id).symm.trans he⟩
  | .edit (.setAttribute id' name value) =>
    have hset := (element?_setAttribute (t := t) id' name value id).symm.trans he
    obtain ⟨e', he', -⟩ := Option.map_eq_some_iff.mp hset
    exact .inl ⟨e', he'⟩

/-- Every element was made by one of the steps. -/
theorem exists_addElement {uses : List Use} {e : Element}
    (he : (new.useAll uses).element? id = some e) : ∃ before tag later,
      uses = before ++ .edit (.addElement tag) :: later ∧ id = (new.useAll before).size := by
  induction uses using List.reverseRecOn generalizing e with
  | nil =>
    cases id with
    | zero => cases he
    | succ id => cases he
  | append_singleton uses step ih =>
    rw [useAll, List.foldl_concat] at he
    rcases element?_use_cases he with ⟨e', he'⟩ | ⟨tag, rfl, hid⟩
    · obtain ⟨before, tag, later, rfl, hid⟩ := ih he'
      exact ⟨before, tag, later ++ [step], by simp, hid⟩
    · exact ⟨uses, tag, [], rfl, hid⟩

/-- An element has the tag that it was made with and the attributes set since then. -/
theorem exists_element?_useAll (before : List Use) (tag : String) (later : List Use) :
    let t := new.useAll (before ++ .edit (.addElement tag) :: later)
    let id := (new.useAll before).size
    t.tag? id = some (Text.lower tag) ∧ ∃ e, t.element? id = some e ∧
      e.listed t.names = putAllNamed [] (later.filterMap (Use.setting? id)) := by
  intro t id
  have hnamed : (new.useAll before).Named := named_new.useAll before
  have hsplit : t = ((new.useAll before).use (.edit (.addElement tag))).useAll later :=
    List.foldl_append
  have hform := (hnamed.use _).ownForm?_useAll (hnamed.ownForm?_addElement tag) later
  rw [← hsplit] at hform
  obtain ⟨content, hcontent, hof⟩ := Option.map_eq_some_iff.mp hform
  cases content with
  | element e =>
    obtain ⟨htag, hlisted⟩ := Form.element.inj hof
    have he : t.element? id = some e := element?_eq_some_iff.mpr hcontent
    refine ⟨?_, e, he, hlisted.1⟩
    rw [tag?, he, Option.map_some, htag]
  | _ => cases hof

/-- The attributes of an element have names of the table. -/
theorem Named.lt_size_of_mem (h : t.Named) {e : Element} (he : t.element? id = some e) :
    ∀ a ∈ e.attributes, a.1 < t.names.size := fun a ha ↦
  h.known id _ (element?_eq_some_iff.mp he) a.1
    (List.mem_cons_of_mem _ (List.mem_map_of_mem ha))

end Tree

/-! ### Reading attributes -/

theorem nodup_putAllNamed (settings : List (String × String)) {listed : List (String × String)}
    (hnodup : (listed.map Prod.fst).Nodup) :
    ((putAllNamed listed settings).map Prod.fst).Nodup := by
  induction settings generalizing listed with
  | nil => exact hnodup
  | cons a rest ih => exact ih (nodup_putNamed hnodup)

/-- Looking for a place of the table is looking for the name that it stands for. -/
private theorem find?_eq_lookup {n : Names} (h : n.Faithful) {i : NameId} (hi : i < n.size)
    {attributes : List (NameId × String)} (hknown : ∀ a ∈ attributes, a.1 < n.size) :
    (attributes.find? fun a ↦ a.1 == i).map Prod.snd =
      (attributes.map fun a ↦ (n.get a.1, a.2)).lookup (n.get i) := by
  induction attributes with
  | nil => rfl
  | cons a rest ih =>
    obtain ⟨ha, hrest⟩ := List.forall_mem_cons.mp hknown
    rw [List.find?_cons, List.map_cons, List.lookup_cons, ← ih hrest]
    by_cases heq : a.1 = i
    · rw [beq_iff_eq.mpr heq, heq, beq_self_eq_true]
      rfl
    · have hne : n.get i ≠ n.get a.1 := fun hget ↦ heq (h.eq_of_get_eq ha hi hget.symm)
      rw [beq_eq_false_iff_ne.mpr heq, beq_eq_false_iff_ne.mpr hne]

/-- An attribute is found by the place of its name just as it is found by the name itself. -/
theorem Names.Faithful.get?_eq_lookup {n : Names} (h : n.Faithful) {e : Element}
    (hknown : ∀ a ∈ e.attributes, a.1 < n.size) (name : String) :
    (n.lookup? name).bind e.get? = (e.listed n).lookup name := by
  cases hplace : n.lookup? name with
  | none =>
    refine Eq.symm (List.lookup_eq_none_iff.mpr ?_)
    intro a ha
    obtain ⟨b, hb, rfl⟩ := List.mem_map.mp ha
    refine bne_iff_ne.mpr fun hname ↦ ?_
    have hfound := h.lookup?_eq_some_iff.mpr ⟨hknown b hb, hname.symm⟩
    rw [hplace] at hfound
    cases hfound
  | some i =>
    obtain ⟨hi, rfl⟩ := h.lookup?_eq_some_iff.mp hplace
    exact find?_eq_lookup h hi hknown

/-- However a tree is used, its names are told apart by their places in the table, and nothing else
of the table shows. Of the names entered each stands once, is found where it stands and keeps its
place. Every element was made by one of the steps and has the tag of that step in lower case; its
attributes are those of a list in which the attributes set on it since then were put by name. -/
theorem interning_transparent :
    (∀ names : List String,
      let n := Names.initial.internAll names
      n.table.toList.Nodup ∧
        (∀ name i, n.places.find? name = some i ↔ n.table[i]? = some name) ∧
        (∀ name i, n.lookup? name = some i ↔ i < n.size ∧ n.get i = name) ∧
        ∀ name later,
          let n' := (n.intern name).2.internAll later
          n'.get (n.intern name).1 = name ∧ n'.lookup? name = some (n.intern name).1) ∧
    ∀ uses : List Use,
      let t := Tree.new.useAll uses
      (∀ id e, t.element? id = some e → ∃ before tag later,
        uses = before ++ .edit (.addElement tag) :: later ∧
          id = (Tree.new.useAll before).size) ∧
        (∀ before tag later, uses = before ++ .edit (.addElement tag) :: later →
          let id := (Tree.new.useAll before).size
          t.tag? id = some (Text.lower tag) ∧ ∃ e, t.element? id = some e ∧
            e.listed t.names = putAllNamed [] (later.filterMap (Use.setting? id))) ∧
        (∀ id e, t.element? id = some e →
          ((e.listed t.names).map Prod.fst).Nodup ∧
            ∀ name, (t.names.lookup? name).bind e.get? = (e.listed t.names).lookup name) ∧
        ∀ id id' e e', t.element? id = some e → t.element? id' = some e' →
          ∀ a ∈ e.attributes, ∀ a' ∈ e'.attributes,
            a.1 = a'.1 ↔ t.names.get a.1 = t.names.get a'.1 := by
  refine ⟨fun names ↦ ?_, fun uses ↦ ?_⟩
  · have h : (Names.initial.internAll names).Faithful := Names.faithful_initial.internAll names
    refine ⟨h.nodup_table, h, fun _ _ ↦ h.lookup?_eq_some_iff, fun name later ↦ ?_⟩
    have hlater := h.lookup?_of_extends (Names.extends_internAll _ later)
      ((h.intern name).internAll later)
    exact ⟨(((h.intern name).internAll later).lookup?_eq_some_iff.mp hlater).2, hlater⟩
  · have hnamed : (Tree.new.useAll uses).Named := Tree.named_new.useAll uses
    refine ⟨fun _ _ ↦ Tree.exists_addElement, ?_, ?_, ?_⟩
    · rintro before tag later rfl
      exact Tree.exists_element?_useAll before tag later
    · intro id e he
      refine ⟨?_, hnamed.names.get?_eq_lookup (hnamed.lt_size_of_mem he)⟩
      obtain ⟨before, tag, later, rfl, rfl⟩ := Tree.exists_addElement he
      obtain ⟨-, e', he', hlisted⟩ := Tree.exists_element?_useAll before tag later
      obtain rfl : e' = e := Option.some.inj (he'.symm.trans he)
      rw [hlisted]
      exact nodup_putAllNamed _ .nil
    · intro id id' e e' he he' a ha a' ha'
      exact ⟨congrArg _, hnamed.names.eq_of_get_eq (hnamed.lt_size_of_mem he a ha)
        (hnamed.lt_size_of_mem he' a' ha')⟩

/-- Names entered for another element and for none come between two attributes of the first. -/
theorem interning_transparent_in_between :
    let uses : List Use := [.edit (.addElement "DIV"), .edit (.setAttribute 1 "title" "a"),
      .edit (.addElement "ul"), .edit (.setAttribute 2 "Title" "x"), .intern "lang",
      .edit (.setAttribute 1 "lang" "de"), .edit (.setAttribute 1 "title" "b")]
    let t := Tree.new.useAll uses
    t.tag? 1 = some "div" ∧
      ∃ e, t.element? 1 = some e ∧ e.listed t.names = [("title", "b"), ("lang", "de")] := by
  intro uses t
  exact (interning_transparent.2 uses).2.1 [] "DIV" uses.tail rfl

end StyleCheck.Dom
