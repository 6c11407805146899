import StyleCheck.Dom.Matching
import StyleCheck.Proofs.Dom.Content
import StyleCheck.Proofs.Dom.Names
import StyleCheck.Proofs.Selector.Printing

/-!
# Cached ids and classes

What an element keeps as its id and its classes, next to the attributes that it lists. An attribute
may be listed under several spellings of its name; the caches go by one of them. Main statement:
which values the caches can have, and that they are those of the attributes where the spellings do
not disagree, so that id and class selectors match as attribute selectors do.
-/

namespace StyleCheck.Dom

open Selector (AttributeTest AttributeValue Comparison IsName Simple)

/-! ### Values under every spelling -/

/-- The words of a value that may be missing. -/
def wordsOf (value : Option String) : List String := (value.map Text.asciiWords).getD []

/-- A value that may be missing is one of those listed, and it is missing only if none is. -/
def Reflects (value : Option String) (listed : List String) : Prop :=
  match value with
  | none => listed = []
  | some v => v ∈ listed

/-- All listed values are the same. -/
def Agree (listed : List String) : Prop := ∀ v ∈ listed, ∀ w ∈ listed, v = w

theorem Reflects.eq_head? {value : Option String} {listed : List String}
    (h : Reflects value listed) (hagree : Agree listed) : value = listed.head? := by
  cases value with
  | none =>
    rw [show listed = [] from h]
    rfl
  | some v =>
    cases listed with
    | nil => cases h
    | cons w rest =>
      rw [List.head?_cons, hagree v h w List.mem_cons_self]

namespace Element

/-- The values of the attributes that have a name in whatever case, in order. -/
def valuesOf (e : Element) (n : Names) (name : String) : List String :=
  (e.attributes.filter fun a ↦ Text.sameIgnoringCase (n.get a.1) name).map Prod.snd

/-- The attributes have names of the table, and the id and the classes are told by values listed
for them. -/
structure Sourced (e : Element) (n : Names) : Prop where
  known : ∀ a ∈ e.attributes, a.1 < n.size
  id : Reflects e.id (e.valuesOf n "id")
  classes : ∃ value, Reflects value (e.valuesOf n "class") ∧ e.classes = wordsOf value

variable {e : Element} {n n' : Names}

theorem sourced_ofName (name : NameId) (n : Names) : (ofName name).Sourced n where
  known := by simp [ofName]
  id := rfl
  classes := ⟨none, rfl, rfl⟩

/-- New names in the table change nothing. -/
theorem Sourced.mono (h : e.Sourced n) (hn : n.Extends n') : e.Sourced n' := by
  have hvalues : ∀ name, e.valuesOf n' name = e.valuesOf n name := by
    intro name
    have hsame : ∀ a ∈ e.attributes,
        Text.sameIgnoringCase (n'.get a.1) name = Text.sameIgnoringCase (n.get a.1) name := by
      intro a ha
      rw [hn.2 a.1 (h.known a ha)]
    rw [valuesOf, List.filter_congr hsame, valuesOf]
  constructor
  · exact fun a ha ↦ Nat.lt_of_lt_of_le (h.known a ha) hn.1
  · rw [hvalues]
    exact h.id
  · rw [hvalues]
    exact h.classes

/-! ### Setting an attribute -/

theorem mem_putAttribute_self (name : NameId) (value : String)
    (attributes : List (NameId × String)) :
    (name, value) ∈ putAttribute name value attributes := by
  induction attributes with
  | nil => exact List.mem_singleton_self _
  | cons a rest ih =>
    rw [putAttribute]
    split
    · exact List.mem_cons_self
    · exact List.mem_cons_of_mem _ ih

theorem mem_of_mem_putAttribute {name : NameId} {value : String}
    {attributes : List (NameId × String)} {a : NameId × String}
    (h : a ∈ putAttribute name value attributes) : a = (name, value) ∨ a ∈ attributes := by
  induction attributes with
  | nil => exact .inl (List.mem_singleton.mp h)
  | cons b rest ih =>
    rw [putAttribute] at h
    split at h
    · exact (List.mem_cons.mp h).imp_right (List.mem_cons_of_mem b)
    · rcases List.mem_cons.mp h with rfl | h
      · exact .inr List.mem_cons_self
      · exact (ih h).imp_right (List.mem_cons_of_mem b)

/-- Attributes of other names stay as they are. -/
theorem filter_putAttribute (p : NameId → Bool) {name : NameId} (hp : p name = false)
    (value : String) (attributes : List (NameId × String)) :
    (putAttribute name value attributes).filter (fun a ↦ p a.1) =
      attributes.filter fun a ↦ p a.1 := by
  induction attributes with
  | nil => simp [putAttribute, hp]
  | cons b rest ih =>
    rw [putAttribute]
    split
    next hb => simp [hb, hp]
    next => rw [List.filter_cons, List.filter_cons, ih]

/-- No spelling is one of both names. -/
theorem not_class_of_id {spelling : String} (h : Text.sameIgnoringCase spelling "id") :
    Text.sameIgnoringCase spelling "class" = false := by
  rw [Text.sameIgnoringCase, beq_iff_eq] at h
  rw [Text.sameIgnoringCase, h]
  decide

section

variable (e : Element) (name : NameId) (spelling value : String)

theorem attributes_set :
    (e.set name spelling value).attributes = putAttribute name value e.attributes := by
  unfold set
  split
  · rfl
  · split <;> rfl

/-- The id follows an attribute of that name under any spelling. -/
theorem id_set : (e.set name spelling value).id =
    if Text.sameIgnoringCase spelling "id" then some value else e.id := by
  unfold set
  split
  · rfl
  · split <;> rfl

/-- The classes follow an attribute of that name under any spelling. -/
theorem classes_set : (e.set name spelling value).classes =
    if Text.sameIgnoringCase spelling "class" then Text.asciiWords value else e.classes := by
  unfold set
  split
  next hid => rw [not_class_of_id hid]; rfl
  next => split <;> rfl

end

section

variable {name : NameId} {spelling : String} (hname : n.get name = spelling) (value : String)

include hname

theorem mem_valuesOf_set {key : String} (hkey : Text.sameIgnoringCase spelling key) :
    value ∈ (e.set name spelling value).valuesOf n key := by
  rw [valuesOf, attributes_set]
  refine List.mem_map.mpr ⟨(name, value), List.mem_filter.mpr ⟨?_, ?_⟩, rfl⟩
  · exact mem_putAttribute_self name value e.attributes
  · rw [hname, hkey]

theorem valuesOf_set {key : String} (hkey : ¬ Text.sameIgnoringCase spelling key) :
    (e.set name spelling value).valuesOf n key = e.valuesOf n key := by
  have hother : Text.sameIgnoringCase (n.get name) key = false := by
    rwa [hname, ← Bool.not_eq_true]
  have hfilter := filter_putAttribute (fun i ↦ Text.sameIgnoringCase (n.get i) key) hother value
    e.attributes
  rw [valuesOf, attributes_set, hfilter, valuesOf]

/-- Setting an attribute leaves the caches with values that are listed. -/
theorem Sourced.set (h : e.Sourced n) (hlt : name < n.size) :
    (e.set name spelling value).Sourced n where
  known := by
    intro a ha
    rw [attributes_set] at ha
    rcases mem_of_mem_putAttribute ha with rfl | ha
    · exact hlt
    · exact h.known a ha
  id := by
    rw [id_set]
    split
    next hid => exact mem_valuesOf_set hname value hid
    next hid =>
      rw [valuesOf_set hname value hid]
      exact h.id
  classes := by
    rw [classes_set]
    split
    next hclass => exact ⟨some value, mem_valuesOf_set hname value hclass, rfl⟩
    next hclass =>
      rw [valuesOf_set hname value hclass]
      exact h.classes

end

end Element

/-! ### Trees that edits lead to -/

namespace Tree

/-- The name table is faithful, and so are the caches of every element. -/
structure Sourced (t : Tree) : Prop where
  names : t.names.Faithful
  elements : ∀ id e, t.element? id = some e → e.Sourced t.names

namespace Sourced

variable {t : Tree} (h : t.Sourced)

include h

theorem of_sameContent {t' : Tree} (hsame : t.SameContent t') : t'.Sourced where
  names := hsame.1 ▸ h.names
  elements := by
    intro id e he
    rw [hsame.element?] at he
    exact hsame.1 ▸ h.elements id e he

theorem intern (name : String) : (t.intern name).2.Sourced where
  names := h.names.intern name
  elements := fun id e he ↦ (h.elements id e he).mono (t.names.extends_intern name)

theorem add {content : Content} (hcontent : ∀ e, content = .element e → e.Sourced t.names) :
    (t.add content).2.Sourced where
  names := h.names
  elements := by
    intro id e he
    rw [element?_eq_some_iff, content?_add] at he
    split at he
    · exact hcontent e (Option.some.inj he)
    · exact h.elements id e (element?_eq_some_iff.mpr he)

theorem setAttribute (id : NodeId) (name value : String) :
    (t.setAttribute id name value).Sourced where
  names := h.names.intern name
  elements := by
    intro j e he
    rw [element?_setAttribute, Option.map_eq_some_iff] at he
    obtain ⟨e, he, rfl⟩ := he
    have hsourced : e.Sourced (t.names.intern name).2 :=
      (h.elements j e he).mono (t.names.extends_intern name)
    split
    · exact hsourced.set (h.names.get_intern name) value (h.names.intern_lt_size name)
    · exact hsourced

/-- Every edit keeps the caches to values that are listed. -/
theorem apply (edit : Edit) : (t.apply edit).Sourced := by
  cases edit with
  | addElement tag =>
    apply (h.intern (Text.lower tag)).add
    rintro _ ⟨⟩
    exact Element.sourced_ofName _ _
  | addText text => exact h.add nofun
  | addComment text => exact h.add nofun
  | addDoctype name => exact (h.intern name).add nofun
  | setAttribute id name value => exact h.setAttribute id name value
  | appendChild p c => exact h.of_sameContent (sameContent_appendChild t p c)
  | detach d => exact h.of_sameContent (sameContent_detach t d)

end Sourced

theorem sourced_new : new.Sourced where
  names := Names.faithful_initial
  elements := by
    intro id e he
    rw [element?_eq_some_iff] at he
    cases id with
    | zero => cases he
    | succ id => cases he

/-- Whatever the edits, the caches have values that are listed. -/
theorem sourced_ofEdits (edits : List Edit) : (ofEdits edits).Sourced :=
  ofEdits_induction sourced_new (fun _ edit h ↦ h.apply edit) edits

/-! ### Selectors of one condition -/

/-- An attribute has the first of its values. -/
theorem attribute?_eq_head? {t : Tree} {id : NodeId} {e : Element} (he : t.element? id = some e)
    (name : String) : t.attribute? id name = (e.valuesOf t.names name).head? := by
  rw [attribute?, he, Option.bind_some, Element.valuesOf, List.head?_map, List.head?_filter]

theorem matchesText_condition {t : Tree} {id : NodeId} {e : Element}
    (he : t.element? id = some e) {s : Simple} (hs : s.WellFormed) :
    t.matchesText id s.text = t.meets id e s := by
  have hshape : (Selector.Complex.compound ⟨[s]⟩).WellFormed :=
    ⟨List.cons_ne_nil _ _, by simpa using hs, .singleton s⟩
  obtain ⟨s', hparse, halike⟩ := hshape.exists_parse
  have htext : (Selector.Complex.compound ⟨[s]⟩).text = s.text := by
    simp [Selector.Complex.text, Selector.Compound.text]
  obtain rfl : s' = .compound ⟨[s]⟩ := by
    cases s' with
    | compound c => rw [beq_iff_eq.mp halike]
    | joined => cases halike
  rw [htext] at hparse
  have helement : t.isElement id := by rw [isElement, he]; rfl
  simp [matchesText, hparse, matchesSelector, helement, Selector.Complex.chain,
    Selector.Complex.linksAfter, matchesLinks, matchesCompound, he]

/-- A name between quotes. -/
private theorem isLiteral_of_isName {n : String} (hn : IsName n) :
    Selector.IsLiteral ("\"" ++ n ++ "\"") n := by
  refine ⟨'"', .inl rfl, ?_, ?_⟩
  · obtain ⟨c, cs, htext, hc, hcs⟩ := hn
    rw [htext, List.mem_cons, not_or]
    constructor
    · rintro rfl
      exact absurd hc (by decide)
    · intro hmem
      exact absurd (hcs _ hmem) (by decide)
  · apply String.toList_injective
    simp

/-- An attribute is compared with a name between quotes. -/
private theorem matchesText_compared {t : Tree} {id : NodeId} {e : Element}
    (he : t.element? id = some e) {name n : String} (hname : IsName name) (hn : IsName n)
    (comparison : Comparison) :
    t.matchesText id ("[" ++ name ++ comparison.text ++ ("\"" ++ n ++ "\"") ++ "]") =
      match t.attribute? id name with
      | none => false
      | some actual => passes comparison actual n := by
  have hliteral := isLiteral_of_isName hn
  let test : AttributeTest := ⟨name, some comparison, some (.literal ("\"" ++ n ++ "\""))⟩
  have htest : (Simple.attr test).WellFormed := {
    name := hname
    compared := rfl
    value := by
      rintro v ⟨⟩
      exact ⟨n, hliteral⟩ }
  have hmatch := matchesText_condition he htest
  rw [meets, matchesAttribute] at hmatch
  simp only [test, AttributeValue.content, Selector.unquote_of_isLiteral hliteral] at hmatch
  exact hmatch

/-- Where the id is that of the attribute, the two selectors for it say the same. -/
theorem matchesText_id_eq {t : Tree} {id : NodeId} {e : Element} (he : t.element? id = some e)
    (hid : e.id = t.attribute? id "id") {n : String} (hn : IsName n) :
    t.matchesText id ("#" ++ n) = t.matchesText id ("[id=\"" ++ n ++ "\"]") := by
  have htext : "[id=\"" ++ n ++ "\"]" =
      "[" ++ "id" ++ Comparison.equals.text ++ ("\"" ++ n ++ "\"") ++ "]" := by
    apply String.toList_injective
    simp [Comparison.text]
  have hmatch : t.matchesText id ("#" ++ n) = (e.id == some n) :=
    matchesText_condition (s := .idName n) he hn
  have hname : IsName "id" := ⟨'i', ['d'], rfl, rfl, List.all_eq_true.mp rfl⟩
  rw [hmatch, hid, htext, matchesText_compared he hname hn]
  cases t.attribute? id "id" <;> rfl

/-- Where the classes are the words of the attribute, the two selectors for one say the same. -/
theorem matchesText_class_eq {t : Tree} {id : NodeId} {e : Element} (he : t.element? id = some e)
    (hclass : e.classes = wordsOf (t.attribute? id "class")) {n : String} (hn : IsName n) :
    t.matchesText id ("." ++ n) = t.matchesText id ("[class~=\"" ++ n ++ "\"]") := by
  have htext : "[class~=\"" ++ n ++ "\"]" =
      "[" ++ "class" ++ Comparison.includes.text ++ ("\"" ++ n ++ "\"") ++ "]" := by
    apply String.toList_injective
    simp [Comparison.text]
  have hmatch : t.matchesText id ("." ++ n) = e.classes.contains n :=
    matchesText_condition (s := .className n) he hn
  have hname : IsName "class" :=
    ⟨'c', ['l', 'a', 's', 's'], rfl, rfl, List.all_eq_true.mp rfl⟩
  have hne : n.toList.isEmpty = false := by
    obtain ⟨c, cs, htext, -⟩ := hn
    rw [htext]
    rfl
  rw [hmatch, hclass, htext, matchesText_compared he hname hn]
  cases t.attribute? id "class" with
  | none => rfl
  | some actual => simp [passes, hne, wordsOf]

/-- The id and the classes that an element keeps are told by a value that one of its attributes of
these names has, under whatever spelling, and they are missing only with the attributes. Where no
two spellings have different values, they are those of the attribute, and its value is matched the
same way by an id or class selector as by an attribute selector. -/
theorem caches_ofEdits (edits : List Edit) {id : NodeId} {e : Element}
    (he : (ofEdits edits).element? id = some e) :
    let t := ofEdits edits
    let ids := e.valuesOf t.names "id"
    let classLists := e.valuesOf t.names "class"
    (Reflects e.id ids ∧ ∃ value, Reflects value classLists ∧ e.classes = wordsOf value) ∧
      (Agree ids → e.id = t.attribute? id "id" ∧ ∀ n, IsName n →
        t.matchesText id ("#" ++ n) = t.matchesText id ("[id=\"" ++ n ++ "\"]")) ∧
      (Agree classLists → e.classes = wordsOf (t.attribute? id "class") ∧ ∀ n, IsName n →
        t.matchesText id ("." ++ n) = t.matchesText id ("[class~=\"" ++ n ++ "\"]")) := by
  intro t ids classLists
  have hsourced : e.Sourced t.names := (sourced_ofEdits edits).elements id e he
  refine ⟨⟨hsourced.id, hsourced.classes⟩, ?_, ?_⟩
  · intro hagree
    have hid : e.id = t.attribute? id "id" := by
      rw [attribute?_eq_head? he]
      exact hsourced.id.eq_head? hagree
    exact ⟨hid, fun n hn ↦ matchesText_id_eq he hid hn⟩
  · intro hagree
    obtain ⟨value, hvalue, hclasses⟩ := hsourced.classes
    have hclass : e.classes = wordsOf (t.attribute? id "class") := by
      rw [attribute?_eq_head? he, hclasses, hvalue.eq_head? hagree]
    exact ⟨hclass, fun n hn ↦ matchesText_class_eq he hclass hn⟩

/-- An element whose id is set twice under one spelling and whose classes are set to the same words
under two. -/
theorem caches_set_again :
    let edits : List Edit := [.addElement "DIV", .setAttribute 1 "ID" "a",
      .setAttribute 1 "Class" "x  y", .appendChild 0 1, .setAttribute 1 "ID" "b",
      .setAttribute 1 "class" "x  y"]
    let e : Element := ⟨5, [(15, "b"), (16, "x  y"), (12, "x  y")], some "b", ["x", "y"]⟩
    let t := ofEdits edits
    t.element? 1 = some e ∧ t.attribute? 1 "id" = some "b" ∧
      (e.id = t.attribute? 1 "id" ∧ ∀ n, IsName n →
        t.matchesText 1 ("#" ++ n) = t.matchesText 1 ("[id=\"" ++ n ++ "\"]")) ∧
      (e.classes = wordsOf (t.attribute? 1 "class") ∧ ∀ n, IsName n →
        t.matchesText 1 ("." ++ n) = t.matchesText 1 ("[class~=\"" ++ n ++ "\"]")) := by
  intro edits e t
  have he : t.element? 1 = some e := by decide +kernel
  obtain ⟨-, hid, hclass⟩ := caches_ofEdits edits he
  have hids : e.valuesOf t.names "id" = ["b"] := by decide +kernel
  have hclasses : e.valuesOf t.names "class" = ["x  y", "x  y"] := by decide +kernel
  refine ⟨he, by decide +kernel, hid ?_, hclass ?_⟩
  · show Agree (e.valuesOf t.names "id")
    simp [hids, Agree]
  · show Agree (e.valuesOf t.names "class")
    simp [hclasses, Agree]

/-- An id that is set under two spellings is kept as it was set last and listed first as it was set
under the first spelling, so the two kinds of selectors tell different values. -/
theorem caches_of_two_spellings :
    let t := ofEdits [.addElement "div", .setAttribute 1 "id" "a", .setAttribute 1 "ID" "b"]
    (t.element? 1).bind Element.id = some "b" ∧ t.attribute? 1 "id" = some "a" ∧
      t.matchesText 1 "#b" = true ∧ t.matchesText 1 "[id=\"b\"]" = false := by
  decide +kernel

end Tree

end StyleCheck.Dom
