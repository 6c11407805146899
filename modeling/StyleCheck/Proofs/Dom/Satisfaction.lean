import StyleCheck.Dom.Matching
import StyleCheck.Proofs.Dom.Content

/-!
# Satisfied conditions

What an element has to be for a condition of a selector, told by the data of the element and by how
texts contain one another. Main statement: the test of a condition tells just that.
-/

namespace StyleCheck

open Selector (AttributeValue Comparison Compound Simple)

/-! ### Words -/

namespace Text

/-- A word stands in a text between separators and the ends of the text. -/
structure IsWord (sep : Char → Bool) (word text : List Char) : Prop where
  ne_nil : word ≠ []
  not_sep : ∀ c ∈ word, ¬ sep c
  between : ∃ before after, text = before ++ word ++ after ∧
    (∀ c ∈ before.getLast?, sep c) ∧ ∀ c ∈ after.head?, sep c

section

variable {sep : Char → Bool} {word text rest : List Char} {c : Char}

/-- A text without separators has no word but itself. -/
theorem isWord_iff_eq (h : ∀ c ∈ text, ¬ sep c) :
    IsWord sep word text ↔ word = text ∧ text ≠ [] := by
  constructor
  · rintro ⟨hne, -, before, after, rfl, hbefore, hafter⟩
    have hleft : before = [] := by
      rw [← List.getLast?_eq_none_iff, Option.eq_none_iff_forall_not_mem]
      intro c hc
      exact h c (by simp [List.mem_of_getLast? hc]) (hbefore c hc)
    have hright : after = [] := by
      rw [← List.head?_eq_none_iff, Option.eq_none_iff_forall_not_mem]
      intro c hc
      exact h c (by simp [List.mem_of_head? hc]) (hafter c hc)
    subst hleft hright
    simpa using hne
  · rintro ⟨rfl, hne⟩
    exact ⟨hne, h, [], [], by simp, nofun, nofun⟩

theorem IsWord.append_left (h : IsWord sep word text) (hc : sep c) (rest : List Char) :
    IsWord sep word (text ++ c :: rest) := by
  obtain ⟨hne, hword, before, after, rfl, hbefore, hafter⟩ := h
  refine ⟨hne, hword, before, after ++ c :: rest, by simp, hbefore, ?_⟩
  cases after with
  | nil => simpa using hc
  | cons d after => simpa using hafter

theorem IsWord.append_right (h : IsWord sep word rest) (hc : sep c) (text : List Char) :
    IsWord sep word (text ++ c :: rest) := by
  obtain ⟨hne, hword, before, after, rfl, hbefore, hafter⟩ := h
  refine ⟨hne, hword, text ++ c :: before, after, by simp, ?_, hafter⟩
  rw [List.getLast?_append, List.getLast?_cons, Option.some_or]
  cases hlast : before.getLast? with
  | none => simpa using hc
  | some d => simpa using hbefore d hlast

/-- No word goes over a separator. -/
theorem isWord_append_iff (hc : sep c) :
    IsWord sep word (text ++ c :: rest) ↔ IsWord sep word text ∨ IsWord sep word rest := by
  refine ⟨?_, fun h ↦ h.elim (·.append_left hc rest) (·.append_right hc text)⟩
  rintro ⟨hne, hword, before, after, htext, hbefore, hafter⟩
  have hnot : c ∉ word := fun hmem ↦ hword c hmem hc
  rw [List.append_assoc, List.append_eq_append_iff] at htext
  rcases htext with ⟨left, rfl, hbehind⟩ | ⟨left, rfl, hbehind⟩
  · right
    cases left with
    | nil =>
      obtain ⟨d, ds, rfl⟩ := List.exists_cons_of_ne_nil hne
      cases hbehind
      exact absurd List.mem_cons_self hnot
    | cons d left =>
      cases hbehind
      refine ⟨hne, hword, left, after, by simp, ?_, hafter⟩
      intro e he
      exact hbefore e (by rw [List.getLast?_append, List.getLast?_cons, he]; rfl)
  · left
    rcases List.append_eq_append_iff.mp hbehind with ⟨right, rfl, rfl⟩ | ⟨right, rfl, hrest⟩
    · refine ⟨hne, hword, before, right, by simp, hbefore, ?_⟩
      cases right with
      | nil => nofun
      | cons d right => simpa using hafter
    · cases right with
      | nil => exact ⟨hne, hword, before, [], by simp, hbefore, nofun⟩
      | cons d right =>
        obtain ⟨rfl, -⟩ := List.cons.inj hrest
        exact absurd (by simp) hnot

/-- What is read so far of a word is without separators. -/
theorem mem_wordsFrom {start : List Char} (h : ∀ c ∈ start, ¬ sep c) :
    word ∈ wordsFrom sep start text ↔ IsWord sep word (start.reverse ++ text) := by
  induction text generalizing start with
  | nil =>
    rw [List.append_nil, isWord_iff_eq (by simpa using h), wordsFrom]
    cases start <;> simp
  | cons c rest ih =>
    rw [wordsFrom]
    split
    · next hc =>
      have hrest : word ∈ wordsFrom sep [] rest ↔ IsWord sep word rest := ih nofun
      rw [isWord_append_iff hc, isWord_iff_eq (by simpa using h), ← hrest]
      cases start <;> simp
    · next hc =>
      have hnext : ∀ d ∈ c :: start, ¬ sep d := List.forall_mem_cons.mpr ⟨hc, h⟩
      rw [ih hnext, List.reverse_cons, List.append_assoc, List.singleton_append]

end

theorem mem_asciiWords {word text : String} :
    word ∈ asciiWords text ↔ IsWord isAsciiSpace word.toList text.toList := by
  have hwords : word.toList ∈ wordsFrom isAsciiSpace [] text.toList ↔
      IsWord isAsciiSpace word.toList text.toList := mem_wordsFrom nofun
  rw [← hwords, asciiWords, List.mem_map]
  constructor
  · rintro ⟨w, hw, rfl⟩
    rwa [String.toList_ofList]
  · intro hw
    exact ⟨word.toList, hw, String.ofList_toList⟩

end Text

namespace Dom

/-! ### Values -/

/-- A literal has a text between its first and its last character, which are one byte each. -/
def Encloses (quoted : String) (inner : List Char) : Prop :=
  ∃ first last : Char, first.utf8Size = 1 ∧ last.utf8Size = 1 ∧
    quoted.toList = first :: inner ++ [last]

/-- What a value stands for: a name for itself, and a literal for the text that it encloses. One
that encloses none stands for the empty text. -/
def StandsFor : AttributeValue → List Char → Prop
  | .bare name, text => text = name.toList
  | .literal quoted, text => Encloses quoted text ∨ text = [] ∧ ∀ inner, ¬ Encloses quoted inner

/-- How an actual value compares with an expected one. -/
def Compares : Comparison → List Char → List Char → Prop
  | .equals, actual, expected => actual = expected
  | .includes, actual, expected => Text.IsWord Text.isAsciiSpace expected actual
  | .dashMatch, actual, expected => actual = expected ∨ expected ++ ['-'] <+: actual
  | .startsWith, actual, expected => expected ≠ [] ∧ expected <+: actual
  | .endsWith, actual, expected => expected ≠ [] ∧ expected <:+ actual
  | .contains, actual, expected => expected ≠ [] ∧ expected <:+: actual

theorem unquote_eq {quoted : String} {inner : List Char} (h : Encloses quoted inner) :
    Selector.unquote quoted = String.ofList inner := by
  obtain ⟨first, last, hfirst, hlast, hquoted⟩ := h
  simp [Selector.unquote, hquoted, hfirst, hlast]

theorem unquote_eq_empty {quoted : String} (h : ∀ inner, ¬ Encloses quoted inner) :
    Selector.unquote quoted = "" := by
  rw [Selector.unquote]
  split
  · rfl
  · next first rest hquoted =>
    split
    · next hfirst =>
      split
      · next last hlast =>
        obtain ⟨inner, rfl⟩ := List.getLast?_eq_some_iff.mp hlast
        rw [if_neg]
        intro hsize
        exact h inner ⟨first, last, hfirst, hsize, hquoted⟩
      · rfl
    · rfl

theorem standsFor_iff {value : AttributeValue} {text : List Char} :
    StandsFor value text ↔ text = value.content.toList := by
  cases value with
  | bare name => exact .rfl
  | literal quoted =>
    rw [StandsFor, AttributeValue.content]
    by_cases h : ∃ inner, Encloses quoted inner
    · constructor
      · rintro (h' | ⟨-, h'⟩)
        · rw [unquote_eq h', String.toList_ofList]
        · exact absurd h (not_exists.mpr h')
      · rintro rfl
        obtain ⟨inner, h⟩ := h
        rw [unquote_eq h, String.toList_ofList]
        exact .inl h
    · rw [not_exists] at h
      rw [unquote_eq_empty h]
      simp [h]

theorem occursIn_iff {part text : List Char} : occursIn part text ↔ part <:+: text := by
  induction text with
  | nil => simp [occursIn]
  | cons c rest ih => simp [occursIn, List.infix_cons_iff, ih]

theorem passes_iff {comparison : Comparison} {actual expected : String} :
    passes comparison actual expected ↔ Compares comparison actual.toList expected.toList := by
  cases comparison with
  | equals => simp [passes, Compares, String.toList_inj]
  | includes =>
    have hne : Text.IsWord Text.isAsciiSpace expected.toList actual.toList → expected ≠ "" := by
      rintro h rfl
      exact h.ne_nil rfl
    simpa [passes, Compares, Text.mem_asciiWords] using hne
  | dashMatch => simp [passes, Compares, String.toList_inj]
  | startsWith => simp [passes, Compares]
  | endsWith => simp [passes, Compares]
  | contains => simp [passes, Compares, occursIn_iff]

/-! ### Conditions -/

/-- Of the attributes with a name, in whatever case, the first has a value. -/
def Element.HasValue (e : Element) (n : Names) (name value : String) : Prop :=
  ∃ before a after, e.attributes = before ++ a :: after ∧ a.2 = value ∧
    Text.sameIgnoringCase (n.get a.1) name ∧
      ∀ b ∈ before, ¬ Text.sameIgnoringCase (n.get b.1) name

namespace Tree

/-- An element is what a condition asks for: it has the tag, the id or the class, or an attribute
that has a value which compares with the one in the condition, if there is a comparison. -/
def Fulfils (t : Tree) (e : Element) : Simple → Prop
  | .typeName name => Text.sameIgnoringCase (t.names.get e.name) name
  | .idName name => e.id = some name
  | .className name => name ∈ e.classes
  | .attr test => ∃ actual, e.HasValue t.names test.name actual ∧
      ∀ comparison ∈ test.comparison, ∀ value ∈ test.value, ∃ expected,
        StandsFor value expected ∧ Compares comparison actual.toList expected

/-- An element stands at a place. -/
def IsElement (t : Tree) (id : NodeId) : Prop := ∃ e, t.content? id = some (.element e)

/-- An element stands at a place, and it is what every condition of a compound asks for. -/
def Satisfies (t : Tree) (id : NodeId) (c : Compound) : Prop :=
  ∃ e, t.content? id = some (.element e) ∧ ∀ condition ∈ c.conditions, t.Fulfils e condition

variable {t : Tree} {id : NodeId} {e : Element}

theorem isElement_iff : t.isElement id ↔ t.IsElement id := by
  rw [isElement, Option.isSome_iff_exists, IsElement]
  simp only [element?_eq_some_iff]

theorem attribute?_eq_some_iff (he : t.element? id = some e) {name value : String} :
    t.attribute? id name = some value ↔ e.HasValue t.names name value := by
  rw [attribute?, he, Option.bind_some, Option.map_eq_some_iff]
  simp only [List.find?_eq_some_iff_append]
  constructor
  · rintro ⟨a, ⟨hname, before, after, hattributes, hbefore⟩, hvalue⟩
    exact ⟨before, a, after, hattributes, hvalue, hname, by simpa using hbefore⟩
  · rintro ⟨before, a, after, hattributes, hvalue, hname, hbefore⟩
    exact ⟨a, ⟨hname, before, after, hattributes, by simpa using hbefore⟩, hvalue⟩

theorem matchesAttribute_iff (he : t.element? id = some e) {test : Selector.AttributeTest} :
    t.matchesAttribute id test ↔ t.Fulfils e (.attr test) := by
  simp only [Fulfils, ← attribute?_eq_some_iff he, matchesAttribute]
  cases t.attribute? id test.name with
  | none => simp
  | some actual =>
    cases test.comparison with
    | none => simp
    | some comparison =>
      cases test.value with
      | none => simp
      | some value => simp [passes_iff, standsFor_iff]

/-- An element meets a condition if it is what the condition asks for. -/
theorem meets_iff (he : t.element? id = some e) {condition : Simple} :
    t.meets id e condition ↔ t.Fulfils e condition := by
  cases condition with
  | typeName name => exact .rfl
  | idName name => simp [meets, Fulfils]
  | className name => simp [meets, Fulfils, Element.hasClass]
  | attr test => exact matchesAttribute_iff he

theorem matchesCompound_iff {c : Compound} : t.matchesCompound id c ↔ t.Satisfies id c := by
  rw [matchesCompound, Satisfies]
  simp only [← element?_eq_some_iff]
  cases he : t.element? id with
  | none => simp
  | some e => simp [meets_iff he]

end Tree

end Dom

end StyleCheck
