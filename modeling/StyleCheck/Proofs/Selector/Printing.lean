import Mathlib.Data.List.Chain
import StyleCheck.Proofs.Selector.Acceptance

/-!
# Printed selectors

The shape that a selector must have to be told from its text: legal names and literals, no empty
compound, and no bare type name where it would run on from a name before it. Main statement: every
parsed selector has that shape, and every selector of that shape is parsed back from its text, up
to where its joining tokens stood.
-/

namespace StyleCheck.Selector

open Grammar

/-! ### Shape -/

/-- A letter and characters that continue a name. -/
def IsName (name : String) : Prop :=
  ∃ c cs, name.toList = c :: cs ∧ c.isAlpha ∧ ∀ d ∈ cs, continuesName d

/-- A literal between two quotes that do not return inside it, or a legal name. -/
def AttributeValue.WellFormed : AttributeValue → Prop
  | .literal quoted => ∃ inner, IsLiteral quoted inner
  | .bare name => IsName name

/-- A legal name, with a comparison just if there is a value. -/
structure AttributeTest.WellFormed (test : AttributeTest) : Prop where
  name : IsName test.name
  compared : test.comparison.isSome = test.value.isSome
  value : ∀ v ∈ test.value, v.WellFormed

/-- A legal name, or a well-formed attribute test. -/
def Simple.WellFormed : Simple → Prop
  | .typeName name => IsName name
  | .idName name => IsName name
  | .className name => IsName name
  | .attr test => test.WellFormed

/-- Whether a condition may stand directly before another: a bare type name needs a bracket in
front of it. -/
def Simple.MayPrecede : Simple → Simple → Prop
  | .attr _, _ => True
  | _, .typeName _ => False
  | _, _ => True

/-- At least one condition, all of them well formed, and type names only where they stand apart. -/
structure Compound.WellFormed (c : Compound) : Prop where
  nonempty : c.conditions ≠ []
  conditions : ∀ s ∈ c.conditions, s.WellFormed
  apart : c.conditions.IsChain Simple.MayPrecede

/-- A selector of well-formed compounds. -/
def Complex.WellFormed : Complex → Prop
  | .compound c => c.WellFormed
  | .joined _ left right => left.WellFormed ∧ right.WellFormed

variable {cs after : List Char}

/-! ### From the shape to the text -/

theorem IsName.nameText {name : String} (h : IsName name) (ha : longest after) :
    NameText longest name.toList after := by
  obtain ⟨c, cs, hname, first, more⟩ := h
  rw [hname]
  exact .name first more ha

private theorem AttributeValue.WellFormed.valueText {v : AttributeValue} (h : v.WellFormed)
    (ha : longest after) : ValueText longest v.text.toList v after := by
  cases v with
  | literal quoted =>
    obtain ⟨inner, quote, hquote, hin, rfl⟩ := h
    simpa [AttributeValue.text] using ValueText.literal hquote hin
  | bare name =>
    have hv := ValueText.bare (h.nameText ha)
    rwa [String.ofList_toList] at hv

private theorem AttributeTest.WellFormed.simpleText {test : AttributeTest} (h : test.WellFormed) :
    SimpleText longest test.text.toList (.attr test) after := by
  obtain ⟨name, comparison, value⟩ := test
  have hbracket : longest (']' :: after) := longest_cons.mpr rfl
  cases comparison with
  | none =>
    have hvalue : value = none := by simpa using h.compared.symm
    subst hvalue
    have ht := TestText.present (h.name.nameText hbracket)
    rw [String.ofList_toList] at ht
    simpa [AttributeTest.text] using SimpleText.attr ht
  | some comparison =>
    obtain ⟨v, hvalue⟩ : ∃ v, value = some v := Option.isSome_iff_exists.mp h.compared.symm
    subst hvalue
    have hv := (h.value v rfl).valueText hbracket
    have hname : NameText longest name.toList
        ([] ++ comparison.text.toList ++ [] ++ v.text.toList ++ ']' :: after) := by
      apply h.name.nameText
      simpa using longest_comparison comparison _
    have ht := TestText.compared hname (by simp [Spaces]) (by simp [Spaces]) hv
    rw [String.ofList_toList] at ht
    simpa [AttributeTest.text] using SimpleText.attr ht

/-- A condition is read from its text where a name in it may end. -/
private theorem Simple.WellFormed.simpleText {s : Simple} (h : s.WellFormed)
    (ha : longest after ∨ ∃ test, s = .attr test) : SimpleText longest s.text.toList s after := by
  cases s with
  | attr test => exact AttributeTest.WellFormed.simpleText h
  | typeName name =>
    have hn := SimpleText.typeName (IsName.nameText h (ha.resolve_right (by simp)))
    rwa [String.ofList_toList] at hn
  | idName name =>
    have hn := SimpleText.idName (IsName.nameText h (ha.resolve_right (by simp)))
    rw [String.ofList_toList] at hn
    simpa [Simple.text] using hn
  | className name =>
    have hn := SimpleText.className (IsName.nameText h (ha.resolve_right (by simp)))
    rw [String.ofList_toList] at hn
    simpa [Simple.text] using hn

-- Behind a condition that may precede `t` the text of `t` does not continue its name.
private theorem Simple.MayPrecede.longest_text {s t : Simple} (h : s.MayPrecede t)
    (rest : List Char) : longest (t.text.toList ++ rest) ∨ ∃ test, s = .attr test := by
  cases s with
  | attr test => exact .inr ⟨test, rfl⟩
  | _ =>
    left
    cases t with
    | typeName name => exact h.elim
    | idName name => simpa [Simple.text] using longest_cons.mpr rfl
    | className name => simpa [Simple.text] using longest_cons.mpr rfl
    | attr test =>
      obtain ⟨name, comparison, value⟩ := test
      cases comparison <;> cases value <;>
        simpa [Simple.text, AttributeTest.text] using longest_cons.mpr rfl

private theorem toList_compound_text (l : List Simple) :
    (Compound.text ⟨l⟩).toList = l.flatMap fun s ↦ s.text.toList := by
  simp [Compound.text, List.flatMap_map]

private theorem Compound.WellFormed.compoundText {c : Compound} (h : c.WellFormed)
    (ha : longest after) : CompoundText longest c.text.toList c.conditions after := by
  obtain ⟨l⟩ := c
  obtain ⟨hne, hall, hchain⟩ := h
  simp only at hne hall hchain
  rw [toList_compound_text]
  induction l with
  | nil => exact absurd rfl hne
  | cons s l ih =>
    have hs : s.WellFormed := hall s List.mem_cons_self
    cases l with
    | nil => simpa using CompoundText.one (hs.simpleText (.inl ha))
    | cons t l =>
      obtain ⟨hst, hchain'⟩ := List.isChain_cons_cons.mp hchain
      have hrest := ih (List.cons_ne_nil t l) (List.forall_mem_cons.mp hall).2 hchain'
      refine .more (hs.simpleText ?_) hrest
      simpa using hst.longest_text _

-- The text of a combinator joins two texts, with its token where it stands behind the first.
private theorem exists_joined (k : Combinator) {l : List Simple} {right : Complex}
    {ds : List Char} (q : Position)
    (hleft : ∀ after, longest after → CompoundText longest cs l after)
    (hright : ∀ q, ∃ r, ComplexText longest q ds r after ∧ r.alike right) :
    ∃ operator r, Combinator.ofKind operator.kind = k ∧ r.alike right ∧
      ComplexText longest q (cs ++ k.spaced.toList ++ ds) (.joined operator ⟨l⟩ r) after := by
  have hspace (rest : List Char) : longest (' ' :: rest) := longest_cons.mpr rfl
  have hblank : Spaces [' '] := by simp [Spaces]; rfl
  have hsign (op : Char) (hop : IsSign op) (hk : Combinator.ofKind (.ofChar op) = k)
      (hspaced : k.spaced.toList = [' ', op, ' ']) : ∃ operator r,
      Combinator.ofKind operator.kind = k ∧ r.alike right ∧
        ComplexText longest q (cs ++ k.spaced.toList ++ ds) (.joined operator ⟨l⟩ r) after := by
    obtain ⟨r, hr, halike⟩ := hright (q.advanceOver (cs ++ [' '] ++ op :: [' ']))
    refine ⟨⟨.ofChar op, op, q.advanceOver (cs ++ [' '])⟩, r, hk, halike, ?_⟩
    rw [hspaced]
    simpa using ComplexText.sign (hleft _ (hspace _)) hblank hop hblank hr
  cases k with
  | descendant =>
    obtain ⟨r, hr, halike⟩ := hright (q.advanceOver (cs ++ ' ' :: []))
    refine ⟨⟨.ofChar ' ', ' ', q.advanceOver cs⟩, r, rfl, halike, ?_⟩
    have h := ComplexText.space (hleft _ (hspace ([] ++ ds ++ after))) rfl (by simp [Spaces]) hr
    simpa [Combinator.spaced] using h
  | child => exact hsign '>' (.inl rfl) rfl rfl
  | nextSibling => exact hsign '+' (.inr (.inl rfl)) rfl rfl
  | laterSibling => exact hsign '~' (.inr (.inr rfl)) rfl rfl

/-- A selector is read from its text, with its joining tokens where they stand there. -/
private theorem Complex.WellFormed.exists_complexText {s : Complex} (h : s.WellFormed)
    (ha : longest after) (q : Position) :
    ∃ s', ComplexText longest q s.text.toList s' after ∧ s'.alike s := by
  induction s generalizing q with
  | compound c => exact ⟨.compound c, .compound (h.compoundText ha), by simp [Complex.alike]⟩
  | joined operator left right ih =>
    obtain ⟨hleft, hright⟩ := h
    obtain ⟨operator', r, hk, halike, hr⟩ := exists_joined (Combinator.ofKind operator.kind) q
      (fun _ ↦ hleft.compoundText) (ih hright)
    refine ⟨.joined operator' left r, ?_, ?_⟩
    · simpa [Complex.text] using hr
    · simp [Complex.alike, hk, halike]

/-- A well-formed selector is parsed from its text. -/
theorem Complex.WellFormed.exists_parse {s : Complex} (h : s.WellFormed) :
    ∃ s', parse s.text = .ok s' ∧ s'.alike s := by
  obtain ⟨s', hs', halike⟩ := h.exists_complexText longest_nil .start
  refine ⟨s', parse_eq_ok_iff.mpr ?_, halike⟩
  exact ⟨s.text.toList, [], (List.append_nil _).symm, hs', by simp [Spaces]⟩

/-! ### From the text to the shape -/

private theorem isName_of_nameText (h : NameText longest cs after) : IsName (String.ofList cs) := by
  obtain @⟨c, cs, _, first, more, -⟩ := h
  exact ⟨c, cs, String.toList_ofList, first, more⟩

private theorem wellFormed_of_valueText {v : AttributeValue} (h : ValueText longest cs v after) :
    v.WellFormed := by
  cases h with
  | @literal quote inner _ opens inside =>
    exact ⟨String.ofList inner, quote, opens, by simpa using inside, by simp⟩
  | bare name => exact isName_of_nameText name

private theorem wellFormed_of_simpleText {s : Simple} (h : SimpleText longest cs s after) :
    s.WellFormed := by
  cases h with
  | idName name => exact isName_of_nameText name
  | className name => exact isName_of_nameText name
  | typeName name => exact isName_of_nameText name
  | attr inside =>
    cases inside with
    | present name => exact ⟨isName_of_nameText name, rfl, by simp⟩
    | compared name before between expected =>
      exact ⟨isName_of_nameText name, rfl, by simpa using wellFormed_of_valueText expected⟩

-- A name does not end directly before a bare type name.
private theorem mayPrecede_of_simpleText {s t : Simple} {ds : List Char}
    (hs : SimpleText longest cs s (ds ++ after)) (ht : SimpleText longest ds t after) :
    s.MayPrecede t := by
  rcases hs.ends_or_attr with hstop | ⟨test, rfl⟩
  · cases ht with
    | typeName name =>
      obtain ⟨first, -, -⟩ := name
      rw [List.cons_append, longest_cons, continuesName_of_isAlpha first] at hstop
      exact absurd hstop Bool.true_eq_false.mp
    | _ => cases s <;> trivial
  · trivial

private theorem wellFormed_of_compoundText {l : List Simple} (h : CompoundText longest cs l after) :
    Compound.WellFormed ⟨l⟩ := by
  induction h with
  | one only =>
    refine ⟨List.cons_ne_nil _ _, ?_, List.isChain_singleton _⟩
    exact List.forall_mem_singleton.mpr (wellFormed_of_simpleText only)
  | more first others ih =>
    refine ⟨List.cons_ne_nil _ _, ?_, ?_⟩
    · exact List.forall_mem_cons.mpr ⟨wellFormed_of_simpleText first, ih.conditions⟩
    · cases others with
      | one only =>
        exact List.isChain_cons_cons.mpr ⟨mayPrecede_of_simpleText first only, ih.apart⟩
      | more second _ =>
        rw [List.append_assoc] at first
        exact List.isChain_cons_cons.mpr ⟨mayPrecede_of_simpleText first second, ih.apart⟩

private theorem wellFormed_of_complexText {q : Position} {s : Complex}
    (h : ComplexText longest q cs s after) : s.WellFormed := by
  induction h with
  | sign first _ _ _ _ ih => exact ⟨wellFormed_of_compoundText first, ih⟩
  | space first _ _ _ ih => exact ⟨wellFormed_of_compoundText first, ih⟩
  | compound only => exact wellFormed_of_compoundText only

/-- What is parsed is well formed. -/
theorem wellFormed_of_parse {text : String} {s : Complex} (h : parse text = .ok s) :
    s.WellFormed := by
  obtain ⟨cs, ws, -, hs, -⟩ := parse_eq_ok_iff.mp h
  exact wellFormed_of_complexText hs

/-! ### Parsing what was printed -/

/-- Selectors that differ in their joining tokens alone have one text. -/
theorem Complex.text_eq_of_alike {s s' : Complex} (h : s'.alike s) : s'.text = s.text := by
  induction s generalizing s' with
  | compound c =>
    cases s' with
    | compound c' =>
      have hc : c' = c := by simpa [Complex.alike] using h
      rw [hc]
    | joined operator' left' right' => simp [Complex.alike] at h
  | joined operator left right ih =>
    cases s' with
    | compound c' => simp [Complex.alike] at h
    | joined operator' left' right' =>
      simp only [Complex.alike, Bool.and_eq_true, beq_iff_eq] at h
      obtain ⟨⟨hop, hleft⟩, hright⟩ := h
      simp only [Complex.text, hop, hleft, ih hright]

/-- Printing and parsing undo each other. A parsed selector is parsed again from its text, up to
where its joining tokens stand, and prints as before; so is every selector of the shape that the
grammar can produce. -/
theorem parse_text_alike :
    (∀ text s, parse text = .ok s →
      ∃ s', parse s.text = .ok s' ∧ s'.alike s ∧ s'.text = s.text) ∧
    ∀ s : Complex, s.WellFormed → ∃ s', parse s.text = .ok s' ∧ s'.alike s := by
  constructor
  · intro text s h
    obtain ⟨s', hs', halike⟩ := (wellFormed_of_parse h).exists_parse
    exact ⟨s', hs', halike, Complex.text_eq_of_alike halike⟩
  · intro s h
    exact h.exists_parse

end StyleCheck.Selector
