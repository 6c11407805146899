import StyleCheck.Selector.Syntax

/-!
# Selector grammar

The texts of every production, each with the syntax that it stands for. A production's text is
stated with what follows it, because that decides where a name may end: `anywhere` gives the plain
grammar, in which `ab` is one name or two, and `longest` the reading that never breaks off a name.
Main statement: a text of the plain grammar has a reading with longest names.
-/

namespace StyleCheck.Selector.Grammar

/-- Whether a character continues a name. -/
def continuesName (c : Char) : Bool := c.isAlpha || c.isDigit || c == '-' || c == '_'

/-- A text of whitespace only. -/
def Spaces (cs : List Char) : Prop := ∀ c ∈ cs, Text.isSpace c

/-- A quotation mark. -/
def IsQuote (c : Char) : Prop := c = '"' ∨ c = '\''

/-- The sign of a combinator. -/
def IsSign (c : Char) : Prop := c = '>' ∨ c = '+' ∨ c = '~'

/-- A name may end before any text. -/
def anywhere (_after : List Char) : Prop := True

/-- A name ends only where no character continues it. -/
def longest (after : List Char) : Prop := ∀ c ∈ after.head?, continuesName c = false

variable (ends : List Char → Prop)

/-- A letter and characters that continue the name, up to where a name may end. -/
inductive NameText : List Char → List Char → Prop
  | name {c : Char} {cs after : List Char} (first : c.isAlpha)
      (more : ∀ d ∈ cs, continuesName d) (stop : ends after) : NameText (c :: cs) after

/-- A literal up to the first return of its opening quote, or a bare name. -/
inductive ValueText : List Char → AttributeValue → List Char → Prop
  | literal {quote : Char} {inner after : List Char} (opens : IsQuote quote)
      (inside : quote ∉ inner) :
      ValueText (quote :: (inner ++ [quote]))
        (.literal (String.ofList (quote :: (inner ++ [quote])))) after
  | bare {cs after : List Char} (name : NameText ends cs after) :
      ValueText cs (.bare (String.ofList cs)) after

/-- What stands in the brackets of an attribute condition: a name, and perhaps a sign of
comparison and a value with whitespace around the sign. -/
inductive TestText : List Char → AttributeTest → List Char → Prop
  | present {cs after : List Char} (name : NameText ends cs after) :
      TestText cs ⟨String.ofList cs, none, none⟩ after
  | compared {cs ws ws' vs after : List Char} {comparison : Comparison} {value : AttributeValue}
      (name : NameText ends cs (ws ++ comparison.text.toList ++ ws' ++ vs ++ after))
      (before : Spaces ws) (between : Spaces ws') (expected : ValueText ends vs value after) :
      TestText (cs ++ (ws ++ comparison.text.toList ++ ws' ++ vs))
        ⟨String.ofList cs, some comparison, some value⟩ after

/-- One condition on an element. -/
inductive SimpleText : List Char → Simple → List Char → Prop
  | idName {cs after : List Char} (name : NameText ends cs after) :
      SimpleText ('#' :: cs) (.idName (String.ofList cs)) after
  | className {cs after : List Char} (name : NameText ends cs after) :
      SimpleText ('.' :: cs) (.className (String.ofList cs)) after
  | attr {cs after : List Char} {test : AttributeTest}
      (inside : TestText ends cs test (']' :: after)) :
      SimpleText ('[' :: (cs ++ [']'])) (.attr test) after
  | typeName {cs after : List Char} (name : NameText ends cs after) :
      SimpleText cs (.typeName (String.ofList cs)) after

/-- One or more conditions, one after the other. -/
inductive CompoundText : List Char → List Simple → List Char → Prop
  | one {cs after : List Char} {s : Simple} (only : SimpleText ends cs s after) :
      CompoundText cs [s] after
  | more {cs ds after : List Char} {s : Simple} {rest : List Simple}
      (first : SimpleText ends cs s (ds ++ after)) (others : CompoundText ds rest after) :
      CompoundText (cs ++ ds) (s :: rest) after

/-- A selector that begins at a place: compounds joined by signs or by whitespace. The joining
token is the sign, or the first character of the whitespace. -/
inductive ComplexText : Position → List Char → Complex → List Char → Prop
  | sign {p : Position} {cs ws ws' ds after : List Char} {op : Char} {left : List Simple}
      {right : Complex} (first : CompoundText ends cs left (ws ++ op :: (ws' ++ ds) ++ after))
      (before : Spaces ws) (joins : IsSign op) (behind : Spaces ws')
      (others : ComplexText (p.advanceOver (cs ++ ws ++ op :: ws')) ds right after) :
      ComplexText p (cs ++ (ws ++ op :: (ws' ++ ds)))
        (.joined ⟨.ofChar op, op, p.advanceOver (cs ++ ws)⟩ ⟨left⟩ right) after
  | space {p : Position} {cs ws ds after : List Char} {w : Char} {left : List Simple}
      {right : Complex} (first : CompoundText ends cs left (w :: (ws ++ ds) ++ after))
      (joins : Text.isSpace w) (behind : Spaces ws)
      (others : ComplexText (p.advanceOver (cs ++ w :: ws)) ds right after) :
      ComplexText p (cs ++ (w :: (ws ++ ds)))
        (.joined ⟨.ofChar w, w, p.advanceOver cs⟩ ⟨left⟩ right) after
  | compound {p : Position} {cs after : List Char} {only : List Simple}
      (only_text : CompoundText ends cs only after) :
      ComplexText p cs (.compound ⟨only⟩) after

/-- A selector and nothing but whitespace after it. -/
def SelectorText (text : String) (s : Complex) : Prop :=
  ∃ cs ws, text.toList = cs ++ ws ∧ ComplexText ends .start cs s ws ∧ Spaces ws

variable {ends}

/-! ### Classes of characters -/

theorem isAlpha_iff (c : Char) :
    c.isAlpha ↔ 65 ≤ c.toNat ∧ c.toNat ≤ 90 ∨ 97 ≤ c.toNat ∧ c.toNat ≤ 122 := by
  show (decide (65 ≤ c.val ∧ c.val ≤ 90) || (97 ≤ c.val && c.val ≤ 122)) = true ↔ _
  simp only [Bool.or_eq_true, Bool.and_eq_true, decide_eq_true_eq, UInt32.le_iff_toNat_le]
  rfl

theorem isDigit_iff (c : Char) : c.isDigit ↔ 48 ≤ c.toNat ∧ c.toNat ≤ 57 := by
  simp only [Char.isDigit, Bool.and_eq_true, decide_eq_true_eq, ge_iff_le,
    UInt32.le_iff_toNat_le]
  rfl

/-- Whitespace lies outside the printable ASCII characters. -/
theorem toNat_of_isSpace {c : Char} (h : Text.isSpace c) : c.toNat ≤ 32 ∨ 133 ≤ c.toNat := by
  simp only [Text.isSpace, Bool.or_eq_true, Bool.and_eq_true, decide_eq_true_eq, beq_iff_eq] at h
  omega

/-- Whitespace does not continue a name. -/
theorem continuesName_of_isSpace {c : Char} (h : Text.isSpace c) : continuesName c = false := by
  have hn := toNat_of_isSpace h
  rw [← Bool.not_eq_true]
  intro hc
  simp only [continuesName, Bool.or_eq_true, beq_iff_eq, isAlpha_iff, isDigit_iff] at hc
  rcases hc with ((h1 | h1) | rfl) | rfl
  · omega
  · omega
  · exact absurd hn (by decide)
  · exact absurd hn (by decide)

/-- A letter continues a name. -/
theorem continuesName_of_isAlpha {c : Char} (h : c.isAlpha) : continuesName c := by
  simp [continuesName, h]

/-- The sign of a combinator does not continue a name. -/
theorem IsSign.continuesName {c : Char} (h : IsSign c) : continuesName c = false := by
  rcases h with rfl | rfl | rfl <;> rfl

/-- The sign of a combinator is not whitespace. -/
theorem IsSign.not_isSpace {c : Char} (h : IsSign c) : ¬ Text.isSpace c := by
  rcases h with rfl | rfl | rfl <;> decide

/-! ### How texts begin -/

/-- A character that a condition may begin with. -/
def StartsCondition (c : Char) : Prop := c = '#' ∨ c = '.' ∨ c = '[' ∨ c.isAlpha

theorem StartsCondition.not_isSpace {c : Char} (h : StartsCondition c) : ¬ Text.isSpace c := by
  rcases h with rfl | rfl | rfl | h
  · decide
  · decide
  · decide
  · intro hs
    simpa [continuesName_of_isAlpha h] using continuesName_of_isSpace hs

theorem StartsCondition.not_isSign {c : Char} (h : StartsCondition c) : ¬ IsSign c := by
  unfold StartsCondition at h
  rintro (rfl | rfl | rfl) <;> revert h <;> decide

theorem SimpleText.exists_cons {cs after : List Char} {s : Simple}
    (h : SimpleText ends cs s after) : ∃ x xs, cs = x :: xs ∧ StartsCondition x := by
  cases h with
  | idName _ => exact ⟨_, _, rfl, .inl rfl⟩
  | className _ => exact ⟨_, _, rfl, .inr (.inl rfl)⟩
  | attr _ => exact ⟨_, _, rfl, .inr (.inr (.inl rfl))⟩
  | typeName name =>
    obtain ⟨first, -, -⟩ := name
    exact ⟨_, _, rfl, .inr (.inr (.inr first))⟩

theorem CompoundText.exists_cons {cs after : List Char} {l : List Simple}
    (h : CompoundText ends cs l after) : ∃ x xs, cs = x :: xs ∧ StartsCondition x := by
  cases h with
  | one only => exact only.exists_cons
  | more first _ =>
    obtain ⟨x, xs, rfl, hx⟩ := first.exists_cons
    exact ⟨x, _, rfl, hx⟩

theorem ComplexText.exists_cons {p : Position} {cs after : List Char} {s : Complex}
    (h : ComplexText ends p cs s after) : ∃ x xs, cs = x :: xs ∧ StartsCondition x := by
  cases h with
  | sign first =>
    obtain ⟨x, xs, rfl, hx⟩ := first.exists_cons
    exact ⟨x, _, rfl, hx⟩
  | space first =>
    obtain ⟨x, xs, rfl, hx⟩ := first.exists_cons
    exact ⟨x, _, rfl, hx⟩
  | compound only => exact only.exists_cons

/-! ### Where the longest name ends -/

/-- A condition without brackets ends where a name may end. -/
theorem SimpleText.ends_or_attr {cs after : List Char} {s : Simple}
    (h : SimpleText ends cs s after) : ends after ∨ ∃ test, s = .attr test := by
  cases h with
  | attr _ => exact .inr ⟨_, rfl⟩
  | idName name | className name | typeName name =>
    obtain ⟨-, -, stop⟩ := name
    exact .inl stop

theorem longest_nil : longest [] := by
  simp [longest]

theorem longest_cons {c : Char} {cs : List Char} :
    longest (c :: cs) ↔ continuesName c = false := by
  simp [longest]

/-- Whitespace ends a name. -/
theorem longest_append_of_spaces {ws cs : List Char} (h : Spaces ws) (hc : longest cs) :
    longest (ws ++ cs) := by
  cases ws with
  | nil => exact hc
  | cons w ws => exact longest_cons.mpr (continuesName_of_isSpace (h w List.mem_cons_self))

/-- Every comparison sign ends a name. -/
theorem longest_comparison (comparison : Comparison) (cs : List Char) :
    longest (comparison.text.toList ++ cs) := by
  cases comparison <;> exact longest_cons.mpr rfl

/-! ### From one reading of names to another -/

variable {ends' : List Char → Prop} {cs ds after after' : List Char}

theorem NameText.reread (h : NameText ends cs after') (ha : ends' after) :
    NameText ends' cs after := by
  obtain ⟨first, more, -⟩ := h
  exact .name first more ha

theorem ValueText.reread {v : AttributeValue} (h : ValueText ends cs v after')
    (ha : ends' after) : ValueText ends' cs v after := by
  cases h with
  | literal opens inside => exact .literal opens inside
  | bare name => exact .bare (name.reread ha)

theorem TestText.reread (hl : ∀ x, longest x → ends' x) {test : AttributeTest}
    (h : TestText ends cs test after') (ha : ends' after) : TestText ends' cs test after := by
  cases h with
  | present name => exact .present (name.reread ha)
  | compared name before between expected =>
    refine .compared (name.reread (hl _ ?_)) before between (expected.reread ha)
    simp only [List.append_assoc]
    exact longest_append_of_spaces before (longest_comparison _ _)

/-- A condition is one before any text where a name may end. -/
theorem SimpleText.reread (hl : ∀ x, longest x → ends' x) {s : Simple}
    (h : SimpleText ends cs s after') (ha : ends' after) : SimpleText ends' cs s after := by
  cases h with
  | idName name => exact .idName (name.reread ha)
  | className name => exact .className (name.reread ha)
  | attr inside => exact .attr (inside.reread hl (hl _ (longest_cons.mpr rfl)))
  | typeName name => exact .typeName (name.reread ha)

/-- In the plain grammar it does not matter what follows a compound. -/
theorem CompoundText.toAnywhere {l : List Simple} (h : CompoundText ends cs l after)
    (after' : List Char) : CompoundText anywhere cs l after' := by
  induction h with
  | one only => exact .one (only.reread (fun _ _ ↦ trivial) trivial)
  | more first _ ih => exact .more (first.reread (fun _ _ ↦ trivial) trivial) ih

/-- In the plain grammar it does not matter what follows a selector. -/
theorem ComplexText.toAnywhere {p : Position} {s : Complex} (h : ComplexText ends p cs s after)
    (after' : List Char) : ComplexText anywhere p cs s after' := by
  induction h with
  | sign first before joins behind _ ih =>
    exact .sign (first.toAnywhere _) before joins behind ih
  | space first joins behind _ ih => exact .space (first.toAnywhere _) joins behind ih
  | compound only => exact .compound (only.toAnywhere _)

/-- Every reading is one of the plain grammar. -/
theorem SelectorText.toAnywhere {text : String} {s : Complex} (h : SelectorText ends text s) :
    SelectorText anywhere text s := by
  obtain ⟨cs, ws, ht, hs, hw⟩ := h
  exact ⟨cs, ws, ht, hs.toAnywhere ws, hw⟩

/-! ### Longest names in the plain grammar -/

private theorem NameText.append (h : NameText anywhere cs after')
    (hd : NameText longest ds after) : NameText longest (cs ++ ds) after := by
  obtain ⟨first, more, -⟩ := h
  obtain ⟨first', more', stop⟩ := hd
  refine .name first ?_ stop
  intro c hc
  rcases List.mem_append.mp hc with hc | hc
  · exact more c hc
  · rcases List.mem_cons.mp hc with rfl | hc
    · exact continuesName_of_isAlpha first'
    · exact more' c hc

-- A condition that ends in a name takes in the name behind it; one in brackets stays apart.
private theorem SimpleText.absorb {s : Simple} (h : SimpleText anywhere cs s after')
    (hd : NameText longest ds after) :
    (∃ s', SimpleText longest cs s' (ds ++ after)) ∨
      ∃ s', SimpleText longest (cs ++ ds) s' after := by
  cases h with
  | idName name => exact .inr ⟨_, .idName (name.append hd)⟩
  | className name => exact .inr ⟨_, .className (name.append hd)⟩
  | attr inside => exact .inl ⟨_, .attr (inside.reread (fun _ ↦ id) (longest_cons.mpr rfl))⟩
  | typeName name => exact .inr ⟨_, .typeName (name.append hd)⟩

/-- The conditions of a compound behind the first one, of which there may be none. -/
def RestText (ends : List Char → Prop) (cs : List Char) (after : List Char) : Prop :=
  cs = [] ∨ ∃ rest, CompoundText ends cs rest after

/-- A compound is a condition with further ones behind it. -/
theorem exists_compoundText_iff :
    (∃ l, CompoundText ends cs l after) ↔
      ∃ first rest s, cs = first ++ rest ∧ SimpleText ends first s (rest ++ after) ∧
        RestText ends rest after := by
  constructor
  · rintro ⟨l, h⟩
    cases h with
    | one only => exact ⟨cs, [], _, by simp, only, .inl rfl⟩
    | more first others => exact ⟨_, _, _, rfl, first, .inr ⟨_, others⟩⟩
  · rintro ⟨first, rest, s, rfl, hs, rfl | ⟨l, hr⟩⟩
    · exact ⟨[s], by simpa using CompoundText.one hs⟩
    · exact ⟨s :: l, .more hs hr⟩

private theorem CompoundText.cons {s : Simple} {l : List Simple}
    (h : SimpleText anywhere cs s (ds ++ after)) (hl : CompoundText longest ds l after) :
    ∃ l', CompoundText longest (cs ++ ds) l' after := by
  obtain ⟨first, rest, s', rfl, hs, hr⟩ := exists_compoundText_iff.mp ⟨l, hl⟩
  -- Only a bare name in front of the compound can run together with the condition.
  cases hs with
  | idName name => exact ⟨_, .more (h.reread (fun _ ↦ id) (longest_cons.mpr rfl)) hl⟩
  | className name => exact ⟨_, .more (h.reread (fun _ ↦ id) (longest_cons.mpr rfl)) hl⟩
  | attr inside => exact ⟨_, .more (h.reread (fun _ ↦ id) (longest_cons.mpr rfl)) hl⟩
  | typeName name =>
    rcases h.absorb name with ⟨s', h⟩ | ⟨s', h⟩
    · rw [← List.append_assoc] at h
      exact ⟨_, .more h hl⟩
    · rw [← List.append_assoc]
      exact exists_compoundText_iff.mpr ⟨_, _, s', rfl, h, hr⟩

private theorem CompoundText.exists_longest {l : List Simple}
    (h : CompoundText anywhere cs l after) (ha : longest after) :
    ∃ l', CompoundText longest cs l' after := by
  induction h with
  | one only => exact ⟨_, .one (only.reread (fun _ ↦ id) ha)⟩
  | more first _ ih =>
    obtain ⟨l', hl⟩ := ih ha
    exact CompoundText.cons first hl

private theorem ComplexText.exists_longest {p : Position} {s : Complex}
    (h : ComplexText anywhere p cs s after) (ha : longest after) :
    ∃ s', ComplexText longest p cs s' after := by
  induction h with
  | sign first before joins behind _ ih =>
    obtain ⟨l, hl⟩ := first.exists_longest (by
      simp only [List.append_assoc, List.cons_append]
      exact longest_append_of_spaces before (longest_cons.mpr joins.continuesName))
    obtain ⟨s', hs⟩ := ih ha
    exact ⟨_, .sign hl before joins behind hs⟩
  | space first joins behind _ ih =>
    obtain ⟨l, hl⟩ := first.exists_longest (longest_cons.mpr (continuesName_of_isSpace joins))
    obtain ⟨s', hs⟩ := ih ha
    exact ⟨_, .space hl joins behind hs⟩
  | compound only =>
    obtain ⟨l, hl⟩ := only.exists_longest ha
    exact ⟨_, .compound hl⟩

/-- Every text of the plain grammar can be read without breaking off a name. -/
theorem exists_longest_of_anywhere {text : String} {s : Complex}
    (h : SelectorText anywhere text s) : ∃ s', SelectorText longest text s' := by
  obtain ⟨cs, ws, ht, hs, hw⟩ := h
  obtain ⟨s', hs'⟩ := hs.exists_longest (by
    simpa using longest_append_of_spaces hw longest_nil)
  exact ⟨s', cs, ws, ht, hs', hw⟩

end StyleCheck.Selector.Grammar
