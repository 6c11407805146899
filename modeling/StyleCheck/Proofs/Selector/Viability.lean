import StyleCheck.Proofs.Selector.Acceptance
import StyleCheck.Proofs.Selector.Faults

/-!
# Errors behind viable texts

A text is viable if it goes on to a text of the grammar. No production of the selector parser fails
anywhere but behind a viable text of its own production, and it marks no other place on the trail.
-/

namespace StyleCheck.Selector

open Grammar

/-! ### Viable texts -/

namespace Grammar

/-- The names of the plain grammar, whatever follows them. -/
def IsNameText (cs : List Char) : Prop := NameText anywhere cs []

/-- The attribute values of the plain grammar, whatever follows them. -/
def IsValueText (cs : List Char) : Prop := ∃ v, ValueText anywhere cs v []

/-- The attribute tests of the plain grammar, whatever follows them. -/
def IsTestText (cs : List Char) : Prop := ∃ test, TestText anywhere cs test []

/-- A comparison with a value, with whitespace before and behind its sign. -/
def IsComparisonText (cs : List Char) : Prop :=
  ∃ (ws : List Char) (comparison : Comparison) (ws' vs : List Char), Spaces ws ∧ Spaces ws' ∧
    IsValueText vs ∧ cs = ws ++ comparison.text.toList ++ ws' ++ vs

/-- The conditions of the plain grammar, whatever follows them. -/
def IsSimpleText (cs : List Char) : Prop := ∃ s, SimpleText anywhere cs s []

/-- The compounds of the plain grammar, whatever follows them. -/
def IsCompoundText (cs : List Char) : Prop := ∃ l, CompoundText anywhere cs l []

/-- The selectors of the plain grammar, wherever they begin and whatever follows them. -/
def IsComplexText (cs : List Char) : Prop := ∀ p, ∃ s, ComplexText anywhere p cs s []

variable {ends : List Char → Prop} {cs ds ws ws' after : List Char}

theorem NameText.isNameText (h : NameText ends cs after) : IsNameText cs := h.reread trivial

theorem isNameText_letter : IsNameText ['a'] := .name rfl (by simp) trivial

theorem ValueText.isValueText {v : AttributeValue} (h : ValueText ends cs v after) :
    IsValueText cs := ⟨v, h.reread trivial⟩

theorem IsNameText.isValueText (h : IsNameText cs) : IsValueText cs := ⟨_, .bare h⟩

theorem isValueText_quoted {quote : Char} (hquote : IsQuote quote) (hin : quote ∉ cs) :
    IsValueText (quote :: (cs ++ [quote])) := ⟨_, .literal hquote hin⟩

theorem TestText.isTestText {test : AttributeTest} (h : TestText ends cs test after) :
    IsTestText cs := ⟨test, h.reread (fun _ _ ↦ trivial) trivial⟩

theorem IsNameText.isTestText (h : IsNameText cs) : IsTestText cs := ⟨_, .present h⟩

theorem IsNameText.isTestText_compared (h : IsNameText cs) (hd : IsComparisonText ds) :
    IsTestText (cs ++ ds) := by
  obtain ⟨ws, comparison, ws', vs, hws, hws', ⟨v, hv⟩, rfl⟩ := hd
  exact ⟨_, .compared (h.reread trivial) hws hws' hv⟩

theorem SimpleText.isSimpleText {s : Simple} (h : SimpleText ends cs s after) : IsSimpleText cs :=
  ⟨s, h.reread (fun _ _ ↦ trivial) trivial⟩

theorem IsNameText.isSimpleText (h : IsNameText cs) : IsSimpleText cs := ⟨_, .typeName h⟩

theorem IsTestText.isSimpleText (h : IsTestText cs) : IsSimpleText ('[' :: (cs ++ [']'])) := by
  obtain ⟨test, h⟩ := h
  exact ⟨_, .attr (h.reread (fun _ _ ↦ trivial) trivial)⟩

theorem CompoundText.isCompoundText {l : List Simple} (h : CompoundText ends cs l after) :
    IsCompoundText cs := ⟨l, h.toAnywhere []⟩

theorem IsSimpleText.isCompoundText (h : IsSimpleText cs) : IsCompoundText cs := by
  obtain ⟨s, h⟩ := h
  exact ⟨[s], .one h⟩

theorem IsCompoundText.append (h : IsCompoundText cs) (hd : IsCompoundText ds) :
    IsCompoundText (cs ++ ds) := by
  obtain ⟨l, h⟩ := h
  obtain ⟨m, hd⟩ := hd
  generalize ([] : List Char) = after at h
  induction h with
  | one only => exact ⟨_, .more (only.reread (fun _ _ ↦ trivial) trivial) hd⟩
  | more first _ ih =>
    obtain ⟨n, hn⟩ := ih
    rw [List.append_assoc]
    exact ⟨_, .more (first.reread (fun _ _ ↦ trivial) trivial) hn⟩

theorem IsCompoundText.isComplexText (h : IsCompoundText cs) : IsComplexText cs := by
  obtain ⟨l, h⟩ := h
  exact fun p ↦ ⟨_, .compound h⟩

theorem IsCompoundText.isComplexText_sign {op : Char} (h : IsCompoundText cs) (hws : Spaces ws)
    (hop : IsSign op) (hws' : Spaces ws') (hd : IsComplexText ds) :
    IsComplexText (cs ++ (ws ++ op :: (ws' ++ ds))) := by
  obtain ⟨l, h⟩ := h
  intro p
  obtain ⟨s, hs⟩ := hd (p.advanceOver (cs ++ ws ++ op :: ws'))
  exact ⟨_, .sign (h.toAnywhere _) hws hop hws' hs⟩

theorem IsCompoundText.isComplexText_space {w : Char} (h : IsCompoundText cs)
    (hw : Text.isSpace w) (hws : Spaces ws) (hd : IsComplexText ds) :
    IsComplexText (cs ++ (w :: (ws ++ ds))) := by
  obtain ⟨l, h⟩ := h
  intro p
  obtain ⟨s, hs⟩ := hd (p.advanceOver (cs ++ w :: ws))
  exact ⟨_, .space (h.toAnywhere _) hw hws hs⟩

/-- A selector has a text wherever it begins. -/
theorem ComplexText.isComplexText {p : Position} {s : Complex} (h : ComplexText ends p cs s after) :
    IsComplexText cs := by
  induction h with
  | sign first before joins behind _ ih =>
    exact first.isCompoundText.isComplexText_sign before joins behind ih
  | space first joins behind _ ih =>
    exact first.isCompoundText.isComplexText_space joins behind ih
  | compound only => exact only.isCompoundText.isComplexText

theorem isComplexText_letter : IsComplexText ['a'] :=
  isNameText_letter.isSimpleText.isCompoundText.isComplexText

end Grammar

namespace Production

/-- The error lies behind a text that goes on to one of `T`. -/
def viable (T : List Char → Prop) : Fault := fun pre _ _ ↦ ∃ post, T (pre ++ post)

variable {α : Type} {P : Production α} {T T' : List Char → Prop} {q : Position}
  {cs ds post : List Char} {kinds : List Kind}

/-- What is viable by itself is viable behind `ds` if its texts can be completed there. -/
theorem Fails.viable_after (h : Fails P (viable T)) (ds : List Char)
    (hT : ∀ cs, T cs → ∃ es, T' (ds ++ (cs ++ es))) : Fails P ((viable T').after ds) := by
  refine h.mono ?_
  rintro pre problem post ⟨rest, hrest⟩
  obtain ⟨es, hes⟩ := hT _ hrest
  exact ⟨rest ++ es, by simpa using hes⟩

/-- A token is missed behind a viable text. -/
theorem fails_expect_viable (ds : List Char) (h : ∃ es, T (ds ++ es)) :
    Fails (expect kinds) ((viable T).after ds) := by
  refine (fails_expect kinds).mono ?_
  rintro pre problem post ⟨rfl, -, -⟩
  simpa [Fault.after, viable] using h

/-! ### Names and values -/

theorem fails_name : Fails name (viable IsNameText) :=
  (fails_expect_viable [] ⟨_, isNameText_letter⟩).bind (reads_expect _) fun _ _ _ _ _ ↦
    (fails_run _).bind (reads_run _) fun _ _ _ _ _ ↦ fails_pure _

private theorem fails_marked {k : Kind} {d : Char} (hk : k.char? = some d) (f : String → Simple)
    (hT : ∀ cs, IsNameText cs → IsSimpleText (d :: cs)) :
    Fails (do let _ ← expect [k]; return f (← name)) (viable IsSimpleText) := by
  refine (fails_expect_viable [] ⟨_, hT _ isNameText_letter⟩).bind (reads_expect _) ?_
  rintro q _ _ post ⟨x, hx, rfl, rfl⟩
  have hx : x = d := (Kind.ofChar_eq_iff hk).mp (List.mem_singleton.mp hx)
  subst hx
  refine Fails.bind (fails_name.viable_after _ ?_) reads_name fun _ _ _ _ _ ↦ fails_pure _
  intro cs hcs
  exact ⟨[], by simpa using hT cs hcs⟩

theorem fails_idName : Fails idName (viable IsSimpleText) :=
  fails_marked (k := .hash) rfl _ fun _ h ↦ ⟨_, .idName h⟩

theorem fails_className : Fails className (viable IsSimpleText) :=
  fails_marked (k := .period) rfl _ fun _ h ↦ ⟨_, .className h⟩

private theorem trail_of_closeQuote_ok {quote : Char} {p p' : Parse} {r : List Char}
    (hok : closeQuote quote p = .ok r p') : p'.trail = p.trail := by
  fun_induction closeQuote quote p generalizing r with
  | case1 p _ => cases hok
  | case2 p t c hc hq =>
    cases hok
    rfl
  | case3 p t c hc hq r' p'' hrest ih =>
    cases hok
    exact ih hrest
  | case4 p t c hc hq e p'' hrest ih => cases hok

private theorem of_closeQuote_error {quote : Char} {p p' : Parse} {e : SyntaxError}
    (hs : p.cursor.Stands q cs) (herr : closeQuote quote p = .error e p') :
    p'.trail = p.trail ∧ e = ⟨.unterminatedString, q.advanceOver cs⟩ ∧
      (IsQuote quote → quote ∉ cs) := by
  fun_induction closeQuote quote p generalizing q cs with
  | case1 p hc =>
    cases herr
    obtain rfl := hs.toAt.eq_nil_of_consume hc
    exact ⟨rfl, by rw [hs.place]; rfl, fun _ ↦ by simp⟩
  | case2 p t c hc hq => cases herr
  | case3 p t c hc hq r' p'' hrest ih => cases herr
  | case4 p t c hc hq e' p'' hrest ih =>
    cases herr
    obtain ⟨x, rest, rfl, rfl, hkeeps, hat⟩ := hs.toAt.of_consume hc
    have hs' : c.Stands (q.advanceOver [x]) rest := hs.onward hkeeps hat
    obtain ⟨htrail, hplace, hnot⟩ := ih hs' hrest
    refine ⟨htrail, hplace, fun hquote hmem ↦ ?_⟩
    rcases List.mem_cons.mp hmem with rfl | hmem
    · exact hq ⟨Kind.ofChar_eq_quote.mpr hquote, rfl⟩
    · exact hnot hquote hmem

/-- A string that is not closed goes on to the end of the text. -/
theorem fails_closeQuote (quote : Char) : Fails (closeQuote quote)
    fun pre problem post ↦ (IsQuote quote → quote ∉ pre) ∧ post = [] ∧
      problem = .unterminatedString where
  ok {p p' q cs r} hs hok := by
    rw [trail_of_closeQuote_ok hok]
    exact .refl _
  error {p p' q cs e} hs herr := by
    obtain ⟨htrail, rfl, hnot⟩ := of_closeQuote_error hs herr
    rw [htrail]
    exact ⟨.refl _, cs, [], (List.append_nil cs).symm, rfl, hnot, rfl, rfl⟩

theorem fails_literal : Fails literal (viable IsValueText) := by
  have hempty : IsValueText ('"' :: ([] ++ ['"'])) := isValueText_quoted (.inl rfl) nofun
  refine (fails_expect_viable [] ⟨_, hempty⟩).bind (reads_expect _) ?_
  rintro q _ opening post ⟨x, hx, rfl, rfl⟩
  have hquote : IsQuote x := Kind.ofChar_eq_quote.mp (List.mem_singleton.mp hx)
  refine Fails.bind ((fails_closeQuote x).mono ?_) (reads_closeQuote x) fun _ _ _ _ _ ↦ fails_pure _
  rintro pre problem post ⟨hnot, -, -⟩
  exact ⟨[x], by simpa using isValueText_quoted hquote (hnot hquote)⟩

/-- A value fails as a literal or a name does. -/
theorem fails_attributeValue_of {F : Fault} (hliteral : Fails literal F) (hname : Fails name F) :
    Fails attributeValue F := by
  refine fails_oneOf (List.cons_ne_nil _ _) ?_ ?_ (R := fun _ _ _ _ ↦ True)
  · simp only [List.forall_mem_cons, List.not_mem_nil, false_implies, implies_true, and_true]
    exact ⟨hliteral.map reads_literal, hname.map reads_name⟩
  · simp only [List.forall_mem_cons, List.not_mem_nil, false_implies, implies_true, and_true]
    exact ⟨reads_literal.map.mono fun _ _ _ _ _ ↦ trivial,
      reads_name.map.mono fun _ _ _ _ _ ↦ trivial⟩

theorem fails_attributeValue : Fails attributeValue (viable IsValueText) :=
  fails_attributeValue_of fails_literal
    (fails_name.viable_after [] fun cs h ↦ ⟨[], by simpa using h.isValueText⟩)

/-! ### Attribute conditions -/

-- Whatever stands before `=` belongs to a comparison.
theorem exists_comparison {sign : Option Token}
    (h : (∃ x, .ofChar x ∈ signKinds ∧ cs = [x] ∧ sign = some ⟨.ofChar x, x, q⟩) ∨
      cs = [] ∧ sign = none) :
    ∃ comparison : Comparison, Comparison.ofSign? (sign.map Token.kind) = some comparison ∧
      comparison.text.toList = cs ++ ['='] := by
  rcases h with ⟨x, hx, rfl, rfl⟩ | ⟨rfl, rfl⟩
  · have hmeant : ∃ comparison, Comparison.ofSign? (some (.ofChar x)) = some comparison := by
      simp only [signKinds, List.mem_cons, List.not_mem_nil, or_false] at hx
      rcases hx with h | h | h | h | h <;> rw [h] <;> exact ⟨_, rfl⟩
    obtain ⟨comparison, hmeant⟩ := hmeant
    refine ⟨comparison, hmeant, ?_⟩
    rw [text_of_ofSign? hmeant, Option.bind_some, char?_of_mem_signKinds hx]
    rfl
  · exact ⟨.equals, rfl, rfl⟩

theorem fails_comparison : Fails comparison (viable IsComparisonText) := by
  refine fails_space.bind reads_spaces fun q ws _ after hws ↦ ?_
  refine (fails_optionally _).bind (reads_optionally _) fun q sign token after hsign ↦ ?_
  obtain ⟨comparison, hmeant, htext⟩ := exists_comparison hsign
  rw [Fault.after_after]
  refine Fails.bind (fails_expect_viable _ ?_) (reads_expect _) ?_
  · refine ⟨'=' :: ['a'], ws, comparison, [], ['a'], hws, nofun, isNameText_letter.isValueText, ?_⟩
    simp [htext]
  · rintro q _ equals after ⟨x, hx, rfl, rfl⟩
    have hx : x = '=' := (Kind.ofChar_eq_iff rfl).mp (List.mem_singleton.mp hx)
    subst hx
    simp only [hmeant]
    refine fails_space.bind reads_spaces fun q ws' _ after hws' ↦ ?_
    rw [Fault.after_after, Fault.after_after]
    refine Fails.bind (fails_attributeValue.viable_after _ ?_) reads_attributeValue
      fun _ _ _ _ _ ↦ fails_pure _
    intro vs hvs
    exact ⟨[], ws, comparison, ws', vs, hws, hws', hvs, by simp [htext]⟩

theorem fails_attributeTest : Fails attributeTest (viable IsTestText) := by
  have hname : Fails name (viable IsTestText) :=
    fails_name.viable_after [] fun cs h ↦ ⟨[], by simpa using h.isTestText⟩
  refine hname.bind reads_name ?_
  rintro q ns n after ⟨hns, -⟩
  refine Fails.bind (fails_comparison.viable_after _ ?_).optional (reads_optional reads_comparison)
    fun _ _ _ _ _ ↦ fails_pure _
  intro cs hcs
  exact ⟨[], by simpa using hns.isNameText.isTestText_compared hcs⟩

theorem fails_attributeCondition : Fails attributeCondition (viable IsSimpleText) := by
  have hempty : IsSimpleText ['[', 'a', ']'] := isNameText_letter.isTestText.isSimpleText
  refine (fails_expect_viable [] ⟨_, hempty⟩).bind (reads_expect _) ?_
  rintro q _ _ after ⟨x, hx, rfl, -⟩
  have hx : x = '[' := (Kind.ofChar_eq_iff rfl).mp (List.mem_singleton.mp hx)
  subst hx
  refine Fails.bind (fails_attributeTest.viable_after _ fun cs hcs ↦ ?_) reads_attributeTest ?_
  · exact ⟨[']'], hcs.isSimpleText⟩
  · intro q ts test after hts
    rw [Fault.after_after]
    refine Fails.bind (fails_expect_viable _ ?_) (reads_expect _) fun _ _ _ _ _ ↦ fails_pure _
    exact ⟨[']'], by simpa using hts.isTestText.isSimpleText⟩

/-! ### Compounds and selectors -/

/-- A condition fails as one of its kinds does. -/
theorem fails_simple_of {F : Fault} (hid : Fails idName F) (hclass : Fails className F)
    (hattr : Fails attributeCondition F) (hname : Fails name F) : Fails simple F := by
  refine fails_oneOf (List.cons_ne_nil _ _) ?_ ?_ (R := fun _ _ _ _ ↦ True)
  · simp only [List.forall_mem_cons, List.not_mem_nil, false_implies, implies_true, and_true]
    exact ⟨hid, hclass, hattr, hname.map reads_name⟩
  · simp only [List.forall_mem_cons, List.not_mem_nil, false_implies, implies_true, and_true]
    refine ⟨?_, ?_, ?_, ?_⟩
    · exact reads_idName.mono fun _ _ _ _ _ ↦ trivial
    · exact reads_className.mono fun _ _ _ _ _ ↦ trivial
    · exact reads_attributeCondition.mono fun _ _ _ _ _ ↦ trivial
    · exact reads_name.map.mono fun _ _ _ _ _ ↦ trivial

theorem fails_simple : Fails simple (viable IsSimpleText) :=
  fails_simple_of fails_idName fails_className fails_attributeCondition
    (fails_name.viable_after [] fun cs h ↦ ⟨[], by simpa using h.isSimpleText⟩)

/-- A compound fails with what its conditions tell. -/
theorem fails_compound_of_tells {F : Fault} (h : ∀ {p : Parse} {q : Position} {cs : List Char},
    p.cursor.Stands q cs → Tells F q cs p.trail (many simple p)) : Fails compound F where
  ok {p p' q cs c} hs hok := by
    unfold compound at hok
    dsimp only at hok
    split at hok
    · cases hok
      exact (h hs).marks
    · cases hok
  error {p p' q cs e} hs herr := by
    obtain ⟨l, hl, -⟩ := reads_simple.many hs.toAt
    cases l with
    | cons first rest => simp [compound, hl] at herr
    | nil =>
      obtain ⟨e', he', hdeepest⟩ := exists_deepest _ (errors_many hl)
      simp only [compound, hl, hdeepest, Option.getD_some, EStateM.Result.error.injEq] at herr
      obtain ⟨rfl, rfl⟩ := herr
      exact ⟨(h hs).marks, (h hs).errors _ he'⟩

theorem fails_compound : Fails compound (viable IsCompoundText) := by
  refine fails_compound_of_tells fun hs ↦ tells_many reads_simple hs fun ds l post _ hread ↦ ?_
  rcases compoundText_of_repeated hread with rfl | hds
  · cases hread
    exact fails_simple.viable_after [] fun cs h ↦ ⟨[], by simpa using h.isCompoundText⟩
  · refine fails_simple.viable_after ds fun cs h ↦ ⟨[], ?_⟩
    simpa using hds.isCompoundText.append h.isCompoundText

section

variable {right : Production Complex} (hright : Fails right (viable IsComplexText))
  (hreads : Reads right (ComplexText longest))
include hright hreads

theorem fails_signJoin : Fails (signJoin right) (viable IsComplexText) := by
  have hleft : Fails compound (viable IsComplexText) :=
    fails_compound.viable_after [] fun cs h ↦ ⟨[], by simpa using h.isComplexText⟩
  refine hleft.bind reads_compound fun q cs left after hcs ↦ ?_
  refine fails_space.bind reads_spaces fun q ws _ after hws ↦ ?_
  rw [Fault.after_after]
  refine Fails.bind (fails_expect_viable _ ?_) (reads_expect _) ?_
  · refine ⟨'>' :: ([] ++ ['a']), ?_⟩
    rw [List.append_assoc]
    exact hcs.isCompoundText.isComplexText_sign hws (.inl rfl) nofun isComplexText_letter
  · rintro q _ operator after ⟨op, hop, rfl, -⟩
    refine fails_space.bind reads_spaces fun q ws' _ after hws' ↦ ?_
    rw [Fault.after_after, Fault.after_after]
    refine Fails.bind (hright.viable_after _ fun ds hds ↦ ⟨[], ?_⟩) hreads
      fun _ _ _ _ _ ↦ fails_pure _
    have hjoined := hcs.isCompoundText.isComplexText_sign hws (mem_combinatorKinds.mp hop) hws' hds
    simpa using hjoined

theorem fails_spaceJoin : Fails (spaceJoin right) (viable IsComplexText) := by
  have hleft : Fails compound (viable IsComplexText) :=
    fails_compound.viable_after [] fun cs h ↦ ⟨[], by simpa using h.isComplexText⟩
  refine hleft.bind reads_compound fun q cs left after hcs ↦ ?_
  refine Fails.bind (fails_expect_viable _ ⟨' ' :: ([] ++ ['a']), ?_⟩) (reads_expect _) ?_
  · exact hcs.isCompoundText.isComplexText_space rfl nofun isComplexText_letter
  · rintro q _ operator after ⟨w, hw, rfl, -⟩
    have hw : Text.isSpace w := Kind.ofChar_eq_whitespace.mp (List.mem_singleton.mp hw)
    refine fails_space.bind reads_spaces fun q ws _ after hws ↦ ?_
    rw [Fault.after_after, Fault.after_after]
    refine Fails.bind (hright.viable_after _ fun ds hds ↦ ⟨[], ?_⟩) hreads
      fun _ _ _ _ _ ↦ fails_pure _
    have hjoined := hcs.isCompoundText.isComplexText_space hw hws hds
    simpa using hjoined

end

/-- A selector fails as one of its forms does. -/
theorem fails_complexWithin_succ {F : Fault} {depth : Nat}
    (hsign : Fails (signJoin (complexWithin depth)) F)
    (hspace : Fails (spaceJoin (complexWithin depth)) F) (hcompound : Fails compound F) :
    Fails (complexWithin (depth + 1)) F := by
  have hreads := reads_complexWithin depth
  refine fails_oneOf (List.cons_ne_nil _ _) ?_ ?_ (R := fun _ _ _ _ ↦ True)
  · simp only [List.forall_mem_cons, List.not_mem_nil, false_implies, implies_true, and_true]
    exact ⟨hsign, hspace, hcompound.map reads_compound⟩
  · simp only [List.forall_mem_cons, List.not_mem_nil, false_implies, implies_true, and_true]
    refine ⟨?_, ?_, ?_⟩
    · exact (reads_signJoin hreads).mono fun _ _ _ _ _ ↦ trivial
    · exact (reads_spaceJoin hreads).mono fun _ _ _ _ _ ↦ trivial
    · exact reads_compound.map.mono fun _ _ _ _ _ ↦ trivial

/-- Without any depth left, a selector fails where it stands. -/
theorem fails_complexWithin_zero {F : Fault} (h : ∀ cs, F [] .noSelector cs) :
    Fails (complexWithin 0) F where
  ok _ hok := by cases hok
  error {p p' q cs e} hs herr := by
    cases herr
    exact ⟨.refl _, [], cs, rfl, hs.place, h cs⟩

/-- A selector fails behind a text that goes on to a selector. -/
theorem fails_complexWithin (depth : Nat) :
    Fails (complexWithin depth) (viable IsComplexText) := by
  induction depth with
  | zero => exact fails_complexWithin_zero fun _ ↦ ⟨['a'], isComplexText_letter⟩
  | succ depth ih =>
    have hreads := reads_complexWithin depth
    exact fails_complexWithin_succ (fails_signJoin ih hreads) (fails_spaceJoin ih hreads)
      (fails_compound.viable_after [] fun cs h ↦ ⟨[], by simpa using h.isComplexText⟩)

end Production

end StyleCheck.Selector
