import Mathlib.Data.List.DropRight
import StyleCheck.Proofs.Css.Sheet
import StyleCheck.Proofs.Style.Pairing
import StyleCheck.Proofs.Style.Recovery

/-!
# Values without white space at their ends

No declaration of a sheet has white space at the ends of its value, whether the value is taken as
written, with or without a mark of importance, or from the canonical text. Merging the rules of a
sheet makes no new values. Main statement: the declarations of every sheet that was read.
-/

namespace StyleCheck

/-! ### White space at the ends -/

namespace Text

/-- White space stands at neither end of a text. -/
structure Trimmed (cs : List Char) : Prop where
  head : ∀ h : cs ≠ [], ¬ isSpace (cs.head h)
  last : ∀ h : cs ≠ [], ¬ isSpace (cs.getLast h)

/-- The front of a text that does not begin with white space, without the white space behind it. -/
theorem trimmed_dropRightWhile {cs ds : List Char} (h : ∀ hne : ds ≠ [], ¬ isSpace (ds.head hne))
    (hfront : cs <+: ds) : Trimmed (dropRightWhile isSpace cs) where
  head := by
    intro hne
    have hbegin : dropRightWhile isSpace cs <+: ds :=
      (List.rdropWhile_prefix isSpace cs).trans hfront
    rw [hbegin.head hne]
    exact h _
  last := List.rdropWhile_last_not isSpace cs

theorem trimmed_trimChars (cs : List Char) : Trimmed (trimChars cs) := by
  refine trimmed_dropRightWhile ?_ (List.prefix_refl (cs.dropWhile isSpace))
  intro hne
  rw [List.head_dropWhile_not isSpace hne]
  exact Bool.false_ne_true

theorem Trimmed.trimChars_eq {cs : List Char} (h : Trimmed cs) : trimChars cs = cs := by
  have hfront : cs.dropWhile isSpace = cs := by
    rw [List.dropWhile_eq_self_iff]
    intro hlen
    rw [← List.head_eq_getElem (List.ne_nil_of_length_pos hlen)]
    exact h.head _
  rw [trimChars, hfront]
  exact List.rdropWhile_eq_self_iff.mpr h.last

theorem Trimmed.trim_eq {s : String} (h : Trimmed s.toList) : trim s = s := by
  rw [trim, h.trimChars_eq, String.ofList_toList]

theorem trimmed_trim (s : String) : Trimmed (trim s).toList := by
  rw [trim, String.toList_ofList]
  exact trimmed_trimChars _

end Text

/-! ### Canonical values -/

namespace Css

/-- A declaration is cut out of its canonical text. -/
def CanonicalDeclaration.IsCut (d : CanonicalDeclaration) : Prop :=
  ∃ text, splitDeclaration text = (d.property, d.value)

theorem CanonicalDeclaration.IsCut.trimmed {d : CanonicalDeclaration} (h : d.IsCut) :
    Text.Trimmed d.value.toList := by
  obtain ⟨text, hsplit⟩ := h
  obtain ⟨-, hvalue⟩ := Prod.mk.inj hsplit
  rw [← hvalue]
  exact Text.trimmed_trim _

theorem Sheet.IsRead.isCut {d : CanonicalDeclaration} (h : Sheet.IsRead d) : d.IsCut := by
  obtain ⟨name, r, h⟩ := h
  unfold declaration at h
  split at h
  · obtain ⟨⟨property, value⟩, hvalue, h⟩ := bind_eq_ok.mp h
    obtain ⟨_, -, hd⟩ := bind_eq_ok.mp h
    obtain ⟨text, -, hsplit⟩ := bind_eq_ok.mp hvalue
    rw [← Except.ok.inj hd]
    exact ⟨_, Except.ok.inj hsplit⟩
  · exact absurd h (unexpected_ne_ok r d)

end Css

/-! ### Values as written -/

namespace Style

namespace Written

/-- What stands before a mark of importance loses its white space to the mark alone. -/
theorem trimmed_withoutImportance {value rest : List Char} (hvalue : Text.Trimmed value)
    (h : withoutImportance value = some rest) : Text.Trimmed rest := by
  unfold withoutImportance at h
  split at h
  · cases h
  · next before flag hsplit =>
    split at h
    · cases h
      exact Text.trimmed_dropRightWhile hvalue.head ⟨_, (eq_of_splitAtLast hsplit).symm⟩
    · cases h

theorem trimmed_declaration? {text : List Char} {w : WrittenDeclaration}
    (h : declaration? text = some w) : Text.Trimmed w.value.toList := by
  unfold declaration? at h
  split at h
  · cases h
  · next name value _ =>
    dsimp only at h
    split at h
    · cases h
    · split at h
      · next rest hrest =>
        cases h
        rw [String.toList_ofList]
        exact trimmed_withoutImportance (Text.trimmed_trimChars value) hrest
      · cases h
        rw [String.toList_ofList]
        exact Text.trimmed_trimChars value

theorem trimmed_styleBlocks {css : String} {block : List WrittenDeclaration}
    {w : WrittenDeclaration} (hblock : block ∈ styleBlocks css) (hw : w ∈ block) :
    Text.Trimmed w.value.toList := by
  obtain ⟨body, -, rfl⟩ := List.mem_map.mp hblock
  obtain ⟨text, -, hdeclaration⟩ := List.mem_filterMap.mp hw
  exact trimmed_declaration? hdeclaration

end Written

/-! ### Sheets -/

theorem trimmed_ofCanonical {block : Option (List WrittenDeclaration)} {ruleIndex : Nat}
    {c : Css.CanonicalDeclaration} (hc : Text.Trimmed c.value.toList)
    (hblock : ∀ ws ∈ block, ∀ w ∈ ws, Text.Trimmed w.value.toList) :
    Text.Trimmed (Declaration.ofCanonical block ruleIndex c).value.toList := by
  unfold Declaration.ofCanonical
  dsimp only
  cases hvalue : block.bind (writtenValue? · c) with
  | none => exact hc
  | some value =>
    obtain ⟨ws, hws, hwritten⟩ := Option.bind_eq_some_iff.mp hvalue
    obtain ⟨w, hw, rfl⟩ := Option.map_eq_some_iff.mp hwritten
    exact hblock ws hws w (List.mem_reverse.mp (List.mem_of_find?_eq_some hw))

theorem trimmed_pairRules {styles : List Css.StyleRule} {css : String} {r : Rule}
    {d : Declaration} (hcut : ∀ style ∈ styles, ∀ c ∈ style.declarations, c.IsCut)
    (hr : r ∈ pairRules styles (Written.styleBlocks css)) (hd : d ∈ r.declarations.entries) :
    Text.Trimmed d.value.toList := by
  obtain ⟨⟨style, i⟩, hstyle, rfl⟩ := List.mem_map.mp hr
  obtain ⟨c, hc, rfl⟩ := exists_of_mem_ofStyleRule hd
  refine trimmed_ofCanonical (hcut style (List.fst_mem_of_mem_zipIdx hstyle) c hc).trimmed ?_
  intro ws hws w hw
  split at hws
  · exact Written.trimmed_styleBlocks (List.mem_of_getElem? hws) hw
  · cases hws

namespace Stylesheet

/-- Adding a rule declares nothing that it does not declare itself. -/
theorem mem_of_mem_addRule {s : Stylesheet} {r x : Rule} {d : Declaration}
    (hx : x ∈ (s.addRule r).rules) (hd : d ∈ x.declarations.entries) :
    (∃ y ∈ s.rules, d ∈ y.declarations.entries) ∨ d ∈ r.declarations.entries := by
  unfold addRule at hx
  split at hx
  · next place _ =>
    obtain ⟨i, hi⟩ := Array.mem_iff_getElem?.mp hx
    rw [Array.getElem?_modify] at hi
    split at hi
    · obtain ⟨first, hfirst, rfl⟩ := Option.map_eq_some_iff.mp hi
      rcases Declarations.mem_of_mem_insertAll hd with hd | hd
      · exact .inl ⟨first, Array.mem_of_getElem? hfirst, hd⟩
      · exact .inr hd
    · exact .inl ⟨x, Array.mem_of_getElem? hi, hd⟩
  · rcases Array.mem_push.mp hx with hx | rfl
    · exact .inl ⟨x, hx, hd⟩
    · exact .inr hd

/-- Merging makes no new declarations. -/
theorem mem_of_mem_ofRules {id content : String} {parsed : List Rule} {x : Rule} {d : Declaration}
    (hx : x ∈ (ofRules id content parsed).rules) (hd : d ∈ x.declarations.entries) :
    ∃ r ∈ parsed, d ∈ r.declarations.entries := by
  -- what was declared before the rules that are still to be added
  suffices h : ∀ s : Stylesheet, x ∈ (parsed.foldl addRule s).rules →
      (∃ y ∈ s.rules, d ∈ y.declarations.entries) ∨ ∃ r ∈ parsed, d ∈ r.declarations.entries by
    rcases h _ hx with ⟨y, hy, -⟩ | h
    · exact absurd hy (Array.not_mem_empty y)
    · exact h
  clear hx
  induction parsed with
  | nil => exact fun s hx ↦ .inl ⟨x, hx, hd⟩
  | cons r rest ih =>
    intro s hx
    rcases ih (s.addRule r) hx with ⟨y, hy, hdy⟩ | ⟨r', hr', hdr⟩
    · rcases mem_of_mem_addRule hy hdy with h | h
      · exact .inl h
      · exact .inr ⟨r, List.mem_cons_self, h⟩
    · exact .inr ⟨r', List.mem_cons_of_mem r hr', hdr⟩

/-- A sheet holds the style rules of a text, in whatever way they were found in it: their
declarations are cut out of canonical texts, and their values paired with those written there. -/
def IsRead (sheet : Stylesheet) : Prop :=
  ∃ (id content : String) (styles : List Css.StyleRule),
    (∀ style ∈ styles, ∀ c ∈ style.declarations, c.IsCut) ∧
      sheet = ofRules id content (pairRules styles (Written.styleBlocks content))

theorem isRead_of_read {id content : String} {sheet : Stylesheet}
    (h : read id content = .ok sheet) : sheet.IsRead := by
  obtain ⟨rules, hrules, rfl⟩ := Css.map_eq_ok.mp h
  obtain ⟨parsed, hparsed, rfl⟩ := Css.map_eq_ok.mp hrules
  refine ⟨id, content, styleRules parsed, ?_, rfl⟩
  intro style hstyle c hc
  obtain ⟨rule, hrule, hof⟩ := List.mem_filterMap.mp hstyle
  cases rule with
  | other kind => cases hof
  | style style =>
    cases hof
    exact (Css.isRead_of_sheetRules hparsed hrule hc).isCut

/-- No declaration of a sheet that was read has white space at the ends of its value. -/
theorem IsRead.trimmed {sheet : Stylesheet} (h : sheet.IsRead) {r : Rule} {d : Declaration}
    (hr : r ∈ sheet.rules) (hd : d ∈ r.declarations.entries) : Text.Trimmed d.value.toList := by
  obtain ⟨id, content, styles, hcut, rfl⟩ := h
  obtain ⟨source, hsource, hd⟩ := mem_of_mem_ofRules hr hd
  exact trimmed_pairRules hcut hsource hd

end Stylesheet

end Style

end StyleCheck
