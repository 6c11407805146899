import StyleCheck.Css.Sheet

/-!
# Rules of a sheet

What the style rules of a sheet are made of: each declaration of a rule was read behind its name
in the block of the rule, whatever stands around it.
-/

namespace StyleCheck.Css

theorem bind_eq_ok {ε α β : Type} {x : Except ε α} {f : α → Except ε β} {b : β} :
    (x >>= f) = .ok b ↔ ∃ a, x = .ok a ∧ f a = .ok b := by
  cases x <;> simp [bind, Except.bind]

theorem map_eq_ok {ε α β : Type} {x : Except ε α} {f : α → β} {b : β} :
    x.map f = .ok b ↔ ∃ a, x = .ok a ∧ f a = b := by
  cases x <;> simp [Except.map]

theorem unexpected_ne_ok {α : Type} (r : Region) (a : α) : r.unexpected ≠ Except.ok a := by
  unfold Region.unexpected
  split <;> exact nofun

namespace Sheet

/-- A declaration was read behind its name. -/
def IsRead (d : CanonicalDeclaration) : Prop := ∃ name r, declaration name r = .ok d

section

variable {inner : Reading} {setting : Setting} {n : Nat} {r : Region}

/-- What stands at the front of a block is passed over, is a rule, or was read as a declaration. -/
theorem entries_cases {es : List Entry} (h : entries inner setting (n + 1) r = .ok es) :
    es = [] ∨ ∃ rest, entries inner setting n rest = .ok es ∨ ∃ e more, es = e :: more ∧
      entries inner setting n rest = .ok more ∧ ∀ d, e = .declaration d → IsRead d := by
  have hcons : ∀ {e : Entry} {rest : Region}, (∀ d, e = .declaration d → IsRead d) →
      (do return e :: (← entries inner setting n rest)) = Except.ok es →
      ∃ rest, entries inner setting n rest = .ok es ∨ ∃ e more, es = e :: more ∧
        entries inner setting n rest = .ok more ∧ ∀ d, e = .declaration d → IsRead d := by
    intro e rest he h
    obtain ⟨more, hmore, hes⟩ := bind_eq_ok.mp h
    exact ⟨rest, .inr ⟨e, more, (Except.ok.inj hes).symm, hmore, he⟩⟩
  have hrule : ∀ d, Entry.rule = .declaration d → IsRead d := nofun
  unfold entries at h
  dsimp only at h
  split at h
  · exact .inl (Except.ok.inj h).symm
  · exact .inr ⟨_, .inl h⟩
  · obtain ⟨_, -, h⟩ := bind_eq_ok.mp h
    exact .inr (hcons hrule h)
  · split at h
    · obtain ⟨_, -, h⟩ := bind_eq_ok.mp h
      exact .inr (hcons hrule h)
    · split at h
      · next d hd =>
        refine .inr (hcons ?_ h)
        rintro _ ⟨⟩
        exact ⟨_, _, hd⟩
      · split at h
        · exact .inr (hcons hrule h)
        · cases h
  · obtain ⟨_, -, h⟩ := bind_eq_ok.mp h
    exact .inr (hcons hrule h)

theorem isRead_of_entries {es : List Entry} {d : CanonicalDeclaration}
    (h : entries inner setting n r = .ok es) (hd : .declaration d ∈ es) : IsRead d := by
  induction n generalizing r es with
  | zero =>
    cases h
    cases hd
  | succ n ih =>
    rcases entries_cases h with rfl | ⟨rest, h | ⟨e, more, rfl, hmore, he⟩⟩
    · cases hd
    · exact ih h hd
    · rcases List.mem_cons.mp hd with hd | hd
      · exact he d hd.symm
      · exact ih hmore hd

theorem isRead_of_contentWithin {depth : Nat} {es : List Entry} {d : CanonicalDeclaration}
    (h : contentWithin depth setting r = .ok es) (hd : .declaration d ∈ es) : IsRead d := by
  cases depth with
  | zero =>
    cases h
    cases hd
  | succ depth => exact isRead_of_entries h hd

/-- A rule of the top level is no style rule, or holds what was found in a block. -/
theorem rules_cases {stage : Stage} {parsed : List SheetRule}
    (h : rules inner (n + 1) stage r = .ok parsed) :
    parsed = [] ∨ ∃ rule more stage rest, parsed = rule :: more ∧
      rules inner n stage rest = .ok more ∧ ∀ style, rule = .style style →
        ∃ selectors block content, inner .style block = .ok content ∧
          style = styleRule selectors content := by
  unfold rules at h
  dsimp only at h
  split at h
  · exact .inl (Except.ok.inj h).symm
  · obtain ⟨⟨kind, stage, rest⟩, -, h⟩ := bind_eq_ok.mp h
    obtain ⟨more, hmore, hparsed⟩ := bind_eq_ok.mp h
    exact .inr ⟨_, more, stage, rest, (Except.ok.inj hparsed).symm, hmore, nofun⟩
  · obtain ⟨⟨⟨selectors, content⟩, rest⟩, hrule, h⟩ := bind_eq_ok.mp h
    obtain ⟨more, hmore, hparsed⟩ := bind_eq_ok.mp h
    refine .inr ⟨_, more, _, rest, (Except.ok.inj hparsed).symm, hmore, ?_⟩
    rintro _ ⟨⟩
    unfold qualifiedRule at hrule
    dsimp only at hrule
    split at hrule
    · obtain ⟨names, -, hrule⟩ := bind_eq_ok.mp hrule
      obtain ⟨found, hfound, hrule⟩ := bind_eq_ok.mp hrule
      cases hrule
      exact ⟨_, _, _, hfound, rfl⟩
    · exact absurd hrule (unexpected_ne_ok _ _)
    · cases hrule

end

theorem declaration_mem_of_mem_ownDeclarations {content : List Entry} {d : CanonicalDeclaration}
    (h : d ∈ ownDeclarations content) : .declaration d ∈ content := by
  fun_induction ownDeclarations content with
  | case1 e rest ih =>
    rcases List.mem_cons.mp h with rfl | h
    · exact List.mem_cons_self
    · exact List.mem_cons_of_mem _ (ih h)
  | case2 => cases h

theorem declaration_mem_of_mem_styleRule {selectors : List String} {content : List Entry}
    {d : CanonicalDeclaration} (h : d ∈ (styleRule selectors content).declarations) :
    .declaration d ∈ content := by
  apply declaration_mem_of_mem_ownDeclarations
  simp only [styleRule, List.partition_eq_filter_filter, List.mem_append, List.mem_filter] at h
  rcases h with ⟨h, -⟩ | ⟨h, -⟩ <;> exact h

/-- The declarations of a style rule were read in its block. -/
theorem isRead_of_rules {depth n : Nat} {stage : Stage} {r : Region} {parsed : List SheetRule}
    {style : StyleRule} {d : CanonicalDeclaration}
    (h : rules (contentWithin depth) n stage r = .ok parsed) (hstyle : .style style ∈ parsed)
    (hd : d ∈ style.declarations) : IsRead d := by
  induction n generalizing stage r parsed with
  | zero =>
    cases h
    cases hstyle
  | succ n ih =>
    rcases rules_cases h with rfl | ⟨rule, more, _, _, rfl, hmore, hrule⟩
    · cases hstyle
    · rcases List.mem_cons.mp hstyle with hstyle | hstyle
      · obtain ⟨selectors, block, content, hcontent, rfl⟩ := hrule style hstyle.symm
        exact isRead_of_contentWithin hcontent (declaration_mem_of_mem_styleRule hd)
      · exact ih hmore hstyle

end Sheet

/-- Each declaration of each style rule of a sheet was read behind its name. -/
theorem isRead_of_sheetRules {css : String} {parsed : List SheetRule} {style : StyleRule}
    {d : CanonicalDeclaration} (h : sheetRules css = .ok parsed) (hstyle : .style style ∈ parsed)
    (hd : d ∈ style.declarations) : Sheet.IsRead d :=
  Sheet.isRead_of_rules h hstyle hd

end StyleCheck.Css
