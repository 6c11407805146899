import StyleCheck.Proofs.Style.Merging
import StyleCheck.Style.Resolver

/-!
# Cascade

The declaration that wins the cascade is the greatest of those in the source rules, before rules
of the same selectors are merged.
-/

namespace StyleCheck.Selector.Specificity

variable {a b c : Specificity}

theorem le_iff : a ≤ b ↔ a.ids < b.ids ∨ a.ids = b.ids ∧
    (a.classes < b.classes ∨ a.classes = b.classes ∧ a.types ≤ b.types) :=
  Iff.rfl

theorem le_refl (a : Specificity) : a ≤ a := by
  rw [le_iff]
  omega

theorem le_total (a b : Specificity) : a ≤ b ∨ b ≤ a := by
  rw [le_iff, le_iff]
  omega

theorem le_trans (hab : a ≤ b) (hbc : b ≤ c) : a ≤ c := by
  rw [le_iff] at *
  omega

theorem le_antisymm (hab : a ≤ b) (hba : b ≤ a) : a = b := by
  obtain ⟨ids, classes, types⟩ := a
  obtain ⟨ids', classes', types'⟩ := b
  rw [le_iff] at hab hba
  simp only [mk.injEq] at *
  omega

end StyleCheck.Selector.Specificity

namespace StyleCheck.Style

/-! ### The order of ranks -/

namespace Rank

variable {a b c : Rank}

theorem le_iff : a ≤ b ↔ a.important.toNat < b.important.toNat ∨ a.important = b.important ∧
    (a.specificity ≤ b.specificity ∧ a.specificity ≠ b.specificity ∨
      a.specificity = b.specificity ∧
        (a.sheetIndex < b.sheetIndex ∨ a.sheetIndex = b.sheetIndex ∧ a.ruleIndex ≤ b.ruleIndex)) :=
  Iff.rfl

theorem le_refl (a : Rank) : a ≤ a :=
  .inr ⟨rfl, .inr ⟨rfl, .inr ⟨rfl, Nat.le_refl _⟩⟩⟩

theorem le_total (a b : Rank) : a ≤ b ∨ b ≤ a := by
  rw [le_iff, le_iff]
  rcases Nat.lt_trichotomy a.important.toNat b.important.toNat with h | h | h
  · exact .inl (.inl h)
  · have hi : a.important = b.important := by
      cases ha : a.important <;> cases hb : b.important <;> simp_all
    by_cases hs : a.specificity = b.specificity
    · have hk : (a.sheetIndex < b.sheetIndex ∨
            a.sheetIndex = b.sheetIndex ∧ a.ruleIndex ≤ b.ruleIndex) ∨
          (b.sheetIndex < a.sheetIndex ∨
            b.sheetIndex = a.sheetIndex ∧ b.ruleIndex ≤ a.ruleIndex) := by omega
      exact hk.imp (fun h ↦ .inr ⟨hi, .inr ⟨hs, h⟩⟩) fun h ↦ .inr ⟨hi.symm, .inr ⟨hs.symm, h⟩⟩
    · exact (Selector.Specificity.le_total a.specificity b.specificity).imp
        (fun h ↦ .inr ⟨hi, .inl ⟨h, hs⟩⟩) fun h ↦ .inr ⟨hi.symm, .inl ⟨h, Ne.symm hs⟩⟩
  · exact .inr (.inl h)

theorem le_trans (hab : a ≤ b) (hbc : b ≤ c) : a ≤ c := by
  rw [le_iff] at *
  rcases hab with hab | ⟨hi, hab⟩
  · rcases hbc with hbc | ⟨hj, -⟩
    · exact .inl (Nat.lt_trans hab hbc)
    · exact .inl (hj ▸ hab)
  rcases hbc with hbc | ⟨hj, hbc⟩
  · exact .inl (hi ▸ hbc)
  refine .inr ⟨hi.trans hj, ?_⟩
  rcases hab with ⟨hle, hne⟩ | ⟨hs, hab⟩
  · rcases hbc with ⟨hle', -⟩ | ⟨hs', -⟩
    · refine .inl ⟨Selector.Specificity.le_trans hle hle', ?_⟩
      intro he
      exact hne (Selector.Specificity.le_antisymm hle (he ▸ hle'))
    · exact .inl (hs' ▸ ⟨hle, hne⟩)
  · rcases hbc with ⟨hle', hne'⟩ | ⟨hs', hbc⟩
    · exact .inl (hs ▸ ⟨hle', hne'⟩)
    · exact .inr ⟨hs.trans hs', by omega⟩

theorem le_antisymm (hab : a ≤ b) (hba : b ≤ a) : a = b := by
  rw [le_iff] at *
  have hi : a.important = b.important := by
    rcases hab with hab | ⟨hi, -⟩
    · rcases hba with hba | ⟨hi, -⟩
      · omega
      · exact hi.symm
    · exact hi
  have hs : a.specificity = b.specificity := by
    rcases hab with hab | ⟨-, ⟨hle, -⟩ | ⟨hs, -⟩⟩
    · rw [hi] at hab
      exact absurd hab (Nat.lt_irrefl _)
    · rcases hba with hba | ⟨-, ⟨hle', -⟩ | ⟨hs, -⟩⟩
      · rw [hi] at hba
        exact absurd hba (Nat.lt_irrefl _)
      · exact Selector.Specificity.le_antisymm hle hle'
      · exact hs.symm
    · exact hs
  obtain ⟨important, specificity, sheet, rule⟩ := a
  obtain ⟨important', specificity', sheet', rule'⟩ := b
  simp only at hi hs
  subst hi hs
  simp only [Nat.lt_irrefl, ne_eq, not_true_eq_false, and_false, true_and, false_or,
    mk.injEq] at *
  omega

end Rank

/-! ### The highest contender -/

/-- The highest of some contenders is one of them, and none has a higher rank. -/
theorem Contender.exists_foldl_higher (b : Contender) (cs : List Contender) :
    ∃ w ∈ b :: cs, cs.foldl higher (some b) = some w ∧ ∀ c ∈ b :: cs, c.rank ≤ w.rank := by
  induction cs generalizing b with
  | nil => exact ⟨b, List.mem_cons_self, rfl, by simp [Rank.le_refl]⟩
  | cons x rest ih =>
    by_cases hx : b.rank ≤ x.rank
    · obtain ⟨w, hm, hw, hmax⟩ := ih x
      refine ⟨w, List.mem_cons_of_mem b hm, ?_, ?_⟩
      · rw [List.foldl_cons, higher, if_pos hx, hw]
      · intro c hc
        rcases List.mem_cons.mp hc with rfl | hc
        · exact Rank.le_trans hx (hmax x List.mem_cons_self)
        · exact hmax c hc
    · obtain ⟨w, hm, hw, hmax⟩ := ih b
      refine ⟨w, ?_, ?_, ?_⟩
      · rcases List.mem_cons.mp hm with rfl | hm
        · exact List.mem_cons_self
        · exact List.mem_cons_of_mem b (List.mem_cons_of_mem x hm)
      · rw [List.foldl_cons, higher, if_neg hx, hw]
      · intro c hc
        rcases List.mem_cons.mp hc with rfl | hc
        · exact hmax c List.mem_cons_self
        rcases List.mem_cons.mp hc with rfl | hc
        · have hb := (Rank.le_total b.rank c.rank).resolve_left hx
          exact Rank.le_trans hb (hmax b List.mem_cons_self)
        · exact hmax c (List.mem_cons_of_mem b hc)

/-- The declarations of a property that compete among some candidates. -/
def contenders (candidates : List Candidate) (p : String) : List Contender :=
  candidates.filterMap (·.contender? p)

theorem cascadeWinner_eq_none {candidates : List Candidate} {p : String} :
    cascadeWinner candidates p = none ↔ ∀ c, c ∉ contenders candidates p := by
  rw [cascadeWinner, ← contenders]
  cases contenders candidates p with
  | nil => simp
  | cons b cs =>
    obtain ⟨w, -, hw, -⟩ := Contender.exists_foldl_higher b cs
    rw [List.foldl_cons, Contender.higher, hw]
    simp only [Option.map_some, reduceCtorEq, false_iff]
    exact fun h ↦ h b List.mem_cons_self

/-- If contenders of equal rank have the same declaration, the winner is the declaration of the
highest rank. -/
theorem cascadeWinner_eq_some {candidates : List Candidate} {p : String} {d : Declaration}
    (h : ∀ b ∈ contenders candidates p, ∀ c ∈ contenders candidates p, b.rank = c.rank →
      b.declaration = c.declaration) :
    cascadeWinner candidates p = some d ↔ ∃ w ∈ contenders candidates p, w.declaration = d ∧
      ∀ c ∈ contenders candidates p, c.rank ≤ w.rank := by
  rw [cascadeWinner, ← contenders]
  cases hcs : contenders candidates p with
  | nil => simp
  | cons b cs =>
    rw [hcs] at h
    obtain ⟨w, hm, hw, hmax⟩ := Contender.exists_foldl_higher b cs
    rw [List.foldl_cons, Contender.higher, hw, Option.map_some, Option.some_inj]
    constructor
    · intro hd
      exact ⟨w, hm, hd, hmax⟩
    · rintro ⟨v, hv, rfl, hv'⟩
      exact h w hm v hv (Rank.le_antisymm (hv' w hm) (hmax v hv))

/-! ### Contenders of a registry -/

theorem Registry.mem_sheetRules {registry : Registry} {x : String × Nat × Rule} :
    x ∈ registry.sheetRules ↔ ∃ k sheet rule, registry.sheets[k]? = some sheet ∧
      rule ∈ sheet.rules ∧ x = (sheet.id, k, rule) := by
  simp only [sheetRules, List.mem_flatMap, List.mem_map, Prod.exists, List.mem_zipIdx_iff_getElem?,
    Array.getElem?_toList, Array.mem_toList_iff]
  constructor
  · rintro ⟨sheet, k, hk, rule, hr, rfl⟩
    exact ⟨k, sheet, rule, hk, hr, rfl⟩
  · rintro ⟨k, sheet, rule, hk, hr, rfl⟩
    exact ⟨sheet, k, hk, rule, hr, rfl⟩

/-- The contenders of a registry are those of its sheets' rules under the selectors that match. -/
theorem Registry.mem_contenders {registry : Registry} {isMatch : String → Bool} {p : String}
    {c : Contender} : c ∈ contenders (registry.candidates isMatch) p ↔
      ∃ k sheet rule selector d, registry.sheets[k]? = some sheet ∧ rule ∈ sheet.rules ∧
        selector ∈ rule.selectors ∧ isMatch selector ∧ rule.declarations.get? p = some d ∧
        c = ⟨d, d.important, Selector.weigh selector, k, d.ruleIndex⟩ := by
  simp only [contenders, Registry.candidates, Registry.rules, RegisteredRule.candidates,
    Candidate.contender?, List.mem_filterMap, List.mem_flatMap, List.mem_map, List.mem_filter]
  constructor
  · rintro ⟨_, ⟨_, ⟨⟨x, order⟩, hx, rfl⟩, selector, ⟨hs, hm⟩, rfl⟩, hc⟩
    obtain ⟨k, sheet, rule, hk, hr, rfl⟩ :=
      mem_sheetRules.mp (List.mem_of_getElem? (List.mem_zipIdx_iff_getElem?.mp hx))
    obtain ⟨d, hd, rfl⟩ := Option.map_eq_some_iff.mp hc
    exact ⟨k, sheet, rule, selector, d, hk, hr, hs, hm, hd, rfl⟩
  · rintro ⟨k, sheet, rule, selector, d, hk, hr, hs, hm, hd, rfl⟩
    have hmem := mem_sheetRules.mpr ⟨k, sheet, rule, hk, hr, rfl⟩
    obtain ⟨order, ho⟩ := List.mem_iff_getElem?.mp hmem
    have hx : ((sheet.id, k, rule), order) ∈ registry.sheetRules.zipIdx :=
      List.mem_zipIdx_iff_getElem?.mpr ho
    exact ⟨_, ⟨_, ⟨_, hx, rfl⟩, selector, ⟨hs, hm⟩, rfl⟩,
      Option.map_eq_some_iff.mpr ⟨d, hd, rfl⟩⟩

/-! ### Declarations of source rules -/

/-- A declaration of a source rule: the place of its sheet, the place of the rule, and the
selector under which it stands. -/
structure Origin where
  sheet : Nat
  rule : Nat
  selector : String
  declaration : Declaration
  deriving DecidableEq, Repr

namespace Origin

/-- The rank of a declaration where it stands. -/
def rank (o : Origin) : Rank :=
  ⟨o.declaration.important, Selector.weigh o.selector, o.sheet, o.rule⟩

/-- A declaration of a property stands in a source rule under a selector that matches. -/
structure Declares (sheets : List ParsedSheet) (isMatch : String → Bool) (p : String)
    (o : Origin) : Prop where
  stands : ∃ parsed r, sheets[o.sheet]? = some parsed ∧ parsed.rules[o.rule]? = some r ∧
    o.selector ∈ r.selectors ∧ o.declaration ∈ r.declarations.entries
  matched : isMatch o.selector
  property : o.declaration.property = p

section

variable {sheets : List ParsedSheet} {isMatch : String → Bool} {p : String}

/-- Declarations of one rank are one declaration. -/
theorem Declares.declaration_eq {o o' : Origin} (h : o.Declares sheets isMatch p)
    (h' : o'.Declares sheets isMatch p) (hr : o.rank = o'.rank) :
    o.declaration = o'.declaration := by
  obtain ⟨parsed, r, hk, hi, -, hd⟩ := h.stands
  obtain ⟨parsed', r', hk', hi', -, hd'⟩ := h'.stands
  simp only [rank, Rank.mk.injEq] at hr
  obtain ⟨-, -, hsheet, hrule⟩ := hr
  rw [hsheet, hk', Option.some_inj] at hk
  subst hk
  rw [hrule, hi', Option.some_inj] at hi
  subst hi
  exact (parsed'.distinct r' (List.mem_of_getElem? hi')).eq_of_mem hd hd'
    (h.property.trans h'.property.symm)

variable {registry : Registry} (hreg : registry.sheets.toList = sheets.map ParsedSheet.merged)

include hreg

private theorem getElem?_sheets {k : Nat} {sheet : Stylesheet} :
    registry.sheets[k]? = some sheet ↔ ∃ parsed, sheets[k]? = some parsed ∧
      parsed.merged = sheet := by
  rw [← Array.getElem?_toList, hreg, List.getElem?_map, Option.map_eq_some_iff]

/-- Every contender stands in a source rule, with the same rank. -/
theorem exists_of_mem_contenders {c : Contender}
    (h : c ∈ contenders (registry.candidates isMatch) p) :
    ∃ o : Origin, o.Declares sheets isMatch p ∧ o.declaration = c.declaration ∧
      o.rank = c.rank := by
  obtain ⟨k, sheet, rule, selector, d, hk, hr, hs, hm, hd, rfl⟩ := Registry.mem_contenders.mp h
  obtain ⟨parsed, hp, rfl⟩ := (getElem?_sheets hreg).mp hk
  have hmerges := parsed.merges
  obtain ⟨hmem, hprop⟩ := (hmerges.distinct rule hr).get?_eq_some.mp hd
  obtain ⟨source, hsource, hsel, hd⟩ := hmerges.drawn rule hr d hmem
  exact ⟨⟨k, d.ruleIndex, selector, d⟩,
    ⟨⟨parsed, source, hp, hsource, hsel ▸ hs, hd⟩, hm, hprop⟩, rfl, rfl⟩

/-- Every declaration of a source rule is outranked by a contender, or is one. -/
theorem Declares.exists_contender {o : Origin} (h : o.Declares sheets isMatch p) :
    ∃ c ∈ contenders (registry.candidates isMatch) p, o.rank ≤ c.rank := by
  obtain ⟨k, i, selector, d⟩ := o
  obtain ⟨⟨parsed, source, hk, hi, hs, hd⟩, hm, hp⟩ := h
  simp only at hk hi hs hd hm hp
  have hmerges := parsed.merges
  obtain ⟨r, hr, hsel, e, he, hprop, hyield⟩ := hmerges.covered i source hi d hd
  have hget : r.declarations.get? p = some e :=
    (hmerges.distinct r hr).get?_eq_some.mpr ⟨he, hprop.symm.trans hp⟩
  refine ⟨⟨e, e.important, Selector.weigh selector, k, e.ruleIndex⟩,
    Registry.mem_contenders.mpr ⟨k, parsed.merged, r, selector, e,
      (getElem?_sheets hreg).mpr ⟨parsed, hk, rfl⟩, hr, hsel ▸ hs, hm, hget, rfl⟩, ?_⟩
  rw [Rank.le_iff]
  have hplace : d.ruleIndex = i := parsed.placed i source hi d hd
  rcases hyield with hlt | ⟨himp, hle⟩
  · exact .inl hlt
  · exact .inr ⟨himp, .inr ⟨rfl, .inr ⟨rfl, hplace ▸ hle⟩⟩⟩

end

end Origin

/-! ### The winner -/

/-- The winner of the cascade over merged sheets is the declaration of the highest rank in the
source rules. There is none only if no source rule declares the property for the element, the
highest rank has one declaration, and the order of the candidates does not matter. -/
theorem cascadeWinner_merged {ν : Type} (host : Host ν) (element : ν) (p : String)
    {registry : Registry} {sheets : List ParsedSheet}
    (hreg : registry.sheets.toList = sheets.map ParsedSheet.merged) :
    let candidates := registry.candidates (host.matchesText element)
    let Declares := Origin.Declares sheets (host.matchesText element) p
    (cascadeWinner candidates p = none ↔ ∀ o, ¬ Declares o) ∧
      (∀ d, cascadeWinner candidates p = some d ↔
        ∃ o, Declares o ∧ o.declaration = d ∧ ∀ o', Declares o' → o'.rank ≤ o.rank) ∧
      (∀ o o', Declares o → Declares o' → o.rank = o'.rank → o.declaration = o'.declaration) ∧
      ∀ reordered, reordered.Perm candidates →
        cascadeWinner reordered p = cascadeWinner candidates p := by
  intro candidates Declares
  have hties : ∀ b ∈ contenders candidates p, ∀ c ∈ contenders candidates p, b.rank = c.rank →
      b.declaration = c.declaration := by
    intro b hb c hc hrank
    obtain ⟨o, ho, hd, hr⟩ := Origin.exists_of_mem_contenders hreg hb
    obtain ⟨o', ho', hd', hr'⟩ := Origin.exists_of_mem_contenders hreg hc
    rw [← hd, ← hd']
    exact ho.declaration_eq ho' (by rw [hr, hr', hrank])
  refine ⟨?_, ?_, fun o o' ho ho' ↦ ho.declaration_eq ho', ?_⟩
  · rw [cascadeWinner_eq_none]
    constructor
    · intro h o ho
      obtain ⟨c, hc, -⟩ := ho.exists_contender hreg
      exact h c hc
    · intro h c hc
      obtain ⟨o, ho, -⟩ := Origin.exists_of_mem_contenders hreg hc
      exact h o ho
  · intro d
    rw [cascadeWinner_eq_some hties]
    constructor
    · rintro ⟨w, hw, rfl, hmax⟩
      obtain ⟨o, ho, hd, hr⟩ := Origin.exists_of_mem_contenders hreg hw
      refine ⟨o, ho, hd, ?_⟩
      intro o' ho'
      obtain ⟨c, hc, hle⟩ := ho'.exists_contender hreg
      exact hr ▸ Rank.le_trans hle (hmax c hc)
    · rintro ⟨o, ho, rfl, hmax⟩
      obtain ⟨w, hw, hle⟩ := ho.exists_contender hreg
      obtain ⟨o', ho', hd, hr⟩ := Origin.exists_of_mem_contenders hreg hw
      have heq : o'.rank = o.rank := Rank.le_antisymm (hmax o' ho') (hr ▸ hle)
      refine ⟨w, hw, hd.symm.trans (ho'.declaration_eq ho heq), ?_⟩
      intro c hc
      obtain ⟨o'', ho'', -, hr''⟩ := Origin.exists_of_mem_contenders hreg hc
      rw [← hr'', ← hr, heq]
      exact hmax o'' ho''
  · intro reordered hperm
    have hmem : ∀ c, c ∈ contenders reordered p ↔ c ∈ contenders candidates p := fun c ↦
      (hperm.filterMap _).mem_iff
    cases hw : cascadeWinner candidates p with
    | none =>
      rw [cascadeWinner_eq_none] at hw ⊢
      intro c hc
      exact hw c ((hmem c).mp hc)
    | some d =>
      rw [cascadeWinner_eq_some hties] at hw
      rw [cascadeWinner_eq_some (by simpa only [hmem] using hties)]
      simpa only [hmem] using hw

/-- A sheet whose first and third rule are merged: `margin` is important in the first only. -/
def mergedAcross : ParsedSheet :=
  .ofStyleRules "base" ""
    [⟨["li", "#a"], [⟨"color", "red", false⟩, ⟨"margin", "0", true⟩], 0⟩,
      ⟨[".b"], [⟨"color", "green", false⟩], 0⟩,
      ⟨["li", "#a"], [⟨"margin", "1px", false⟩, ⟨"color", "blue", false⟩], 0⟩] [] (by decide)

/-- A sheet of one rule. -/
def singleRule : ParsedSheet :=
  .ofStyleRules "theme" "" [⟨["#a"], [⟨"margin", "2px", false⟩], 0⟩] [] (by decide)

/-- An important declaration survives the merge with a later rule of its key and wins over a later
sheet, whichever way the candidates are ordered. -/
theorem cascadeWinner_mergedAcross :
    let registry := (Registry.empty.push mergedAcross.merged).push singleRule.merged
    let host : Host Unit := ⟨fun _ ↦ true, fun _ s ↦ s = "li" ∨ s = "#a", fun _ ↦ ""⟩
    let candidates := registry.candidates (host.matchesText ())
    let winner : Declaration := ⟨"margin", "0", "0", true, 0⟩
    cascadeWinner candidates "margin" = some winner ∧
      cascadeWinner candidates.reverse "margin" = some winner ∧
      ∃ o : Origin, o.Declares [mergedAcross, singleRule] (host.matchesText ()) "margin" ∧
        o.declaration = winner ∧
        ∀ o' : Origin, o'.Declares [mergedAcross, singleRule] (host.matchesText ()) "margin" →
          o'.rank ≤ o.rank := by
  intro registry host candidates winner
  have hreg : registry.sheets.toList = [mergedAcross, singleRule].map ParsedSheet.merged := rfl
  have hwinner : cascadeWinner candidates "margin" = some winner := by decide +kernel
  obtain ⟨-, hgreatest, -, hperm⟩ := cascadeWinner_merged host () "margin" hreg
  refine ⟨hwinner, ?_, (hgreatest winner).mp hwinner⟩
  rw [hperm _ (List.reverse_perm candidates), hwinner]

end StyleCheck.Style
