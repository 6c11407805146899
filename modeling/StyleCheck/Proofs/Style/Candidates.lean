import Mathlib.Data.List.Induction
import Mathlib.Order.Monotone.Basic
import StyleCheck.Proofs.Style.Leniency

/-!
# Candidates

How the candidates of a registry come from its sheets. Each sheet gives its own, and another place
in the registry changes nothing but the places that they carry. What is declared goes by the rules
of the candidates alone, and the winner of the cascade by the order of their places.
-/

namespace StyleCheck.Style

/-! ### The best contender -/

namespace Contender

/-- The highest of some contenders, the last one of a tie. -/
def best (cs : List Contender) : Option Contender := cs.foldl higher none

theorem higher_some (b c : Contender) :
    higher (some b) c = if b.rank ≤ c.rank then some c else some b :=
  rfl

theorem best_eq_none {cs : List Contender} : best cs = none ↔ cs = [] := by
  cases cs with
  | nil => simp [best]
  | cons b rest =>
    obtain ⟨w, -, hw, -⟩ := exists_foldl_higher b rest
    simp [best, higher, hw]

/-- The best of some contenders is one of them, and none has a higher rank. -/
theorem best_spec {cs : List Contender} {w : Contender} (h : best cs = some w) :
    w ∈ cs ∧ ∀ c ∈ cs, c.rank ≤ w.rank := by
  cases cs with
  | nil => cases h
  | cons b rest =>
    obtain ⟨v, hm, hv, hmax⟩ := exists_foldl_higher b rest
    rw [best, List.foldl_cons, higher, hv] at h
    cases h
    exact ⟨hm, hmax⟩

private theorem foldl_higher_map {f : Contender → Contender} {cs : List Contender}
    (b : Option Contender)
    (h : (b.toList ++ cs).Pairwise fun a c ↦ (f a).rank ≤ (f c).rank ↔ a.rank ≤ c.rank) :
    (cs.map f).foldl higher (b.map f) = (cs.foldl higher b).map f := by
  induction cs generalizing b with
  | nil => rfl
  | cons c rest ih =>
    rw [List.map_cons, List.foldl_cons, List.foldl_cons]
    cases b with
    | none => exact ih (some c) h
    | some a =>
      obtain ⟨ha, hrest⟩ := List.pairwise_cons.mp h
      have hac := ha c List.mem_cons_self
      by_cases hle : a.rank ≤ c.rank
      · rw [Option.map_some, higher_some, higher_some, if_pos hle, if_pos (hac.mpr hle)]
        exact ih (some c) hrest
      · rw [Option.map_some, higher_some, higher_some, if_neg hle, if_neg (mt hac.mp hle)]
        exact ih (some a) (h.sublist ((List.sublist_cons_self c rest).cons_cons a))

/-- A map that keeps the order of any earlier and any later contender keeps the best one. -/
theorem best_map {f : Contender → Contender} {cs : List Contender}
    (h : cs.Pairwise fun a c ↦ (f a).rank ≤ (f c).rank ↔ a.rank ≤ c.rank) :
    best (cs.map f) = (best cs).map f :=
  foldl_higher_map none h

theorem higher_higher (b : Option Contender) (a c : Contender) :
    higher (higher b a) c = if a.rank ≤ c.rank then higher b c else higher b a := by
  cases b with
  | none => rfl
  | some b =>
    simp only [higher_some]
    by_cases hac : a.rank ≤ c.rank
    · by_cases hba : b.rank ≤ a.rank
      · simp [hac, hba, higher_some, Rank.le_trans hba hac]
      · simp [hac, hba, higher_some]
    · by_cases hba : b.rank ≤ a.rank
      · simp [hac, hba, higher_some]
      · have hab := (Rank.le_total a.rank b.rank).resolve_right hba
        have hbc : ¬ b.rank ≤ c.rank := fun hbc ↦ hac (Rank.le_trans hab hbc)
        simp [hac, hba, hbc, higher_some]

/-- Some contenders after others count for no more than the best of them. -/
theorem foldl_higher_best (b : Option Contender) (cs : List Contender) :
    (best cs).toList.foldl higher b = cs.foldl higher b := by
  induction cs using List.reverseRecOn with
  | nil => rfl
  | append_singleton cs c ih =>
    rw [List.foldl_concat, ← ih, best, List.foldl_concat, ← best]
    cases best cs with
    | none => rfl
    | some a =>
      rw [Option.toList_some, List.foldl_cons, List.foldl_nil, higher_higher, higher_some]
      split <;> rfl

/-- Some contenders among others count for no more than the best of them. -/
theorem best_append_append (before cs after : List Contender) :
    best (before ++ cs ++ after) = best (before ++ (best cs).toList ++ after) := by
  rw [best, best, List.foldl_append, List.foldl_append, List.foldl_append, List.foldl_append,
    foldl_higher_best]

end Contender

theorem cascadeWinner_eq_best (candidates : List Candidate) (p : String) :
    cascadeWinner candidates p =
      (Contender.best (contenders candidates p)).map Contender.declaration :=
  rfl

/-! ### Other places -/

/-- The contender with another place of its sheet. -/
def Contender.relocate (f : Nat → Nat) (c : Contender) : Contender :=
  { c with rank.sheetIndex := f c.rank.sheetIndex }

/-- The candidate with another place of its sheet, and no place of its own. -/
def Candidate.relocate (f : Nat → Nat) (c : Candidate) : Candidate :=
  { c with sheetIndex := f c.sheetIndex, sourceOrder := 0 }

section

variable {f : Nat → Nat} {candidates : List Candidate}

theorem Contender.rank_relocate_le_iff (hf : StrictMono f) (a b : Contender) :
    (a.relocate f).rank ≤ (b.relocate f).rank ↔ a.rank ≤ b.rank := by
  simp only [Rank.le_iff, Contender.relocate, hf.lt_iff_lt, hf.injective.eq_iff]

theorem contenders_relocate (f : Nat → Nat) (candidates : List Candidate) (p : String) :
    contenders (candidates.map (·.relocate f)) p =
      (contenders candidates p).map (·.relocate f) := by
  rw [contenders, contenders, List.filterMap_map, List.map_filterMap]
  congr 1
  funext c
  simp only [Function.comp, Candidate.contender?, Candidate.relocate, Option.map_map]
  rfl

/-- Other places in the same order have the same winner. -/
theorem cascadeWinner_relocate (hf : StrictMono f) (p : String) :
    cascadeWinner (candidates.map (·.relocate f)) p = cascadeWinner candidates p := by
  rw [cascadeWinner_eq_best, cascadeWinner_eq_best, contenders_relocate,
    Contender.best_map (List.pairwise_of_forall (Contender.rank_relocate_le_iff hf)),
    Option.map_map]
  rfl

variable {canonicalValue : String → String → Option String} {o : Options} {p expected : String}

/-- No places count where any declaration does. -/
theorem satisfied_relocate_any (ho : o.strategy = .anyDeclaration) (f : Nat → Nat) :
    satisfied canonicalValue o (candidates.map (·.relocate f)) p expected =
      satisfied canonicalValue o candidates p expected := by
  simp only [satisfied, ho, List.any_map]
  rfl

theorem satisfied_relocate (hf : StrictMono f) :
    satisfied canonicalValue o (candidates.map (·.relocate f)) p expected =
      satisfied canonicalValue o candidates p expected := by
  cases ho : o.strategy with
  | anyDeclaration => exact satisfied_relocate_any ho f
  | cascade => simp only [satisfied, ho, cascadeWinner_relocate hf]

/-- Other places in the same order give the same report. -/
theorem unmatched_relocate (hf : StrictMono f) (expected : Expectation) :
    unmatched canonicalValue o (candidates.map (·.relocate f)) expected =
      unmatched canonicalValue o candidates expected := by
  simp only [unmatched, satisfied_relocate hf, cascadeWinner_relocate hf]

end

/-! ### The candidates of each sheet -/

/-- The selectors of a sheet that match, in order, if the sheet has the given place. -/
def Stylesheet.candidates (isMatch : String → Bool) (place : Nat) (sheet : Stylesheet) :
    List Candidate :=
  sheet.rules.toList.flatMap fun rule ↦
    (RegisteredRule.mk sheet.id place 0 rule).candidates isMatch

namespace Stylesheet

variable {isMatch : String → Bool} {sheet : Stylesheet}

theorem relocate_candidates (f : Nat → Nat) (place : Nat) :
    (sheet.candidates isMatch place).map (·.relocate f) = sheet.candidates isMatch (f place) := by
  simp only [candidates, RegisteredRule.candidates, List.map_flatMap, List.map_map]
  rfl

theorem contenders_eq (place : Nat) (p : String) :
    contenders (sheet.candidates isMatch place) p =
      (contenders (sheet.candidates isMatch 0) p).map (·.relocate (· + place)) := by
  rw [← contenders_relocate, relocate_candidates, Nat.zero_add]

/-- A sheet without a selector that matches has no candidates. -/
theorem candidates_eq_nil
    (h : ∀ rule ∈ sheet.rules, ∀ selector ∈ rule.selectors, isMatch selector = false)
    (place : Nat) : sheet.candidates isMatch place = [] := by
  rw [candidates, List.flatMap_eq_nil_iff]
  intro rule hrule
  rw [RegisteredRule.candidates, List.map_eq_nil_iff, List.filter_eq_nil_iff]
  intro selector hselector
  simp [h rule (Array.mem_toList_iff.mp hrule) selector hselector]

end Stylesheet

namespace Registry

variable (registry : Registry) (isMatch : String → Bool)

/-- The candidates of a registry are those of its sheets, one sheet after the other. -/
theorem relocate_candidates (f : Nat → Nat) :
    (registry.candidates isMatch).map (·.relocate f) =
      registry.sheets.toList.zipIdx.flatMap fun x ↦ x.1.candidates isMatch (f x.2) := by
  let given : String × Nat × Rule → List Candidate := fun x ↦
    (RegisteredRule.mk x.1 (f x.2.1) 0 x.2.2).candidates isMatch
  have hrules : (registry.candidates isMatch).map (·.relocate f) =
      registry.sheetRules.flatMap given := by
    conv_rhs => rw [← List.zipIdx_map_fst 0 registry.sheetRules, List.flatMap_map]
    simp only [candidates, rules, List.map_flatMap, List.flatMap_map, RegisteredRule.candidates,
      List.map_map, given]
    rfl
  rw [hrules, sheetRules, List.flatMap_assoc]
  simp only [List.flatMap_map, given, Stylesheet.candidates]

/-- Without regard to places, the candidates are those that each sheet has by itself. -/
theorem relocate_candidates_zero :
    (registry.candidates isMatch).map (·.relocate fun _ ↦ 0) =
      registry.sheets.toList.flatMap (Stylesheet.candidates isMatch 0) := by
  rw [relocate_candidates]
  conv_rhs => rw [← List.zipIdx_map_fst 0 registry.sheets.toList, List.flatMap_map]

/-- The contenders of a registry are those of its sheets, one sheet after the other. -/
theorem contenders_eq (p : String) : contenders (registry.candidates isMatch) p =
    registry.sheets.toList.zipIdx.flatMap fun x ↦
      contenders (x.1.candidates isMatch x.2) p := by
  have h := contenders_relocate id (registry.candidates isMatch) p
  rw [relocate_candidates] at h
  rw [← List.map_id (contenders (registry.candidates isMatch) p)]
  exact h.symm.trans List.filterMap_flatMap

variable {registry} {registry' : Registry}

/-- Further sheets leave the candidates as they are, and have theirs behind them. -/
theorem isPrefix_candidates (h : registry.sheets.toList <+: registry'.sheets.toList) :
    registry.candidates isMatch <+: registry'.candidates isMatch := by
  obtain ⟨more, hmore⟩ := h
  simp only [candidates, rules, sheetRules, ← hmore, List.zipIdx_append, List.flatMap_append,
    List.map_append]
  exact List.prefix_append _ _

end Registry

end StyleCheck.Style
