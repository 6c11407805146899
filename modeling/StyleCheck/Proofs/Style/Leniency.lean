import Mathlib.Data.List.Nodup
import StyleCheck.Proofs.Style.Cascade
import StyleCheck.Proofs.Style.Expectation

/-!
# Leniency

The options of the resolver side by side. The rule that wins the cascade is one of those that
declare a property, and a value that is as written passes whether or not values are canonicalized;
so laxer options only take entries out of the report. Main statement: what the four runs over one
element have in common, and how their reports are ordered.
-/

namespace StyleCheck.Style

/-! ### The order of options -/

/-- The first options ask no more of an element than the second. -/
def Options.le (a b : Options) : Prop :=
  (a.strategy = .anyDeclaration ∨ a.strategy = b.strategy) ∧ (b.canonicalize → a.canonicalize)

instance : LE Options := ⟨Options.le⟩

theorem Options.any_le_cascade (canonicalize : Bool) :
    (⟨.anyDeclaration, canonicalize⟩ : Options) ≤ ⟨.cascade, canonicalize⟩ :=
  ⟨.inl rfl, id⟩

theorem Options.canonical_le_written (strategy : Strategy) :
    (⟨strategy, true⟩ : Options) ≤ ⟨strategy, false⟩ :=
  ⟨.inr rfl, nofun⟩

theorem Options.default_le (o : Options) : ⟨.anyDeclaration, true⟩ ≤ o :=
  ⟨.inl rfl, fun _ ↦ rfl⟩

/-! ### What is satisfied -/

/-- The winner of the cascade is declared by one of the candidates. -/
theorem exists_get?_of_cascadeWinner {candidates : List Candidate} {p : String} {d : Declaration}
    (h : cascadeWinner candidates p = some d) :
    ∃ c ∈ candidates, c.rule.declarations.get? p = some d := by
  rw [cascadeWinner, ← contenders] at h
  cases hcs : contenders candidates p with
  | nil =>
    rw [hcs] at h
    cases h
  | cons b cs =>
    obtain ⟨w, hw, hfold, -⟩ := Contender.exists_foldl_higher b cs
    rw [hcs, List.foldl_cons, Contender.higher, hfold] at h
    rw [← hcs, contenders, List.mem_filterMap] at hw
    obtain ⟨c, hc, hcontender⟩ := hw
    obtain ⟨e, he, rfl⟩ := Option.map_eq_some_iff.mp hcontender
    exact ⟨c, hc, he.trans h⟩

section

variable {canonicalValue : String → String → Option String} {a b : Options}

theorem valuesAgree_of_le (h : a ≤ b) {p expected : String} {d : Declaration}
    (hd : valuesAgree canonicalValue b p expected d) :
    valuesAgree canonicalValue a p expected d := by
  simp only [valuesAgree, Bool.or_eq_true, Bool.and_eq_true] at hd ⊢
  exact hd.imp_right (And.imp_left h.2)

theorem satisfied_any {o : Options} (ho : o.strategy = .anyDeclaration)
    {candidates : List Candidate} {p expected : String} :
    satisfied canonicalValue o candidates p expected ↔
      ∃ c ∈ candidates, ∃ d, c.rule.declarations.get? p = some d ∧
        valuesAgree canonicalValue o p expected d := by
  simp only [satisfied, ho, List.any_eq_true]
  refine exists_congr fun c ↦ and_congr_right fun _ ↦ ?_
  cases c.rule.declarations.get? p <;> simp

theorem satisfied_cascade {o : Options} (ho : o.strategy = .cascade)
    {candidates : List Candidate} {p expected : String} :
    satisfied canonicalValue o candidates p expected ↔
      ∃ d, cascadeWinner candidates p = some d ∧ valuesAgree canonicalValue o p expected d := by
  simp only [satisfied, ho]
  cases cascadeWinner candidates p <;> simp

/-- What strict options find satisfied, laxer ones do. -/
theorem satisfied_of_le (h : a ≤ b) {candidates : List Candidate} {p expected : String}
    (hs : satisfied canonicalValue b candidates p expected) :
    satisfied canonicalValue a candidates p expected := by
  cases hb : b.strategy with
  | anyDeclaration =>
    have ha : a.strategy = .anyDeclaration := by
      rcases h.1 with ha | ha
      · exact ha
      · rw [ha, hb]
    obtain ⟨c, hc, d, hd, hv⟩ := (satisfied_any hb).mp hs
    exact (satisfied_any ha).mpr ⟨c, hc, d, hd, valuesAgree_of_le h hv⟩
  | cascade =>
    obtain ⟨d, hd, hv⟩ := (satisfied_cascade hb).mp hs
    cases ha : a.strategy with
    | anyDeclaration =>
      obtain ⟨c, hc, hget⟩ := exists_get?_of_cascadeWinner hd
      exact (satisfied_any ha).mpr ⟨c, hc, d, hget, valuesAgree_of_le h hv⟩
    | cascade => exact (satisfied_cascade ha).mpr ⟨d, hd, valuesAgree_of_le h hv⟩

end

/-! ### Reports -/

/-- The report on an expected property, if it is not satisfied. -/
def Unmatched.ofEntry (candidates : List Candidate) (entry : String × ExpectedValue) : Unmatched :=
  ⟨entry.1, entry.2.render, (cascadeWinner candidates entry.1).map Declaration.value⟩

section

variable (canonicalValue : String → String → Option String) (candidates : List Candidate)
  (expected : Expectation)

theorem unmatched_eq (o : Options) : unmatched canonicalValue o candidates expected =
    (expected.entries.filter fun entry ↦
      !satisfied canonicalValue o candidates entry.1 entry.2.render).map
      (Unmatched.ofEntry candidates) := by
  rw [unmatched, ← List.filterMap_eq_map, List.filterMap_filter]
  congr 1
  funext ⟨p, v⟩
  show (if satisfied canonicalValue o candidates p v.render then none else _) = _
  cases satisfied canonicalValue o candidates p v.render <;> rfl

variable {canonicalValue} in
/-- Where more is satisfied, fewer entries are not. -/
theorem unsatisfied_sublist {a b : Options} {candidates candidates' : List Candidate}
    (h : ∀ p value, satisfied canonicalValue b candidates p value →
      satisfied canonicalValue a candidates' p value) :
    (expected.entries.filter fun entry ↦
      !satisfied canonicalValue a candidates' entry.1 entry.2.render).Sublist
      (expected.entries.filter fun entry ↦
        !satisfied canonicalValue b candidates entry.1 entry.2.render) := by
  apply List.monotone_filter_right
  intro entry hentry
  simp only [Bool.not_eq_true', Bool.eq_false_iff] at hentry ⊢
  exact fun hb ↦ hentry (h _ _ hb)

/-- Laxer options report some of what stricter ones report, in the same order. -/
theorem unmatched_sublist_of_le {a b : Options} (h : a ≤ b) :
    (unmatched canonicalValue a candidates expected).Sublist
      (unmatched canonicalValue b candidates expected) := by
  rw [unmatched_eq, unmatched_eq]
  exact (unsatisfied_sublist expected fun _ _ ↦ satisfied_of_le h).map _

/-- The report follows the order of the expectation. -/
theorem unmatched_sublist_entries (o : Options) :
    (unmatched canonicalValue o candidates expected).Sublist
      (expected.entries.map (Unmatched.ofEntry candidates)) := by
  rw [unmatched_eq]
  exact List.filter_sublist.map _

variable {canonicalValue candidates expected} in
/-- A property is reported the same way under all options. -/
theorem eq_of_mem_unmatched (hdistinct : expected.Distinct) {a b : Options} {u v : Unmatched}
    (hu : u ∈ unmatched canonicalValue a candidates expected)
    (hv : v ∈ unmatched canonicalValue b candidates expected) (h : u.property = v.property) :
    u = v := by
  obtain ⟨x, hx, rfl⟩ := List.mem_map.mp ((unmatched_sublist_entries _ _ _ a).mem hu)
  obtain ⟨y, hy, rfl⟩ := List.mem_map.mp ((unmatched_sublist_entries _ _ _ b).mem hv)
  rw [List.inj_on_of_nodup_map hdistinct hx hy h]

end

/-! ### Runs -/

section

variable {ν : Type} (canonicalValue : String → String → Option String) (host : Host ν)
  (element : ν) (registry : Registry) (inserts : List (String × ExpectedValue))

/-- A run is refused if the node is no element. -/
theorem resolve_of_not_isElement (h : host.isElement element = false) (o : Options)
    (expected : Expectation) :
    resolve canonicalValue o host element registry expected = .error .notAnElement := by
  simp [resolve, h]

/-- Over an element, a run with something to look for ends with a report. -/
theorem resolve_of_isElement (h : host.isElement element) (o : Options) {expected : Expectation}
    (hne : expected.entries ≠ []) :
    resolve canonicalValue o host element registry expected =
      .ok ⟨unmatched canonicalValue o (registry.candidates (host.matchesText element)) expected,
        (registry.candidates (host.matchesText element)).length⟩ := by
  simp [resolve, h, hne]

end

/-- The four runs of the resolver over one element and one expectation. All are refused, or all end
with reports on the same candidates; a report leaves out what a stricter one may contain, no two
differ on a property, each follows the order of the expectation, and a run is passed if its report
is empty. What passes under any options passes under the default ones. -/
theorem resolve_lenient {ν : Type} (canonicalValue : String → String → Option String)
    (host : Host ν) (element : ν) (registry : Registry) {inserts : List (String × ExpectedValue)}
    (hne : inserts ≠ []) :
    let expected := Expectation.ofList inserts
    let run := fun o ↦ resolve canonicalValue o host element registry expected
    (host.isElement element = false ∧ ∀ o, run o = .error .notAnElement) ∨
      (host.isElement element ∧ ∃ outcome : Options → Outcome, (∀ o, run o = .ok (outcome o)) ∧
        (∀ canonicalize, (outcome ⟨.anyDeclaration, canonicalize⟩).unmatched.Sublist
          (outcome ⟨.cascade, canonicalize⟩).unmatched) ∧
        (∀ strategy, (outcome ⟨strategy, true⟩).unmatched.Sublist
          (outcome ⟨strategy, false⟩).unmatched) ∧
        (∀ o o', ∀ u ∈ (outcome o).unmatched, ∀ u' ∈ (outcome o').unmatched,
          u.property = u'.property → u = u') ∧
        (∀ o o', (outcome o).candidates = (outcome o').candidates) ∧
        (∀ o, ((outcome o).unmatched.map fun u ↦ (u.property, u.expected)).Sublist
          (expected.entries.map fun entry ↦ (entry.1, entry.2.render))) ∧
        (∀ o, (outcome o).matchedAll ↔ (outcome o).unmatched = []) ∧
        ∀ o, (outcome o).matchedAll → (outcome ⟨.anyDeclaration, true⟩).matchedAll) := by
  intro expected run
  have hentries : expected.entries ≠ [] := Expectation.entries_ofList_ne_nil hne
  have hdistinct : expected.Distinct := Expectation.distinct_ofList inserts
  let candidates := registry.candidates (host.matchesText element)
  let outcome : Options → Outcome := fun o ↦
    ⟨unmatched canonicalValue o candidates expected, candidates.length⟩
  have hmatched : ∀ o, (outcome o).matchedAll ↔ (outcome o).unmatched = [] := fun o ↦
    List.isEmpty_iff
  by_cases hel : host.isElement element
  · refine .inr ⟨hel, outcome, ?_, ?_, ?_, ?_, fun _ _ ↦ rfl, ?_, hmatched, ?_⟩
    · exact fun o ↦ resolve_of_isElement canonicalValue host element registry hel o hentries
    · exact fun c ↦ unmatched_sublist_of_le _ _ _ (Options.any_le_cascade c)
    · exact fun s ↦ unmatched_sublist_of_le _ _ _ (Options.canonical_le_written s)
    · exact fun o o' u hu u' hu' heq ↦ eq_of_mem_unmatched hdistinct hu hu' heq
    · intro o
      have hsub := (unmatched_sublist_entries canonicalValue candidates expected o).map
        fun u ↦ (u.property, u.expected)
      rw [List.map_map] at hsub
      exact hsub
    · intro o ho
      have hsub : (outcome ⟨.anyDeclaration, true⟩).unmatched.Sublist (outcome o).unmatched :=
        unmatched_sublist_of_le _ _ _ (Options.default_le o)
      rw [hmatched] at ho ⊢
      rw [ho] at hsub
      exact List.sublist_nil.mp hsub
  · rw [Bool.not_eq_true] at hel
    exact .inl ⟨hel, fun o ↦ resolve_of_not_isElement canonicalValue host element registry hel o _⟩

/-- All four reports differ where a declaration is overridden and another value is spelt in two
ways. -/
theorem resolve_overridden :
    let host : Host Unit := ⟨fun _ ↦ true, fun _ s ↦ s = "li" ∨ s = ".b", fun _ ↦ ""⟩
    let registry := Registry.empty.push mergedAcross.merged
    let inserts := [("color", ExpectedValue.text "blue"), ("margin", .text "0px")]
    let run := fun o ↦ resolve (fun _ v ↦ if v = "0px" then some "0" else none) o host () registry
      (Expectation.ofList inserts)
    let color : Unmatched := ⟨"color", "blue", some "green"⟩
    let margin : Unmatched := ⟨"margin", "0px", some "0"⟩
    inserts ≠ [] ∧ run ⟨.anyDeclaration, true⟩ = .ok ⟨[], 2⟩ ∧
      run ⟨.anyDeclaration, false⟩ = .ok ⟨[margin], 2⟩ ∧ run ⟨.cascade, true⟩ = .ok ⟨[color], 2⟩ ∧
      run ⟨.cascade, false⟩ = .ok ⟨[color, margin], 2⟩ ∧
      ∃ outcome : Options → Outcome, (∀ o, run o = .ok (outcome o)) ∧
        ∀ o, (outcome o).matchedAll → (outcome ⟨.anyDeclaration, true⟩).matchedAll := by
  intro host registry inserts run color margin
  have hne : inserts ≠ [] := List.cons_ne_nil _ _
  refine ⟨hne, by decide +kernel, by decide +kernel, by decide +kernel, by decide +kernel, ?_⟩
  rcases resolve_lenient (fun _ v ↦ if v = "0px" then some "0" else none) host () registry hne with
    ⟨hel, -⟩ | ⟨-, outcome, hrun, -, -, -, -, -, -, hpass⟩
  · cases hel
  · exact ⟨outcome, hrun, hpass⟩

end StyleCheck.Style
