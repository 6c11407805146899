import StyleCheck.Proofs.Style.Candidates

/-!
# Registration

Which sheets are registered, and in which order. A sheet that has nothing for an element is of no
account to it, wherever it stands; and if any declaration counts, so is the order of the sheets,
and further sheets can only bring what is missing.
-/

namespace StyleCheck.Style

/-! ### Registered sheets -/

namespace Registry

/-- Register sheets one after the other. -/
def addSheets (registry : Registry) (sheets : List Stylesheet) : Registry :=
  sheets.foldl (fun registry sheet ↦ (registry.addSheet sheet).2) registry

/-- The registry of some sheets. -/
def ofSheets (sheets : List Stylesheet) : Registry := empty.addSheets sheets

/-- An id has the place of the sheet with the id, and no other. -/
def Faithful (registry : Registry) : Prop :=
  ∀ id place, registry.places.find? id = some place ↔
    registry.sheets[place]?.map Stylesheet.id = some id

theorem faithful_empty : empty.Faithful := by
  intro id place
  simp [empty, Positions.empty, Positions.find?]

variable {registry : Registry}

theorem Faithful.contains_iff (h : registry.Faithful) {id : String} :
    registry.contains id ↔ id ∈ registry.ids := by
  rw [contains, Positions.contains, Option.isSome_iff_exists, ids, List.mem_iff_getElem?]
  simp only [h id, List.getElem?_map, Array.getElem?_toList]

theorem Faithful.push (h : registry.Faithful) {sheet : Stylesheet}
    (hnew : registry.contains sheet.id = false) : (registry.push sheet).Faithful := by
  intro id place
  rw [Registry.push, Positions.find?_add, Array.getElem?_push]
  have hfind : registry.places.find? sheet.id = none := by
    rwa [contains, Positions.contains, Option.isSome_eq_false_iff, Option.isNone_iff_eq_none]
      at hnew
  by_cases hid : id = sheet.id
  · subst hid
    have hnone : registry.sheets[place]?.map Stylesheet.id ≠ some sheet.id := by
      rw [Ne, ← h, hfind]
      exact nofun
    by_cases hplace : place = registry.sheets.size
    · simp [hplace]
    · simp only [if_true, if_neg hplace, hnone, iff_false, Option.some_inj]
      exact Ne.symm hplace
  · rw [if_neg hid, h]
    by_cases hplace : place = registry.sheets.size
    · simp [hplace, Ne.symm hid]
    · rw [if_neg hplace]

/-- A sheet is passed over if its id is registered, and goes behind the others if it is not. -/
theorem addSheet_cases (registry : Registry) (sheet : Stylesheet) :
    (registry.contains sheet.id ∧ registry.addSheet sheet = (false, registry)) ∨
      (registry.contains sheet.id = false ∧
        registry.addSheet sheet = (true, registry.push sheet)) := by
  unfold addSheet
  split
  · next h => exact .inl ⟨h, rfl⟩
  · next h => exact .inr ⟨Bool.eq_false_iff.mpr h, rfl⟩

theorem Faithful.addSheet (h : registry.Faithful) (sheet : Stylesheet) :
    (registry.addSheet sheet).2.Faithful := by
  rcases registry.addSheet_cases sheet with ⟨-, he⟩ | ⟨hnew, he⟩
  · rw [he]
    exact h
  · rw [he]
    exact h.push hnew

theorem Faithful.addSheet_eq_push (h : registry.Faithful) {sheet : Stylesheet}
    (hnew : sheet.id ∉ registry.ids) : registry.addSheet sheet = (true, registry.push sheet) := by
  rcases registry.addSheet_cases sheet with ⟨hknown, -⟩ | ⟨-, he⟩
  · exact absurd (h.contains_iff.mp hknown) hnew
  · exact he

/-- Sheets with new ids, no two of them the same, are all registered. -/
theorem Faithful.sheets_addSheets (h : registry.Faithful) {sheets : List Stylesheet}
    (hids : (registry.ids ++ sheets.map Stylesheet.id).Nodup) :
    (registry.addSheets sheets).sheets.toList = registry.sheets.toList ++ sheets := by
  induction sheets generalizing registry with
  | nil => exact (List.append_nil _).symm
  | cons sheet rest ih =>
    rw [List.map_cons] at hids
    have hnew : sheet.id ∉ registry.ids := fun hmem ↦
      (List.nodup_append.mp hids).2.2 _ hmem _ List.mem_cons_self rfl
    have hsheets : (registry.addSheet sheet).2.sheets.toList =
        registry.sheets.toList ++ [sheet] := by
      rw [h.addSheet_eq_push hnew]
      exact Array.toList_push
    have hrest : ((registry.addSheet sheet).2.ids ++ rest.map Stylesheet.id).Nodup := by
      rw [ids, hsheets]
      simpa [ids] using hids
    rw [addSheets, List.foldl_cons, ← addSheets, ih (h.addSheet sheet) hrest, hsheets,
      List.append_assoc, List.singleton_append]

theorem sheets_ofSheets {sheets : List Stylesheet} (hids : (sheets.map Stylesheet.id).Nodup) :
    (ofSheets sheets).sheets.toList = sheets :=
  faithful_empty.sheets_addSheets hids

theorem ofSheets_append (sheets more : List Stylesheet) :
    ofSheets (sheets ++ more) = (ofSheets sheets).addSheets more :=
  List.foldl_append

/-- A registered sheet keeps its place. -/
theorem prefix_addSheets (registry : Registry) (sheets : List Stylesheet) :
    registry.sheets.toList <+: (registry.addSheets sheets).sheets.toList := by
  induction sheets generalizing registry with
  | nil => exact List.prefix_rfl
  | cons sheet rest ih =>
    refine List.IsPrefix.trans ?_ (ih (registry.addSheet sheet).2)
    rcases registry.addSheet_cases sheet with ⟨-, he⟩ | ⟨-, he⟩
    · exact he ▸ List.prefix_rfl
    · rw [he, Registry.push, Array.toList_push]
      exact List.prefix_append _ _

end Registry

/-! ### Runs -/

/-- Whether a run is refused is not a matter of the sheets or the options. -/
theorem resolve_cases {ν : Type} (canonicalValue : String → String → Option String)
    (host : Host ν) (element : ν) (expected : Expectation) :
    (∃ e, ∀ o registry, resolve canonicalValue o host element registry expected = .error e) ∨
      ∀ o registry, resolve canonicalValue o host element registry expected =
        .ok ⟨unmatched canonicalValue o (registry.candidates (host.matchesText element)) expected,
          (registry.candidates (host.matchesText element)).length⟩ := by
  by_cases hel : host.isElement element
  · by_cases hne : expected.entries = []
    · exact .inl ⟨.noProperties, by simp [resolve, hel, hne]⟩
    · exact .inr fun o registry ↦ resolve_of_isElement _ _ _ _ hel o hne
  · rw [Bool.not_eq_true] at hel
    exact .inl ⟨.notAnElement, fun o registry ↦ resolve_of_not_isElement _ _ _ _ hel o _⟩

/-! ### A sheet that does not match -/

/-- The place of a sheet when another one is put at the place `n`. -/
def skip (n place : Nat) : Nat := if place < n then place else place + 1

theorem strictMono_skip (n : Nat) : StrictMono (skip n) := by
  intro a b hab
  unfold skip
  split <;> split <;> omega

/-- A sheet without candidates only moves those of the sheets behind it. -/
theorem relocate_candidates_middle {registry registry' : Registry}
    {before after : List Stylesheet} {sheet : Stylesheet} {isMatch : String → Bool}
    (hreg : registry.sheets.toList = before ++ after)
    (hreg' : registry'.sheets.toList = before ++ sheet :: after)
    (hsheet : ∀ place, sheet.candidates isMatch place = []) :
    (registry'.candidates isMatch).map (·.relocate id) =
      (registry.candidates isMatch).map (·.relocate (skip before.length)) := by
  rw [Registry.relocate_candidates, Registry.relocate_candidates, hreg, hreg',
    List.zipIdx_append, List.zipIdx_append, List.zipIdx_cons, List.flatMap_append,
    List.flatMap_append, List.flatMap_cons, hsheet, List.nil_append, List.zipIdx_succ,
    List.flatMap_map, Nat.zero_add]
  congr 1
  · refine List.flatMap_congr fun x hx ↦ ?_
    have hlt : x.2 < before.length := by simpa using List.snd_lt_of_mem_zipIdx hx
    rw [skip, if_pos hlt, id]
  · refine List.flatMap_congr fun x hx ↦ ?_
    have hge : before.length ≤ x.2 := List.le_snd_of_mem_zipIdx hx
    rw [skip, if_neg (Nat.not_lt.mpr hge), id]

/-- A sheet with a new id none of whose selectors matches the element changes nothing of a run,
wherever it is registered. -/
theorem resolve_ofSheets_middle {ν : Type} (canonicalValue : String → String → Option String)
    (o : Options) (host : Host ν) (element : ν) (expected : Expectation)
    {before after : List Stylesheet} {sheet : Stylesheet}
    (hids : ((before ++ sheet :: after).map Stylesheet.id).Nodup)
    (hsheet : ∀ rule ∈ sheet.rules, ∀ selector ∈ rule.selectors,
      host.matchesText element selector = false) :
    resolve canonicalValue o host element (.ofSheets (before ++ sheet :: after)) expected =
      resolve canonicalValue o host element (.ofSheets (before ++ after)) expected := by
  rcases resolve_cases canonicalValue host element expected with ⟨e, he⟩ | hok
  · rw [he, he]
  have hids' : ((before ++ after).map Stylesheet.id).Nodup :=
    hids.sublist (((List.sublist_cons_self sheet after).append_left before).map _)
  have hmoved := relocate_candidates_middle (Registry.sheets_ofSheets hids')
    (Registry.sheets_ofSheets hids) (Stylesheet.candidates_eq_nil hsheet)
  rw [hok, hok, ← unmatched_relocate strictMono_id, hmoved,
    unmatched_relocate (strictMono_skip before.length)]
  have hlength := congrArg List.length hmoved
  rw [List.length_map, List.length_map] at hlength
  rw [hlength]

/-- A sheet for other elements stands between two: the winners come from behind it, with the same
values as without it. -/
theorem resolve_ofSheets_between :
    let between := Stylesheet.ofRules "other" ""
      [⟨[".c", "p"], ⟨[⟨"color", "red", "red", true, 0⟩]⟩⟩]
    let host : Host Unit := ⟨fun _ ↦ true, fun _ s ↦ s = "#a", fun _ ↦ ""⟩
    let run := fun sheets ↦ resolve (fun _ _ ↦ none) ⟨.cascade, false⟩ host () (.ofSheets sheets)
      (.ofList [("color", .text "red"), ("margin", .text "2px")])
    let outcome : Outcome :=
      ⟨[⟨"color", "red", some "blue"⟩, ⟨"margin", "2px", some "0"⟩], 2⟩
    run [singleRule.merged, mergedAcross.merged] = .ok outcome ∧
      run [singleRule.merged, between, mergedAcross.merged] = .ok outcome := by
  intro between host run outcome
  have hids : (([singleRule.merged] ++ between :: [mergedAcross.merged]).map
      Stylesheet.id).Nodup := by decide +kernel
  have hbetween : ∀ rule ∈ between.rules, ∀ selector ∈ rule.selectors,
      host.matchesText () selector = false := by decide +kernel
  have hrun : run [singleRule.merged, mergedAcross.merged] = .ok outcome := by decide +kernel
  exact ⟨hrun, (resolve_ofSheets_middle _ _ host () _ hids hbetween).trans hrun⟩

/-! ### The order of the sheets -/

/-- The properties that are missing, with the values expected of them. -/
def Outcome.missing (o : Outcome) : List (String × String) :=
  o.unmatched.map fun u ↦ (u.property, u.expected)

/-- What an outcome says, apart from the values that properties have instead. -/
def Outcome.verdict (o : Outcome) : Bool × Nat × List (String × String) :=
  (o.matchedAll, o.candidates, o.missing)

theorem Outcome.matchedAll_eq (o : Outcome) : o.matchedAll = o.missing.isEmpty := by
  rw [matchedAll, missing, List.isEmpty_map]

section

variable {canonicalValue : String → String → Option String} {o : Options}
  {candidates candidates' : List Candidate}

theorem satisfied_of_subset (ho : o.strategy = .anyDeclaration) (h : candidates ⊆ candidates')
    {p expected : String} (hs : satisfied canonicalValue o candidates p expected) :
    satisfied canonicalValue o candidates' p expected := by
  obtain ⟨c, hc, hd⟩ := (satisfied_any ho).mp hs
  exact (satisfied_any ho).mpr ⟨c, h hc, hd⟩

theorem missing_unmatched (expected : Expectation) (n : Nat) :
    (Outcome.mk (unmatched canonicalValue o candidates expected) n).missing =
      (expected.entries.filter fun entry ↦
        !satisfied canonicalValue o candidates entry.1 entry.2.render).map
        fun entry ↦ (entry.1, entry.2.render) := by
  rw [Outcome.missing, unmatched_eq, List.map_map]
  rfl

variable (canonicalValue) in
/-- Further candidates can only bring what is missing. -/
theorem missing_sublist_of_subset (ho : o.strategy = .anyDeclaration)
    (h : candidates ⊆ candidates') (expected : Expectation) (n n' : Nat) :
    (Outcome.mk (unmatched canonicalValue o candidates' expected) n').missing.Sublist
      (Outcome.mk (unmatched canonicalValue o candidates expected) n).missing := by
  rw [missing_unmatched, missing_unmatched]
  exact (unsatisfied_sublist expected fun _ _ ↦ satisfied_of_subset ho h).map _

/-- Neither the order of the candidates nor their places count for the verdict. -/
theorem verdict_eq_of_perm (ho : o.strategy = .anyDeclaration) {f : Nat → Nat}
    (h : (candidates.map (·.relocate f)).Perm (candidates'.map (·.relocate f)))
    (expected : Expectation) :
    (Outcome.mk (unmatched canonicalValue o candidates expected) candidates.length).verdict =
      (Outcome.mk (unmatched canonicalValue o candidates' expected)
        candidates'.length).verdict := by
  have hlength : candidates.length = candidates'.length := by simpa using h.length_eq
  have hsatisfied : ∀ p expected, satisfied canonicalValue o candidates p expected =
      satisfied canonicalValue o candidates' p expected := by
    intro p expected
    have hrelocated : satisfied canonicalValue o (candidates.map (·.relocate f)) p expected =
        satisfied canonicalValue o (candidates'.map (·.relocate f)) p expected :=
      Bool.eq_iff_iff.mpr ⟨satisfied_of_subset ho h.subset, satisfied_of_subset ho h.symm.subset⟩
    rwa [satisfied_relocate_any ho, satisfied_relocate_any ho] at hrelocated
  rw [Outcome.verdict, Outcome.verdict, Outcome.matchedAll_eq, Outcome.matchedAll_eq,
    missing_unmatched, missing_unmatched]
  simp only [hsatisfied, hlength]

end

/-- The same sheets in another order give the same candidates, apart from order and places. -/
theorem perm_candidates {registry registry' : Registry} (isMatch : String → Bool)
    (h : registry.sheets.toList.Perm registry'.sheets.toList) :
    ((registry.candidates isMatch).map (·.relocate fun _ ↦ 0)).Perm
      ((registry'.candidates isMatch).map (·.relocate fun _ ↦ 0)) := by
  rw [Registry.relocate_candidates_zero, Registry.relocate_candidates_zero]
  exact h.flatMap_right _

section

variable {ν : Type} (canonicalValue : String → String → Option String) (canonicalize : Bool)
  (host : Host ν) (element : ν) (expected : Expectation)

/-- The same sheets in another order have the same verdict, if any declaration counts. -/
theorem resolve_any_perm {registry registry' : Registry}
    (h : registry.sheets.toList.Perm registry'.sheets.toList) :
    let run := fun registry ↦
      resolve canonicalValue ⟨.anyDeclaration, canonicalize⟩ host element registry expected
    (run registry).map Outcome.verdict = (run registry').map Outcome.verdict := by
  intro run
  rcases resolve_cases canonicalValue host element expected with ⟨e, he⟩ | hok
  · simp only [run, he]
  · have hcandidates := perm_candidates (host.matchesText element) h
    simp only [run, hok]
    exact congrArg Except.ok (verdict_eq_of_perm rfl hcandidates expected)

/-- Further sheets can only add candidates and bring what is missing, if any declaration counts. -/
theorem resolve_any_further {registry registry' : Registry}
    (h : registry.sheets.toList <+: registry'.sheets.toList) :
    let run := fun registry ↦
      resolve canonicalValue ⟨.anyDeclaration, canonicalize⟩ host element registry expected
    (∃ e, run registry = .error e ∧ run registry' = .error e) ∨
      ∃ outcome outcome', run registry = .ok outcome ∧ run registry' = .ok outcome' ∧
        outcome.candidates ≤ outcome'.candidates ∧ outcome'.missing.Sublist outcome.missing ∧
        (outcome.matchedAll → outcome'.matchedAll) := by
  intro run
  rcases resolve_cases canonicalValue host element expected with ⟨e, he⟩ | hok
  · exact .inl ⟨e, he _ registry, he _ registry'⟩
  have hcandidates := Registry.isPrefix_candidates (host.matchesText element) h
  let options : Options := ⟨.anyDeclaration, canonicalize⟩
  have hany : options.strategy = .anyDeclaration := rfl
  have hmissing := missing_sublist_of_subset canonicalValue hany hcandidates.subset expected
  refine .inr ⟨_, _, hok _ registry, hok _ registry', hcandidates.length_le, hmissing _ _, ?_⟩
  rw [Outcome.matchedAll_eq, Outcome.matchedAll_eq, List.isEmpty_iff, List.isEmpty_iff]
  intro hnone
  exact List.sublist_nil.mp (hnone ▸ hmissing _ _)

end

/-- If any declaration counts, sheets with distinct ids have the same verdict in whichever order
they are registered. Further sheets leave the candidates as they are and add their own behind them,
so that no more is missing than before and what was passed still is. -/
theorem resolve_any_ofSheets {ν : Type} (canonicalValue : String → String → Option String)
    (canonicalize : Bool) (host : Host ν) (element : ν) (expected : Expectation)
    {sheets : List Stylesheet} (hids : (sheets.map Stylesheet.id).Nodup) :
    let candidates := fun sheets ↦ (Registry.ofSheets sheets).candidates (host.matchesText element)
    let run := fun sheets ↦ resolve canonicalValue ⟨.anyDeclaration, canonicalize⟩ host element
      (.ofSheets sheets) expected
    (∀ reordered, reordered.Perm sheets →
      (run reordered).map Outcome.verdict = (run sheets).map Outcome.verdict) ∧
      ∀ more : List Stylesheet, candidates sheets <+: candidates (sheets ++ more) ∧
        ((∃ e, run sheets = .error e ∧ run (sheets ++ more) = .error e) ∨
          ∃ outcome outcome', run sheets = .ok outcome ∧ run (sheets ++ more) = .ok outcome' ∧
            outcome.candidates ≤ outcome'.candidates ∧
            outcome'.missing.Sublist outcome.missing ∧
            (outcome.matchedAll → outcome'.matchedAll)) := by
  intro candidates run
  constructor
  · intro reordered hperm
    have hids' : (reordered.map Stylesheet.id).Nodup := (hperm.map _).nodup_iff.mpr hids
    apply resolve_any_perm
    rwa [Registry.sheets_ofSheets hids', Registry.sheets_ofSheets hids]
  · intro more
    have hadded : (Registry.ofSheets sheets).sheets.toList <+:
        (Registry.ofSheets (sheets ++ more)).sheets.toList := by
      rw [Registry.ofSheets_append]
      exact Registry.prefix_addSheets _ more
    exact ⟨Registry.isPrefix_candidates _ hadded,
      resolve_any_further canonicalValue canonicalize host element expected hadded⟩

/-- The sheet that is registered last gives the value that is reported, but `green` is missing in
either order; one more sheet declares it. -/
theorem resolve_any_ofSheets_green :
    let sheet := fun value ↦ Stylesheet.ofRules value ""
      [⟨["a", ".a"], ⟨[⟨"color", value, value, false, 0⟩]⟩⟩]
    let host : Host Unit := ⟨fun _ ↦ true, fun _ s ↦ s = ".a", fun _ ↦ ""⟩
    let run := fun sheets ↦ resolve (fun _ _ ↦ none) ⟨.anyDeclaration, true⟩ host ()
      (.ofSheets sheets) (.ofList [("color", .text "green")])
    let missing := fun actual ↦ Unmatched.mk "color" "green" (some actual)
    run [sheet "red", sheet "blue"] = .ok ⟨[missing "blue"], 2⟩ ∧
      run [sheet "blue", sheet "red"] = .ok ⟨[missing "red"], 2⟩ ∧
      (run [sheet "blue", sheet "red"]).map Outcome.verdict =
        (run [sheet "red", sheet "blue"]).map Outcome.verdict ∧
      ∃ outcome, run [sheet "red", sheet "blue", sheet "green"] = .ok outcome ∧
        2 ≤ outcome.candidates ∧ outcome.missing.Sublist [("color", "green")] ∧
        outcome.matchedAll := by
  intro sheet host run missing
  have hids : ([sheet "red", sheet "blue"].map Stylesheet.id).Nodup := by decide +kernel
  have hrun : run [sheet "red", sheet "blue"] = .ok ⟨[missing "blue"], 2⟩ := by decide +kernel
  obtain ⟨hperm, hmore⟩ := resolve_any_ofSheets (fun _ _ ↦ none) true host ()
    (.ofList [("color", .text "green")]) hids
  refine ⟨hrun, by decide +kernel, hperm _ (List.Perm.swap _ _ _), ?_⟩
  obtain ⟨-, ⟨e, he, -⟩ | ⟨before, after, hbefore, hafter, hcount, hmissing, -⟩⟩ :=
    hmore [sheet "green"]
  · cases hrun.symm.trans he
  · cases hrun.symm.trans hbefore
    refine ⟨after, hafter, hcount, hmissing, ?_⟩
    have hgreen : run [sheet "red", sheet "blue", sheet "green"] = .ok ⟨[], 3⟩ := by
      decide +kernel
    cases hgreen.symm.trans hafter
    rfl

end StyleCheck.Style
