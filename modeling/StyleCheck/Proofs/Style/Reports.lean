import StyleCheck.Proofs.Style.Leniency
import StyleCheck.Proofs.Style.PropertyName

/-!
# Reported values

What a report says of a property that is not as expected. The value that the property has instead
is one that the resolver accepts, and a property without a value has none that could be expected.
Main statement: both, for every registry whose sheets were read from texts.
-/

namespace StyleCheck.Style

/-! ### Sheets that were read -/

namespace Registry

/-- Every sheet was read from a text. -/
def IsRead (registry : Registry) : Prop := ∀ sheet ∈ registry.sheets, sheet.IsRead

theorem isRead_empty : empty.IsRead := fun sheet h ↦ absurd h (Array.not_mem_empty sheet)

section

variable {registry registry' : Registry} {sheet : Stylesheet}

theorem IsRead.push (h : registry.IsRead) (hsheet : sheet.IsRead) :
    (registry.push sheet).IsRead := by
  intro s hs
  rcases Array.mem_push.mp hs with hs | rfl
  · exact h s hs
  · exact hsheet

theorem IsRead.addSheet (h : registry.IsRead) (hsheet : sheet.IsRead) :
    (registry.addSheet sheet).2.IsRead := by
  unfold Registry.addSheet
  split
  · exact h
  · exact h.push hsheet

variable {ε : Type} {read : String → String → Except ε Stylesheet}
  (hread : ∀ {id content sheet}, read id content = .ok sheet → sheet.IsRead)

include hread

theorem IsRead.add (h : registry.IsRead) {id content : String} {isNew : Bool}
    (hadd : registry.add read id content = .ok (isNew, registry')) : registry'.IsRead := by
  unfold Registry.add at hadd
  split at hadd
  · cases hadd
    exact h
  · split at hadd
    · next sheet hsheet =>
      cases hadd
      exact h.push (hread hsheet)
    · cases hadd

theorem IsRead.addSources (h : registry.IsRead) (sources : List Dom.StyleSource) :
    (registry.addSources read sources).2.IsRead := by
  induction sources generalizing registry with
  | nil => exact h
  | cons source rest ih =>
    unfold Registry.addSources
    split
    · exact h
    · next isNew registry' hadd => exact ih (h.add hread hadd)

end

/-- The rule of a candidate is one of a registered sheet. -/
theorem exists_sheet_of_mem_candidates {registry : Registry} {isMatch : String → Bool}
    {c : Candidate} (h : c ∈ registry.candidates isMatch) :
    ∃ sheet ∈ registry.sheets, c.rule ∈ sheet.rules := by
  obtain ⟨r, hr, hc⟩ := List.mem_flatMap.mp h
  obtain ⟨selector, -, rfl⟩ := List.mem_map.mp hc
  obtain ⟨⟨x, order⟩, hx, rfl⟩ := List.mem_map.mp hr
  obtain ⟨k, sheet, rule, hsheet, hrule, rfl⟩ :=
    mem_sheetRules.mp (List.fst_mem_of_mem_zipIdx hx)
  exact ⟨sheet, Array.mem_of_getElem? hsheet, hrule⟩

/-- The winner of the cascade has no white space at the ends of its value. -/
theorem IsRead.trimmed_winner {registry : Registry} (h : registry.IsRead)
    {isMatch : String → Bool} {p : String} {d : Declaration}
    (hd : cascadeWinner (registry.candidates isMatch) p = some d) :
    Text.Trimmed d.value.toList := by
  obtain ⟨c, hc, hget⟩ := exists_get?_of_cascadeWinner hd
  obtain ⟨sheet, hsheet, hrule⟩ := exists_sheet_of_mem_candidates hc
  exact (h sheet hsheet).trimmed hrule (List.mem_of_find?_eq_some hget)

end Registry

/-! ### What passes -/

section

variable (canonicalValue : String → String → Option String) {candidates : List Candidate}
  {p : String}

theorem Options.le_written (o : Options) : o ≤ ⟨.cascade, false⟩ := by
  refine ⟨?_, nofun⟩
  cases o.strategy
  · exact .inl rfl
  · exact .inr rfl

/-- The value of the winner satisfies all options, if it has no white space at its ends. -/
theorem satisfied_winner {d : Declaration} (hd : cascadeWinner candidates p = some d)
    (htrimmed : Text.Trimmed d.value.toList) (o : Options) :
    satisfied canonicalValue o candidates p d.value := by
  apply satisfied_of_le o.le_written
  refine (satisfied_cascade rfl).mpr ⟨d, hd, ?_⟩
  simp [valuesAgree, htrimmed.trim_eq]

/-- Where nothing wins the cascade, nothing is satisfied. -/
theorem not_satisfied_of_cascadeWinner (h : cascadeWinner candidates p = none) (o : Options)
    (expected : String) : ¬ satisfied canonicalValue o candidates p expected := by
  intro hs
  obtain ⟨c, hc, d, hd, -⟩ := (satisfied_any rfl).mp (satisfied_of_le o.default_le hs)
  refine cascadeWinner_eq_none.mp h ⟨d, d.important, c.specificity, c.sheetIndex, d.ruleIndex⟩ ?_
  rw [contenders, List.mem_filterMap]
  exact ⟨c, hc, Option.map_eq_some_iff.mpr ⟨d, hd, rfl⟩⟩

variable {canonicalValue} in
theorem mem_unmatched_of_not_satisfied {o : Options} {expected : Expectation}
    {entry : String × ExpectedValue} (hentry : entry ∈ expected.entries)
    (h : ¬ satisfied canonicalValue o candidates entry.1 entry.2.render) :
    Unmatched.ofEntry candidates entry ∈ unmatched canonicalValue o candidates expected := by
  rw [unmatched_eq]
  refine List.mem_map_of_mem (List.mem_filter.mpr ⟨hentry, ?_⟩)
  rwa [Bool.not_eq_true', ← Bool.not_eq_true]

end

/-- A run that ends with a report was over an element, and its report lists what is unmatched. -/
theorem resolve_eq_ok {ν : Type} {canonicalValue : String → String → Option String} {o : Options}
    {host : Host ν} {element : ν} {registry : Registry} {expected : Expectation}
    {outcome : Outcome}
    (h : resolve canonicalValue o host element registry expected = .ok outcome) :
    host.isElement element ∧ outcome =
      ⟨unmatched canonicalValue o (registry.candidates (host.matchesText element)) expected,
        (registry.candidates (host.matchesText element)).length⟩ := by
  unfold resolve at h
  split at h
  · cases h
  · next hel =>
    split at h
    · cases h
    · cases h
      rw [Bool.not_eq_true', Bool.not_eq_false] at hel
      exact ⟨hel, rfl⟩

/-! ### Reports -/

/-- A value that a report gives for a property is accepted when it is expected of the property,
under all options. If a report gives no value, a run that expects any value of the property reports
it again, under all options. -/
theorem resolve_reported {ν : Type} (canonicalValue : String → String → Option String)
    (host : Host ν) (element : ν) {registry : Registry} (hread : registry.IsRead)
    {inserts : List (String × ExpectedValue)} {o : Options} {outcome : Outcome}
    (hrun : resolve canonicalValue o host element registry (.ofList inserts) = .ok outcome)
    {u : Unmatched} (hu : u ∈ outcome.unmatched) :
    (∀ value, u.actual = some value → ∀ o',
      resolve canonicalValue o' host element registry (.ofList [(u.property, .text value)]) =
        .ok ⟨[], outcome.candidates⟩) ∧
      (u.actual = none → ∀ (o' : Options) (expected : Expectation) (value : ExpectedValue),
        (u.property, value) ∈ expected.entries → ∃ outcome',
          resolve canonicalValue o' host element registry expected = .ok outcome' ∧
            ⟨u.property, value.render, none⟩ ∈ outcome'.unmatched ∧ ¬ outcome'.matchedAll) := by
  obtain ⟨hel, rfl⟩ := resolve_eq_ok hrun
  obtain ⟨⟨p, written⟩, hentry, rfl⟩ :=
    List.mem_map.mp ((unmatched_sublist_entries _ _ _ _).mem hu)
  simp only [Unmatched.ofEntry]
  constructor
  · intro value hvalue o'
    obtain ⟨d, hd, rfl⟩ := Option.map_eq_some_iff.mp hvalue
    have hp := Expectation.propertyName_of_mem_ofList hentry
    have hexpected : Expectation.ofList [(p, .text d.value)] = ⟨[(p, .text d.value)]⟩ := by
      simp [Expectation.ofList, Expectation.insert, Expectation.empty, Expectation.put, hp]
    have hsatisfied : satisfied canonicalValue o'
        (registry.candidates (host.matchesText element)) p d.value :=
      satisfied_winner canonicalValue hd (hread.trimmed_winner hd) o'
    rw [hexpected, resolve_of_isElement _ _ _ _ hel _ (List.cons_ne_nil _ _), unmatched_eq]
    simp [ExpectedValue.render, hsatisfied]
  · intro hnone o' expected value hmem
    have hwinner : cascadeWinner (registry.candidates (host.matchesText element)) p = none :=
      Option.map_eq_none_iff.mp hnone
    have hu' := mem_unmatched_of_not_satisfied hmem
      (not_satisfied_of_cascadeWinner canonicalValue hwinner o' value.render)
    rw [Unmatched.ofEntry, hwinner, Option.map_none] at hu'
    refine ⟨_, resolve_of_isElement _ _ _ _ hel o' (List.ne_nil_of_mem hmem), hu', ?_⟩
    rw [Outcome.matchedAll, List.isEmpty_iff]
    exact List.ne_nil_of_mem hu'

/-- The reported value is the one written before the mark of importance, without the white space
around it; nothing is declared for the height of the lines. -/
theorem resolve_reported_important :
    let css := ".a \x7b color: Blue; color:  #FF0000 ! important \x7d"
    let registry := (Registry.empty.addSources Stylesheet.read [⟨"base", css⟩]).2
    let host : Host Unit := ⟨fun _ ↦ true, fun _ s ↦ s = ".a", fun _ ↦ ""⟩
    let run := fun o expected ↦ resolve Css.canonicalValue o host () registry expected
    let inserts := [("color", ExpectedValue.text "blue"), ("lineHeight", .text "normal")]
    let color : Unmatched := ⟨"color", "blue", some "#FF0000"⟩
    let lines : Unmatched := ⟨"line-height", "normal", none⟩
    registry.IsRead ∧ run ⟨.anyDeclaration, true⟩ (.ofList inserts) = .ok ⟨[color, lines], 1⟩ ∧
      (∀ o, run o (.ofList [("color", .text "#FF0000")]) = .ok ⟨[], 1⟩) ∧
      ∀ o, ∃ outcome, run o (.ofList inserts) = .ok outcome ∧ lines ∈ outcome.unmatched ∧
        ¬ outcome.matchedAll := by
  intro css registry host run inserts color lines
  have hread : registry.IsRead := Registry.isRead_empty.addSources Stylesheet.isRead_of_read _
  have hrun : run ⟨.anyDeclaration, true⟩ (.ofList inserts) = .ok ⟨[color, lines], 1⟩ := by
    decide +kernel
  have hcolor := resolve_reported Css.canonicalValue host () hread hrun List.mem_cons_self
  have hlines := resolve_reported Css.canonicalValue host () hread hrun
    (List.mem_cons_of_mem color List.mem_cons_self)
  have hlisted : (lines.property, .text "normal") ∈ (Expectation.ofList inserts).entries := by
    have hnames : propertyName "color" = "color" ∧ propertyName "lineHeight" = "line-height" := by
      decide +kernel
    simp [inserts, lines, Expectation.ofList, Expectation.insert, Expectation.empty,
      Expectation.put, hnames]
  exact ⟨hread, hrun, hcolor.1 "#FF0000" rfl, fun o ↦ hlines.2 rfl o _ _ hlisted⟩

end StyleCheck.Style
