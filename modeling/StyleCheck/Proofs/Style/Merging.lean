import StyleCheck.Proofs.Style.Gathering
import StyleCheck.Style.Reading

/-!
# Merged rules

What a sheet keeps of the rules that it was made of. A declaration of the sheet stands in the
source rule that it names, under the same selectors; a declaration that the sheet drops is
outweighed by one that it keeps under the same selectors.
-/

namespace StyleCheck.Style

/-! ### Declarations that outweigh others -/

/-- A declaration counts no more than another one of the same property, if both stand under the
same selectors. -/
def Declaration.Yields (d e : Declaration) : Prop :=
  d.property = e.property ∧
    (d.important.toNat < e.important.toNat ∨
      d.important = e.important ∧ d.ruleIndex ≤ e.ruleIndex)

/-- The last declaration of an ordered history has the last rule. -/
private theorem ruleIndex_le_getLast? {history : List Declaration}
    (hordered : history.Pairwise fun d e ↦ d.ruleIndex ≤ e.ruleIndex) {d e : Declaration}
    (hd : d ∈ history) (he : history.getLast? = some e) : d.ruleIndex ≤ e.ruleIndex := by
  obtain ⟨before, rfl⟩ := List.getLast?_eq_some_iff.mp he
  rcases List.mem_append.mp hd with hd | hd
  · exact (List.pairwise_append.mp hordered).2.2 d hd e (List.mem_singleton_self e)
  · exact Nat.le_of_eq (congrArg _ (List.mem_singleton.mp hd))

/-- In the ordered history of one property no declaration counts more than what prevails. -/
theorem exists_prevailing {history : List Declaration}
    (hordered : history.Pairwise fun d e ↦ d.ruleIndex ≤ e.ruleIndex) {d : Declaration}
    (hd : d ∈ history) (hproperty : ∀ e ∈ history, d.property = e.property) :
    ∃ e, prevailing history = some e ∧ d.Yields e := by
  cases hlast : (history.filter Declaration.important).getLast? with
  | some e =>
    have hmem : e ∈ history ∧ e.important :=
      List.mem_filter.mp (List.mem_of_getLast? hlast)
    refine ⟨e, by rw [prevailing, hlast, Option.some_or], hproperty e hmem.1, ?_⟩
    by_cases himportant : d.important
    · have hle := ruleIndex_le_getLast? (hordered.filter _)
        (List.mem_filter.mpr ⟨hd, himportant⟩) hlast
      exact .inr ⟨himportant.trans hmem.2.symm, hle⟩
    · exact .inl (by simp [himportant, hmem.2])
  | none =>
    obtain ⟨e, he⟩ : ∃ e, history.getLast? = some e :=
      Option.isSome_iff_exists.mp (by simpa using List.ne_nil_of_mem hd)
    have hmem : e ∈ history := List.mem_of_getLast? he
    rw [List.getLast?_eq_none_iff, List.filter_eq_nil_iff] at hlast
    refine ⟨e, by simpa [prevailing, List.filter_eq_nil_iff.mpr hlast] using he,
      hproperty e hmem, .inr ⟨?_, ruleIndex_le_getLast? hordered hd he⟩⟩
    simp [hlast d hd, hlast e hmem]

/-- Where declarations are inserted in the order of their rules, none is lost without another that
it yields to. -/
theorem Declarations.exists_yields_of_insertAll {history : List Declaration}
    (hordered : history.Pairwise fun d e ↦ d.ruleIndex ≤ e.ruleIndex) {d : Declaration}
    (hd : d ∈ history) : ∃ e ∈ (empty.insertAll history).entries, d.Yields e := by
  obtain ⟨e, he, hyields⟩ := exists_prevailing (hordered.filter (·.property == d.property))
    (List.mem_filter.mpr ⟨hd, beq_self_eq_true _⟩)
    (fun e he ↦ (eq_of_beq (List.mem_filter.mp he).2).symm)
  rw [← get?_insertAll] at he
  exact ⟨e, ((distinct_empty.insertAll history).get?_eq_some.mp he).1, hyields⟩

/-! ### Sheets of parsed rules -/

/-- The rules of a sheet as its text gives them, before any are merged. Each has one declaration
per property with the place of the rule, and a key tells the selectors. -/
structure ParsedSheet where
  id : String
  content : String
  rules : List Rule
  distinct : ∀ r ∈ rules, r.declarations.Distinct
  placed : ∀ (i : Nat) (r : Rule), rules[i]? = some r →
    ∀ d ∈ r.declarations.entries, d.ruleIndex = i
  keyed : ∀ r ∈ rules, ∀ first ∈ rules, first.key = r.key → first.selectors = r.selectors

/-- The sheet that the rules are merged into. -/
def ParsedSheet.merged (parsed : ParsedSheet) : Stylesheet :=
  .ofRules parsed.id parsed.content parsed.rules

/-- The rules that are paired with the blocks of a text make up a parsed sheet, if a key tells
the selectors. -/
def ParsedSheet.ofStyleRules (id content : String) (styles : List Css.StyleRule)
    (blocks : List (List WrittenDeclaration))
    (keyed : ∀ r ∈ pairRules styles blocks, ∀ first ∈ pairRules styles blocks,
      first.key = r.key → first.selectors = r.selectors) : ParsedSheet where
  id := id
  content := content
  rules := pairRules styles blocks
  distinct := by
    intro r hr
    obtain ⟨x, -, rfl⟩ := List.mem_map.mp hr
    exact Declarations.distinct_empty.insertAll _
  placed := by
    intro i r hr d hd
    simp only [pairRules, List.getElem?_map, List.getElem?_zipIdx, Option.map_map,
      Option.map_eq_some_iff, Function.comp] at hr
    obtain ⟨style, -, rfl⟩ := hr
    rcases Declarations.mem_of_mem_insertAll hd with hd | hd
    · cases hd
    · obtain ⟨c, -, rfl⟩ := List.mem_map.mp hd
      exact Nat.zero_add i
  keyed := keyed

/-- The declarations of the rules with a key come in the order of the rules. -/
private theorem ParsedSheet.pairwise_ruleIndex (parsed : ParsedSheet) (key : String) :
    ((parsed.rules.filter (·.key == key)).flatMap fun r ↦ r.declarations.entries).Pairwise
      fun d e ↦ d.ruleIndex ≤ e.ruleIndex := by
  rw [List.pairwise_flatMap]
  constructor
  · intro r hr
    obtain ⟨i, hi⟩ := List.mem_iff_getElem?.mp (List.mem_filter.mp hr).1
    rw [List.pairwise_iff_getElem]
    intro j k hj hk _
    exact Nat.le_of_eq ((parsed.placed i r hi _ (List.getElem_mem hj)).trans
      (parsed.placed i r hi _ (List.getElem_mem hk)).symm)
  · apply List.Pairwise.filter
    rw [List.pairwise_iff_getElem]
    intro i j hi hj hij d hd e he
    rw [parsed.placed i _ (List.getElem?_eq_getElem hi) d hd,
      parsed.placed j _ (List.getElem?_eq_getElem hj) e he]
    omega

/-- A sheet holds what counts of the rules `done`: its keys lead to their rules, each of its
declarations stands in a source rule, and each source declaration yields to one that it holds. -/
structure Stylesheet.Merges (done : List Rule) (s : Stylesheet) : Prop where
  located : ∀ key place, s.places.find? key = some place →
    ∃ r, s.rules[place]? = some r ∧ r.key = key
  distinct : ∀ r ∈ s.rules, r.declarations.Distinct
  kept : ∀ r ∈ s.rules, ∃ source ∈ done, source.selectors = r.selectors
  drawn : ∀ r ∈ s.rules, ∀ d ∈ r.declarations.entries, ∃ source, done[d.ruleIndex]? = some source ∧
    source.selectors = r.selectors ∧ d ∈ source.declarations.entries
  covered : ∀ (i : Nat) source, done[i]? = some source → ∀ d ∈ source.declarations.entries,
    ∃ r ∈ s.rules, r.selectors = source.selectors ∧ ∃ e ∈ r.declarations.entries, d.Yields e

/-- The merged sheet holds what counts of all its source rules. -/
theorem ParsedSheet.merges (parsed : ParsedSheet) : parsed.merged.Merges parsed.rules := by
  have h : parsed.merged.Holds parsed.rules := Stylesheet.holds_ofRules _ _ _
  have hgather : ∀ r ∈ parsed.merged.rules, gather parsed.rules r.key = some r := by
    intro r hr
    obtain ⟨place, hplace⟩ := Array.mem_iff_getElem?.mp hr
    exact h.gathered place r hplace
  have hkept : ∀ r ∈ parsed.merged.rules,
      ∃ first ∈ parsed.rules, first.selectors = r.selectors := by
    intro r hr
    obtain ⟨first, hfirst, hsel⟩ := Option.map_eq_some_iff.mp (selectors_of_gather (hgather r hr))
    exact ⟨first, (List.mem_filter.mp (List.mem_of_head? hfirst)).1, hsel⟩
  have hselectors : ∀ r ∈ parsed.merged.rules, ∀ source ∈ parsed.rules, source.key = r.key →
      source.selectors = r.selectors := by
    intro r hr source hsource hkey
    obtain ⟨first, hfirst, hsel⟩ := hkept r hr
    have hfirstKey : first.key = r.key := by rw [Rule.key, Rule.key, hsel]
    exact (parsed.keyed source hsource first hfirst (hfirstKey.trans hkey.symm)).symm.trans hsel
  constructor
  case located =>
    intro key place hplace
    exact Option.map_eq_some_iff.mp ((h.located key place).mp hplace)
  case distinct =>
    intro r hr
    rw [declarations_of_gather parsed.distinct (hgather r hr)]
    exact Declarations.distinct_empty.insertAll _
  case kept => exact hkept
  case drawn =>
    intro r hr d hd
    rw [declarations_of_gather parsed.distinct (hgather r hr)] at hd
    rcases Declarations.mem_of_mem_insertAll hd with hd | hd
    · cases hd
    · obtain ⟨source, hsource, hd⟩ := List.mem_flatMap.mp hd
      obtain ⟨hmem, hkey⟩ := List.mem_filter.mp hsource
      obtain ⟨i, hi⟩ := List.mem_iff_getElem?.mp hmem
      refine ⟨source, ?_, hselectors r hr source hmem (eq_of_beq hkey), hd⟩
      rw [parsed.placed i source hi d hd, hi]
  case covered =>
    intro i source hi d hd
    have hmem : source ∈ parsed.rules := List.mem_of_getElem? hi
    obtain ⟨r, hr, hkey⟩ := h.exists_rule hmem
    have hin : d ∈ (parsed.rules.filter (·.key == r.key)).flatMap fun r ↦ r.declarations.entries :=
      List.mem_flatMap.mpr ⟨source, List.mem_filter.mpr ⟨hmem, by simp [hkey]⟩, hd⟩
    obtain ⟨e, he, hyields⟩ :=
      Declarations.exists_yields_of_insertAll (parsed.pairwise_ruleIndex r.key) hin
    rw [← declarations_of_gather parsed.distinct (hgather r hr)] at he
    exact ⟨r, hr, (hselectors r hr source hmem hkey.symm).symm, e, he, hyields⟩

end StyleCheck.Style
