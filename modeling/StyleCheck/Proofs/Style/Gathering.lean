import Mathlib.Data.List.Basic
import StyleCheck.Proofs.Style.History
import StyleCheck.Style.Stylesheet

/-!
# Gathered rules

A sheet gathers the rules with one key in the first of them, while the rules of new keys go behind
the others. Main statement: for every list of parsed rules the sheet has one rule for each key, in
the order in which the keys came first, it is found by its key, and it declares what prevails in the
rules that it was gathered from.
-/

namespace StyleCheck.Style

/-! ### The rules of one key -/

/-- A rule is what source rules of one key come to: it has the selectors of the first, the
properties of all of them, and for each property what prevails among their declarations. -/
structure Rule.Gathers (r : Rule) (sources : List Rule) : Prop where
  selectors : sources.head?.map Rule.selectors = some r.selectors
  properties : r.declarations.entries.map Declaration.property =
    (sources.flatMap fun source ↦ source.declarations.entries.map Declaration.property).eraseDups
  prevails : ∀ p, r.declarations.get? p =
    prevailing (sources.filterMap fun source ↦ source.declarations.get? p)

/-- A rule with the declarations of a later one. -/
def Rule.takeIn (first r : Rule) : Rule :=
  { first with declarations := first.declarations.insertAll r.declarations.entries }

/-- The first rule of a key takes in the others of its key. -/
def gather (parsed : List Rule) (key : String) : Option Rule :=
  match parsed.filter (·.key == key) with
  | [] => none
  | first :: rest => some (rest.foldl Rule.takeIn first)

/-- A further rule is taken in by what its key has gathered, or begins it. -/
theorem gather_concat (parsed : List Rule) (r : Rule) (key : String) :
    gather (parsed ++ [r]) key =
      if r.key = key then some (((gather parsed key).map (·.takeIn r)).getD r)
      else gather parsed key := by
  unfold gather
  rw [List.filter_append]
  by_cases hr : r.key = key
  · rw [if_pos hr]
    cases parsed.filter (·.key == key) with
    | nil => simp [hr]
    | cons first rest => simp [hr]
  · simp [hr]

/-- A key gathers a rule if there is a source rule with it. -/
theorem gather_eq_none {parsed : List Rule} {key : String} :
    gather parsed key = none ↔ key ∉ parsed.map Rule.key := by
  have hnil : gather parsed key = none ↔ parsed.filter (·.key == key) = [] := by
    unfold gather
    split <;> simp [*]
  simp [hnil]

theorem foldl_takeIn (first : Rule) (rest : List Rule) :
    rest.foldl Rule.takeIn first = { first with
      declarations := first.declarations.insertAll
        (rest.flatMap fun source ↦ source.declarations.entries) } := by
  induction rest generalizing first with
  | nil => rfl
  | cons r rest ih =>
    rw [List.foldl_cons, ih, List.flatMap_cons, Declarations.insertAll_append]
    rfl

/-- What is gathered is what the declarations of the source rules come to, one after the other. -/
theorem declarations_of_gather {parsed : List Rule}
    (hparsed : ∀ source ∈ parsed, source.declarations.Distinct) {key : String} {r : Rule}
    (hr : gather parsed key = some r) :
    r.declarations = Declarations.empty.insertAll
      ((parsed.filter (·.key == key)).flatMap fun source ↦ source.declarations.entries) := by
  have hsources : ∀ source ∈ parsed.filter (·.key == key), source.declarations.Distinct :=
    fun source hm ↦ hparsed source (List.mem_filter.mp hm).1
  unfold gather at hr
  generalize parsed.filter (·.key == key) = sources at hr hsources
  cases sources with
  | nil => cases hr
  | cons first rest =>
    rw [← Option.some.inj hr, foldl_takeIn, List.flatMap_cons, Declarations.insertAll_append,
      (hsources first List.mem_cons_self).insertAll_self]

/-- What is gathered begins with the first source rule. -/
theorem selectors_of_gather {parsed : List Rule} {key : String} {r : Rule}
    (hr : gather parsed key = some r) :
    (parsed.filter (·.key == key)).head?.map Rule.selectors = some r.selectors := by
  unfold gather at hr
  split at hr
  · cases hr
  next first rest hsources =>
    rw [hsources, ← Option.some.inj hr, foldl_takeIn]
    rfl

theorem gathers_of_gather {parsed : List Rule}
    (hparsed : ∀ source ∈ parsed, source.declarations.Distinct) {key : String} {r : Rule}
    (hr : gather parsed key = some r) : r.Gathers (parsed.filter (·.key == key)) where
  selectors := selectors_of_gather hr
  properties := by
    rw [declarations_of_gather hparsed hr, Declarations.map_property_insertAll, List.map_flatMap]
  prevails := by
    intro p
    rw [declarations_of_gather hparsed hr, Declarations.get?_insertAll, List.filter_flatMap,
      List.filterMap_eq_flatMap_toList]
    congr 1
    exact List.flatMap_congr fun source hm ↦
      (hparsed source (List.mem_filter.mp hm).1).filter_entries p

namespace Stylesheet

/-! ### Sheets -/

/-- A sheet holds what the rules `done` gather: a rule for each of their keys in order, and the
place of each rule under its key. -/
structure Holds (s : Stylesheet) (done : List Rule) : Prop where
  keys : s.rules.toList.map Rule.key = (done.map Rule.key).eraseDups
  located : ∀ (key : String) (place : Nat),
    s.places.find? key = some place ↔ s.rules[place]?.map Rule.key = some key
  gathered : ∀ (place : Nat) (x : Rule), s.rules[place]? = some x → gather done x.key = some x

theorem holds_empty (id content : String) : (empty id content).Holds [] where
  keys := rfl
  located := by simp [empty, Positions.empty, Positions.find?]
  gathered := by simp [empty]

/-- A rule that takes in another keeps its key. -/
private theorem map_key_modify (rules : Array Rule) (place : Nat) (r : Rule) (i : Nat) :
    (rules.modify place (·.takeIn r))[i]?.map Rule.key = rules[i]?.map Rule.key := by
  rw [Array.getElem?_modify]
  split
  · rw [Option.map_map]
    rfl
  · rfl

namespace Holds

variable {s : Stylesheet} {done : List Rule} (h : s.Holds done) {r : Rule}

include h

theorem find?_eq_none {key : String} :
    s.places.find? key = none ↔ key ∉ done.map Rule.key := by
  rw [← List.mem_eraseDups, ← h.keys, List.mem_iff_getElem?, Option.eq_none_iff_forall_ne_some]
  simp [h.located]

/-- A rule of a new key goes behind the others. -/
theorem push (hnew : s.places.find? r.key = none) :
    Holds { s with rules := s.rules.push r, places := s.places.add r.key s.rules.size }
      (done ++ [r]) where
  keys := by
    rw [Array.toList_push, List.map_append, List.map_append, h.keys, List.map_singleton,
      eraseDups_concat, if_neg (h.find?_eq_none.mp hnew)]
  located := by
    intro key place
    rw [Positions.find?_add, Array.getElem?_push]
    by_cases hkey : key = r.key
    · have hold : s.rules[place]?.map Rule.key ≠ some r.key := by
        rw [Ne, ← h.located, hnew]
        exact nofun
      by_cases hplace : place = s.rules.size
      · simp [hkey, hplace]
      · simp [hkey, hplace, hold, Ne.symm hplace]
    · by_cases hplace : place = s.rules.size
      · simp [hkey, hplace, Ne.symm hkey, h.located]
      · simp [hkey, hplace, h.located]
  gathered := by
    intro place x hx
    rw [Array.getElem?_push] at hx
    rw [gather_concat]
    by_cases hplace : place = s.rules.size
    · rw [if_pos hplace] at hx
      obtain rfl := Option.some.inj hx
      rw [if_pos rfl, gather_eq_none.mpr (h.find?_eq_none.mp hnew)]
      rfl
    · rw [if_neg hplace] at hx
      have hkey : r.key ≠ x.key := by
        intro hkey
        have hfound := (h.located r.key place).mpr (by rw [hx, hkey, Option.map_some])
        rw [hnew] at hfound
        cases hfound
      rw [if_neg hkey, h.gathered place x hx]

/-- A rule of a known key is taken in at the place of the key. -/
theorem takeIn {place : Nat} (hplace : s.places.find? r.key = some place) :
    Holds { s with rules := s.rules.modify place (·.takeIn r) } (done ++ [r]) where
  keys := by
    have hknown : r.key ∈ done.map Rule.key := by
      by_contra hnew
      rw [h.find?_eq_none.mpr hnew] at hplace
      cases hplace
    rw [List.map_append, List.map_singleton, eraseDups_concat, if_pos hknown, ← h.keys]
    apply List.ext_getElem?
    intro i
    simp only [List.getElem?_map, Array.getElem?_toList, map_key_modify]
  located := by
    intro key place'
    rw [map_key_modify, h.located]
  gathered := by
    intro i x hx
    rw [Array.getElem?_modify] at hx
    rw [gather_concat]
    by_cases hi : place = i
    · subst i
      obtain ⟨first, hfirst, hkey⟩ := Option.map_eq_some_iff.mp ((h.located r.key place).mp hplace)
      rw [if_pos rfl, hfirst] at hx
      obtain rfl := Option.some.inj hx
      have hgathered := h.gathered place first hfirst
      have hkey' : (first.takeIn r).key = r.key := hkey
      rw [if_pos hkey'.symm, hkey', ← hkey, hgathered]
      rfl
    · rw [if_neg hi] at hx
      have hkey : r.key ≠ x.key := by
        intro hkey
        have hfound := (h.located r.key i).mpr (by rw [hx, hkey, Option.map_some])
        exact hi (Option.some.inj (hplace.symm.trans hfound))
      rw [if_neg hkey, h.gathered i x hx]

theorem addRule (r : Rule) : (s.addRule r).Holds (done ++ [r]) := by
  unfold Stylesheet.addRule
  split
  next place hplace => exact h.takeIn hplace
  next hnew => exact h.push hnew

end Holds

/-- The sheet of a list of rules holds what they gather. -/
theorem holds_ofRules (id content : String) (parsed : List Rule) :
    (ofRules id content parsed).Holds parsed := by
  induction parsed using List.reverseRecOn with
  | nil => exact holds_empty id content
  | append_singleton parsed r ih =>
    rw [ofRules, List.foldl_append]
    exact ih.addRule r

/-- Each source rule has a rule of its key. -/
theorem Holds.exists_rule {s : Stylesheet} {done : List Rule} (h : s.Holds done) {source : Rule}
    (hsource : source ∈ done) : ∃ r ∈ s.rules, r.key = source.key := by
  have hkey : source.key ∈ s.rules.toList.map Rule.key := by
    rw [h.keys, List.mem_eraseDups]
    exact List.mem_map_of_mem hsource
  simpa using hkey

theorem Holds.get?_eq_some {s : Stylesheet} {done : List Rule} (h : s.Holds done) {key : String}
    {r : Rule} : s.get? key = some r ↔ r ∈ s.rules ∧ r.key = key := by
  rw [get?, Option.bind_eq_some_iff, Array.mem_iff_getElem?]
  constructor
  · rintro ⟨place, hplace, hr⟩
    have hkey := (h.located key place).mp hplace
    rw [hr, Option.map_some, Option.some_inj] at hkey
    exact ⟨⟨place, hr⟩, hkey⟩
  · rintro ⟨⟨place, hr⟩, rfl⟩
    exact ⟨place, (h.located r.key place).mpr (by rw [hr, Option.map_some]), hr⟩

/-- For every list of rules that declare each property once, the sheet has one rule for each key, in
the order in which the keys came first, and finds exactly that rule by the key. The rule gathers the
source rules of its key: each of their properties has the declaration of the last one that declares
it important or, if none does, of the last one that declares it. -/
theorem rules_ofRules (id content : String) {parsed : List Rule}
    (hparsed : ∀ source ∈ parsed, source.declarations.Distinct) :
    let s := ofRules id content parsed
    s.rules.toList.map Rule.key = (parsed.map Rule.key).eraseDups ∧
      (s.rules.toList.map Rule.key).Nodup ∧
      (∀ key r, s.get? key = some r ↔ r ∈ s.rules ∧ r.key = key) ∧
      ∀ r ∈ s.rules, r.Gathers (parsed.filter (·.key == r.key)) := by
  intro s
  have h : s.Holds parsed := holds_ofRules id content parsed
  refine ⟨h.keys, ?_, fun key r ↦ h.get?_eq_some, ?_⟩
  · rw [h.keys]
    exact nodup_eraseDups _
  · intro r hr
    obtain ⟨place, hplace⟩ := Array.mem_iff_getElem?.mp hr
    exact gathers_of_gather hparsed (h.gathered place r hplace)

/-- Three rules of one key around one of another key: the important declaration stays, the other
property takes its last one, and a new property is added. -/
theorem rules_ofRules_around :
    let red : Declaration := ⟨"color", "red", "red", true, 0⟩
    let zero : Declaration := ⟨"margin", "0", "0", false, 0⟩
    let green : Declaration := ⟨"color", "green", "green", false, 1⟩
    let blue : Declaration := ⟨"color", "blue", "#00f", false, 2⟩
    let wide : Declaration := ⟨"margin", "9px", "9px", false, 2⟩
    let thin : Declaration := ⟨"padding", "1px", "1px", false, 3⟩
    let parsed : List Rule := [⟨["p", ".a"], ⟨[red, zero]⟩⟩, ⟨["p"], ⟨[green]⟩⟩,
      ⟨["p", ".a"], ⟨[blue, wide]⟩⟩, ⟨["p", ".a"], ⟨[thin]⟩⟩]
    let s := ofRules "m" "" parsed
    (∀ source ∈ parsed, source.declarations.Distinct) ∧
      s.rules.toList.map Rule.key = ["p, .a", "p"] ∧
      ∃ r, s.get? "p, .a" = some r ∧ r ∈ s.rules ∧
        r.declarations.entries.map Declaration.property = ["color", "margin", "padding"] ∧
        r.declarations.get? "color" = some red ∧ r.declarations.get? "margin" = some wide ∧
        r.declarations.get? "padding" = some thin := by
  intro red zero green blue wide thin parsed s
  have hparsed : ∀ source ∈ parsed, source.declarations.Distinct := by
    simp [parsed, Declarations.Distinct, red, zero, blue, wide]
  obtain ⟨hkeys, -, hget, hgathers⟩ := rules_ofRules "m" "" hparsed
  obtain ⟨r, hr⟩ : ∃ r, s.get? "p, .a" = some r :=
    Option.isSome_iff_exists.mp (by decide +kernel)
  obtain ⟨hmem, hkey⟩ := (hget "p, .a" r).mp hr
  obtain ⟨-, hproperties, hprevails⟩ := hgathers r hmem
  rw [hkey] at hproperties hprevails
  refine ⟨hparsed, hkeys.trans (by decide +kernel), r, hr, hmem, ?_, ?_, ?_, ?_⟩
  · exact hproperties.trans (by decide +kernel)
  · exact (hprevails "color").trans (by decide +kernel)
  · exact (hprevails "margin").trans (by decide +kernel)
  · exact (hprevails "padding").trans (by decide +kernel)

end Stylesheet

end StyleCheck.Style
