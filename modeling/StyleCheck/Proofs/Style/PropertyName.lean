import StyleCheck.Proofs.Style.Expectation
import StyleCheck.Proofs.Style.Trimming

/-!
# Hyphenated names

A name that was hyphenated has no capitals left, unless it is that of a custom property, and no
white space at its ends. So it is kept when it is taken for the name of a property again, and an
expectation lists every property by the name that it keeps.
-/

namespace StyleCheck.Style

variable {name : List Char} {c : Char}

/-! ### Capitals -/

theorem isUpper_iff : c.isUpper ↔ 65 ≤ c.toNat ∧ c.toNat ≤ 90 := by
  show decide (65 ≤ c.val ∧ c.val ≤ 90) = true ↔ _
  simp only [decide_eq_true_eq, UInt32.le_iff_toNat_le]
  rfl

/-- The small letter of a capital stands 32 places behind it. -/
theorem toNat_toLower (h : c.isUpper) : c.toLower.toNat = c.toNat + 32 := by
  have hcapital : 'A'.val ≤ c.val ∧ c.val ≤ 'Z'.val := of_decide_eq_true h
  have hval : c.toLower.val = c.val + 32 := congrArg Char.val (dif_pos hcapital)
  rw [isUpper_iff] at h
  show c.toLower.val.toNat = c.toNat + 32
  rw [hval, UInt32.toNat_add]
  exact Nat.mod_eq_of_lt (Nat.lt_of_le_of_lt (Nat.add_le_add_right h.2 32) (by decide))

theorem not_isUpper_of_mem_hyphenate (h : c ∈ hyphenate name) : ¬ c.isUpper := by
  fun_induction hyphenate name with
  | case1 => cases h
  | case2 d rest hd ih =>
    rcases List.mem_cons.mp h with rfl | h
    · decide
    · rcases List.mem_cons.mp h with rfl | h
      · rw [isUpper_iff, toNat_toLower hd]
        rw [isUpper_iff] at hd
        omega
      · exact ih h
  | case3 d rest hd ih =>
    rcases List.mem_cons.mp h with rfl | h
    · exact hd
    · exact ih h

theorem markVendor_cases (name : List Char) :
    markVendor name = name ∨ markVendor name = '-' :: name := by
  fun_cases markVendor name with
  | case1 => exact .inr rfl
  | case2 => exact .inl rfl

theorem not_isUpper_of_mem_markVendor (hname : ∀ d ∈ name, ¬ d.isUpper) (h : c ∈ markVendor name) :
    ¬ c.isUpper := by
  rcases markVendor_cases name with hv | hv <;> rw [hv] at h
  · exact hname c h
  · rcases List.mem_cons.mp h with rfl | h
    · decide
    · exact hname c h

theorem hyphenated_of_not_isUpper (h : ∀ d ∈ name, ¬ d.isUpper) : hyphenated name = name := by
  have hnone : name.any Char.isUpper = false := by
    rw [List.any_eq_false]
    exact h
  rw [hyphenated, hnone, Bool.not_false, Bool.or_true, if_pos rfl]

theorem hyphenated_hyphenated (name : List Char) :
    hyphenated (hyphenated name) = hyphenated name := by
  by_cases hkept : (['-', '-'].isPrefixOf name || !name.any Char.isUpper) = true
  · have hname : hyphenated name = name := if_pos hkept
    rw [hname, hname]
  · have hname : hyphenated name = if name = "cssFloat".toList then "float".toList
        else markVendor (hyphenate name) := if_neg hkept
    rw [hname]
    split
    · decide
    · exact hyphenated_of_not_isUpper fun d hd ↦
        not_isUpper_of_mem_markVendor (fun _ ↦ not_isUpper_of_mem_hyphenate) hd

/-! ### White space -/

theorem not_isSpace_toLower (h : c.isUpper) : ¬ Text.isSpace c.toLower := by
  apply Written.not_isSpace_of_isAlpha
  rw [Selector.Grammar.isAlpha_iff, toNat_toLower h]
  rw [isUpper_iff] at h
  omega

theorem hyphenate_ne_nil (h : name ≠ []) : hyphenate name ≠ [] := by
  cases name with
  | nil => exact absurd rfl h
  | cons d rest =>
    unfold hyphenate
    split <;> exact List.cons_ne_nil _ _

theorem not_isSpace_head_hyphenate (hname : ∀ h : name ≠ [], ¬ Text.isSpace (name.head h))
    (h : hyphenate name ≠ []) : ¬ Text.isSpace ((hyphenate name).head h) := by
  fun_induction hyphenate name with
  | case1 => exact absurd rfl h
  | case2 d rest => exact (by decide : ¬ Text.isSpace '-')
  | case3 d rest => exact hname (List.cons_ne_nil d rest)

theorem not_isSpace_getLast_hyphenate (hname : ∀ h : name ≠ [], ¬ Text.isSpace (name.getLast h))
    (h : hyphenate name ≠ []) : ¬ Text.isSpace ((hyphenate name).getLast h) := by
  fun_induction hyphenate name with
  | case1 => exact absurd rfl h
  | case2 d rest hd ih =>
    by_cases hrest : rest = []
    · subst hrest
      exact not_isSpace_toLower hd
    · have hne := hyphenate_ne_nil hrest
      rw [List.getLast_cons (List.cons_ne_nil _ _), List.getLast_cons hne]
      refine ih (fun hrest' ↦ ?_) hne
      rw [← List.getLast_cons hrest']
      exact hname _
  | case3 d rest hd ih =>
    by_cases hrest : rest = []
    · subst hrest
      exact hname (List.cons_ne_nil d [])
    · have hne := hyphenate_ne_nil hrest
      rw [List.getLast_cons hne]
      refine ih (fun hrest' ↦ ?_) hne
      rw [← List.getLast_cons hrest']
      exact hname _

theorem trimmed_markVendor (h : Text.Trimmed name) : Text.Trimmed (markVendor name) := by
  rcases markVendor_cases name with hv | hv <;> rw [hv]
  · exact h
  · refine ⟨fun _ ↦ (by decide : ¬ Text.isSpace '-'), fun hne ↦ ?_⟩
    by_cases hname : name = []
    · subst hname
      exact (by decide : ¬ Text.isSpace '-')
    · rw [List.getLast_cons hname]
      exact h.last hname

theorem trimmed_hyphenated (h : Text.Trimmed name) : Text.Trimmed (hyphenated name) := by
  unfold hyphenated
  split
  · exact h
  · split
    · exact ⟨by decide, by decide⟩
    · exact trimmed_markVendor
        ⟨not_isSpace_head_hyphenate h.head, not_isSpace_getLast_hyphenate h.last⟩

/-! ### Names of properties -/

/-- The name of a property is the name of the same property. -/
theorem propertyName_propertyName (name : String) :
    propertyName (propertyName name) = propertyName name := by
  have htrimmed := trimmed_hyphenated (Text.trimmed_trimChars name.toList)
  rw [propertyName, propertyName, String.toList_ofList, htrimmed.trimChars_eq,
    hyphenated_hyphenated]

namespace Expectation

/-- Every property is listed by its own name. -/
theorem propertyName_of_mem_ofList {inserts : List (String × ExpectedValue)}
    {entry : String × ExpectedValue} (h : entry ∈ (ofList inserts).entries) :
    propertyName entry.1 = entry.1 := by
  -- along the insertions: the names listed so far are kept
  suffices hall : ∀ start : Expectation,
      (∀ p ∈ start.entries.map Prod.fst, propertyName p = p) →
      ∀ p ∈ (inserts.foldl (fun e i ↦ e.insert i.1 i.2) start).entries.map Prod.fst,
        propertyName p = p from
    hall empty nofun entry.1 (List.mem_map_of_mem h)
  clear h
  induction inserts with
  | nil => exact fun _ hstart ↦ hstart
  | cons i rest ih =>
    intro start hstart
    refine ih (start.insert i.1 i.2) ?_
    intro p hp
    rw [insert, map_fst_put] at hp
    split at hp
    · exact hstart p hp
    · rcases List.mem_append.mp hp with hp | hp
      · exact hstart p hp
      · rw [List.mem_singleton.mp hp]
        exact propertyName_propertyName i.1

/-- Entries of different properties, listed by the names that are kept, make themselves. -/
theorem Distinct.ofList_entries {e : Expectation} (h : e.Distinct)
    (hkept : ∀ entry ∈ e.entries, propertyName entry.1 = entry.1) : ofList e.entries = e := by
  obtain ⟨entries⟩ := e
  unfold Distinct at h
  induction entries using List.reverseRecOn with
  | nil => rfl
  | append_singleton front entry ih =>
    rw [List.map_append, List.map_singleton, List.nodup_append] at h
    obtain ⟨hfront, -, hnew⟩ := h
    have hentry : entry.1 ∉ front.map Prod.fst :=
      fun hmem ↦ hnew entry.1 hmem entry.1 (List.mem_singleton_self _) rfl
    have hname := hkept entry (List.mem_append_right front (List.mem_singleton_self entry))
    rw [ofList_concat, ih hfront fun e he ↦ hkept e (List.mem_append_left _ he), insert, hname,
      put_of_not_mem entry.2 hentry]

end Expectation

end StyleCheck.Style
