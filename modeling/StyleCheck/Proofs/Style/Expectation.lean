import StyleCheck.Proofs.Style.History
import StyleCheck.Style.Expectation

/-!
# Expected styles

What the entries of an expectation are after any number of insertions: a property is listed once,
at the place where it was first named, with the value that it was given last.
-/

namespace StyleCheck.Style.Expectation

/-- No property is expected twice. -/
def Distinct (e : Expectation) : Prop := (e.entries.map Prod.fst).Nodup

/-- A listed property keeps its place, and a new one goes last. -/
theorem map_fst_put (p : String) (v : ExpectedValue) (entries : List (String × ExpectedValue)) :
    (put p v entries).map Prod.fst =
      if p ∈ entries.map Prod.fst then entries.map Prod.fst
      else entries.map Prod.fst ++ [p] := by
  induction entries with
  | nil => rfl
  | cons entry rest ih =>
    obtain ⟨q, w⟩ := entry
    by_cases hq : q = p
    · subst hq
      simp [put]
    · have hp : p ≠ q := Ne.symm hq
      simp only [put, if_neg hq, List.map_cons, ih, List.mem_cons, hp, false_or]
      split <;> rfl

theorem put_ne_nil (p : String) (v : ExpectedValue) (entries : List (String × ExpectedValue)) :
    put p v entries ≠ [] := by
  cases entries with
  | nil => exact List.cons_ne_nil _ _
  | cons entry rest =>
    unfold put
    split <;> exact List.cons_ne_nil _ _

theorem put_of_not_mem {p : String} (v : ExpectedValue) {entries : List (String × ExpectedValue)}
    (h : p ∉ entries.map Prod.fst) : put p v entries = entries ++ [(p, v)] := by
  induction entries with
  | nil => rfl
  | cons entry rest ih =>
    obtain ⟨hp, hrest⟩ := List.ne_and_not_mem_of_not_mem_cons h
    rw [put, if_neg (Ne.symm hp), ih hrest, List.cons_append]

/-- The later of two values of one property is the one that stays. -/
theorem put_put (p : String) (v w : ExpectedValue) (entries : List (String × ExpectedValue)) :
    put p w (put p v entries) = put p w entries := by
  fun_induction put p v entries with
  | case1 => simp [put]
  | case2 => simp [put]
  | case3 q u rest hq ih => simp [put, hq, ih]

private theorem lookup_cons (p : String) (v : ExpectedValue)
    (entries : List (String × ExpectedValue)) (q : String) :
    ((p, v) :: entries).lookup q = if q = p then some v else entries.lookup q := by
  by_cases hq : q = p
  · subst hq
    rw [List.lookup_cons_self, if_pos rfl]
  · rw [List.lookup_cons, beq_false_of_ne hq, if_neg hq]

theorem lookup_put (p : String) (v : ExpectedValue) (entries : List (String × ExpectedValue))
    (q : String) : (put p v entries).lookup q = if q = p then some v else entries.lookup q := by
  fun_induction put p v entries with
  | case1 => rw [lookup_cons]
  | case2 u rest =>
    rw [lookup_cons, lookup_cons]
    by_cases hq : q = p
    · rw [if_pos hq, if_pos hq]
    · rw [if_neg hq, if_neg hq, if_neg hq]
  | case3 r u rest hr ih =>
    rw [lookup_cons, lookup_cons, ih]
    by_cases hq : q = r
    · rw [if_pos hq, if_neg (hq ▸ hr), if_pos hq]
    · rw [if_neg hq, if_neg hq]

theorem ofList_concat (inserts : List (String × ExpectedValue))
    (i : String × ExpectedValue) : ofList (inserts ++ [i]) = (ofList inserts).insert i.1 i.2 :=
  List.foldl_append

/-- The properties are listed in the order in which they were first named. -/
theorem map_fst_ofList (inserts : List (String × ExpectedValue)) :
    (ofList inserts).entries.map Prod.fst =
      (inserts.map fun i ↦ propertyName i.1).eraseDups := by
  induction inserts using List.reverseRecOn with
  | nil => rfl
  | append_singleton inserts i ih =>
    rw [ofList_concat, List.map_append, List.map_singleton, eraseDups_concat, ← ih]
    simp only [insert, map_fst_put, ih, List.mem_eraseDups]

/-- However often a property is named, it is expected once. -/
theorem distinct_ofList (inserts : List (String × ExpectedValue)) : (ofList inserts).Distinct := by
  unfold Distinct
  rw [map_fst_ofList]
  exact nodup_eraseDups _

/-- A property has the value that it was given last. -/
theorem lookup_ofList (inserts : List (String × ExpectedValue)) (p : String) :
    (ofList inserts).entries.lookup p =
      (inserts.filter fun i ↦ propertyName i.1 == p).getLast?.map Prod.snd := by
  induction inserts using List.reverseRecOn with
  | nil => rfl
  | append_singleton inserts i ih =>
    rw [ofList_concat, List.filter_append, List.getLast?_append]
    simp only [insert, lookup_put, ih]
    by_cases hp : p = propertyName i.1
    · simp [hp]
    · simp [hp, Ne.symm hp]

/-- Whoever names a property expects something. -/
theorem entries_ofList_ne_nil {inserts : List (String × ExpectedValue)} (h : inserts ≠ []) :
    (ofList inserts).entries ≠ [] := by
  unfold ofList
  generalize empty = start
  induction inserts generalizing start with
  | nil => exact absurd rfl h
  | cons entry rest ih =>
    cases rest with
    | nil => exact put_ne_nil _ _ _
    | cons next rest =>
      rw [List.foldl_cons]
      exact ih (List.cons_ne_nil next rest) _

end StyleCheck.Style.Expectation
