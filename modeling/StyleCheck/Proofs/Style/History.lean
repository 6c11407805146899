import Mathlib.Data.List.Induction
import StyleCheck.Style.Declarations

/-!
# Histories of declarations

What the declarations of a rule are after any number of insertions: one for each property that was
inserted, in the order in which the properties came first, and the one that prevails in the history
of the property. Main statement: this, and that a later part of a history may be replaced by what it
comes to on its own.
-/

namespace StyleCheck.Style

/-! ### Lists without their repetitions -/

/-- A member behind the others stays unless it stands among them. -/
theorem eraseDups_concat (names : List String) (name : String) :
    (names ++ [name]).eraseDups =
      if name ∈ names then names.eraseDups else names.eraseDups ++ [name] := by
  rw [List.eraseDups_append]
  by_cases hname : name ∈ names <;> simp [List.removeAll, List.eraseDups_cons, hname]

theorem nodup_eraseDups (names : List String) : names.eraseDups.Nodup := by
  induction names using List.reverseRecOn with
  | nil => exact List.nodup_nil
  | append_singleton names name ih =>
    rw [eraseDups_concat]
    by_cases hname : name ∈ names
    · rwa [if_pos hname]
    · rw [if_neg hname, List.nodup_append]
      refine ⟨ih, by simp, ?_⟩
      intro x hx y hy hxy
      rw [List.mem_singleton.mp hy] at hxy
      exact hname (List.mem_eraseDups.mp (hxy ▸ hx))

theorem eraseDups_of_nodup {names : List String} (h : names.Nodup) : names.eraseDups = names := by
  induction names using List.reverseRecOn with
  | nil => rfl
  | append_singleton names name ih =>
    obtain ⟨hnames, -, hne⟩ := List.nodup_append.mp h
    have hname : name ∉ names := fun hm ↦ hne name hm name (List.mem_singleton_self name) rfl
    rw [eraseDups_concat, if_neg hname, ih hnames]

/-- The repetitions in the later part of a list may be left out first. -/
theorem eraseDups_append_eraseDups (names more : List String) :
    (names ++ more.eraseDups).eraseDups = (names ++ more).eraseDups := by
  induction more using List.reverseRecOn with
  | nil => rfl
  | append_singleton more name ih =>
    rw [← List.append_assoc, eraseDups_concat (names ++ more), eraseDups_concat more]
    by_cases hname : name ∈ more
    · rw [if_pos hname, if_pos (List.mem_append_right names hname), ih]
    · simp only [if_neg hname, ← List.append_assoc, eraseDups_concat, List.mem_append,
        List.mem_eraseDups, ih]

/-! ### What prevails -/

/-- The last important declaration of a history or, if there is none, its last one. -/
def prevailing (history : List Declaration) : Option Declaration :=
  (history.filter Declaration.important).getLast?.or history.getLast?

@[simp] theorem prevailing_nil : prevailing [] = none := rfl

@[simp] theorem prevailing_singleton (d : Declaration) : prevailing [d] = some d := by
  cases h : d.important <;> simp [prevailing, h]

/-- Of two declarations the later one prevails, unless the earlier one alone is important. -/
@[simp] theorem prevailing_pair (e d : Declaration) :
    prevailing [e, d] = if e.important && !d.important then some e else some d := by
  cases he : e.important <;> cases hd : d.important <;> simp [prevailing, he, hd]

@[simp] theorem prevailing_toList (d : Option Declaration) : prevailing d.toList = d := by
  cases d <;> simp

theorem prevailing_append (history more : List Declaration) :
    prevailing (history ++ more) =
      ((more.filter Declaration.important).getLast?.or
        (history.filter Declaration.important).getLast?).or
        (more.getLast?.or history.getLast?) := by
  rw [prevailing, List.filter_append, List.getLast?_append, List.getLast?_append]

/-- A history and what prevails in it end with one important declaration, if there is any. -/
private theorem getLast?_filter_prevailing (history : List Declaration) :
    ((prevailing history).toList.filter Declaration.important).getLast? =
      (history.filter Declaration.important).getLast? := by
  rw [prevailing]
  cases himportant : (history.filter Declaration.important).getLast? with
  | some d =>
    have hd : d.important := (List.mem_filter.mp (List.mem_of_getLast? himportant)).2
    simp [hd]
  | none =>
    rw [List.getLast?_eq_none_iff, List.filter_eq_nil_iff] at himportant
    cases hlast : history.getLast? with
    | none => rfl
    | some d => simp [himportant d (List.mem_of_getLast? hlast)]

private theorem getLast?_prevailing {history : List Declaration}
    (h : (history.filter Declaration.important).getLast? = none) :
    (prevailing history).toList.getLast? = history.getLast? := by
  rw [prevailing, h, Option.none_or]
  cases history.getLast? <;> rfl

/-- The earlier part of a history counts by what prevails in it. -/
theorem prevailing_prevailing_append (history more : List Declaration) :
    prevailing ((prevailing history).toList ++ more) = prevailing (history ++ more) := by
  rw [prevailing_append, prevailing_append, getLast?_filter_prevailing]
  cases himportant : (history.filter Declaration.important).getLast? with
  | none => rw [getLast?_prevailing himportant]
  | some d => cases (more.filter Declaration.important).getLast? <;> rfl

/-- The later part of a history counts by what prevails in it. -/
theorem prevailing_append_prevailing (history more : List Declaration) :
    prevailing (history ++ (prevailing more).toList) = prevailing (history ++ more) := by
  rw [prevailing_append, prevailing_append, getLast?_filter_prevailing]
  cases himportant : (more.filter Declaration.important).getLast? with
  | none => rw [getLast?_prevailing himportant]
  | some d => rfl

namespace Declarations

/-! ### One declaration per property -/

/-- No property is declared twice. -/
def Distinct (ds : Declarations) : Prop := (ds.entries.map Declaration.property).Nodup

theorem distinct_empty : empty.Distinct := List.nodup_nil

/-- The declaration of a property is the one that declares it. -/
theorem Distinct.get?_eq_some {ds : Declarations} (h : ds.Distinct) {p : String}
    {d : Declaration} : ds.get? p = some d ↔ d ∈ ds.entries ∧ d.property = p := by
  obtain ⟨entries⟩ := ds
  unfold get?
  unfold Distinct at h
  induction entries with
  | nil => simp
  | cons e rest ih =>
    rw [List.map_cons, List.nodup_cons] at h
    have hrest := ih h.2
    by_cases he : e.property = p
    · rw [List.find?_cons_of_pos (by simp [he]), Option.some_inj, List.mem_cons]
      constructor
      · rintro rfl
        exact ⟨.inl rfl, he⟩
      · rintro ⟨rfl | hd, hp⟩
        · rfl
        · exact absurd (List.mem_map.mpr ⟨d, hd, hp.trans he.symm⟩) h.1
    · rw [List.find?_cons_of_neg (by simp [he]), hrest, List.mem_cons]
      constructor
      · rintro ⟨hd, hp⟩
        exact ⟨.inr hd, hp⟩
      · rintro ⟨rfl | hd, hp⟩
        · exact absurd hp he
        · exact ⟨hd, hp⟩

/-- Two declarations of one property are the same. -/
theorem Distinct.eq_of_mem {ds : Declarations} (h : ds.Distinct) {d e : Declaration}
    (hd : d ∈ ds.entries) (he : e ∈ ds.entries) (hp : d.property = e.property) : d = e :=
  Option.some.inj ((h.get?_eq_some.mpr ⟨hd, hp⟩).symm.trans (h.get?_eq_some.mpr ⟨he, rfl⟩))

/-! ### One insertion -/

theorem mem_of_mem_put {d e : Declaration} {entries : List Declaration}
    (h : e ∈ put d entries) : e = d ∨ e ∈ entries := by
  fun_induction put d entries with
  | case1 => exact .inl (List.mem_singleton.mp h)
  | case2 => exact .inr h
  | case3 _ rest =>
    rcases List.mem_cons.mp h with h | h
    · exact .inl h
    · exact .inr (List.mem_cons_of_mem _ h)
  | case4 first rest _ ih =>
    rcases List.mem_cons.mp h with rfl | h
    · exact .inr List.mem_cons_self
    · exact (ih h).imp_right (List.mem_cons_of_mem _)

/-- A declared property keeps its place, and a new one goes last. -/
theorem map_property_put (d : Declaration) (entries : List Declaration) :
    (put d entries).map Declaration.property =
      if d.property ∈ entries.map Declaration.property then entries.map Declaration.property
      else entries.map Declaration.property ++ [d.property] := by
  fun_induction put d entries with
  | case1 => rfl
  | case2 e rest hp _ => simp [hp]
  | case3 e rest hp _ => simp [hp]
  | case4 e rest hp ih =>
    have hne : d.property ≠ e.property := Ne.symm hp
    simp only [List.map_cons, ih, List.mem_cons, hne, false_or]
    split <;> rfl

theorem Distinct.insert {ds : Declarations} (h : ds.Distinct) (d : Declaration) :
    (ds.insert d).Distinct := by
  show ((put d ds.entries).map Declaration.property).Nodup
  rw [map_property_put]
  split
  · exact h
  next hnew =>
    rw [List.nodup_append]
    refine ⟨h, by simp, ?_⟩
    intro p hp q hq hpq
    rw [List.mem_singleton.mp hq] at hpq
    exact hnew (hpq ▸ hp)

/-- An insertion adds to the history of the inserted property alone. -/
theorem get?_insert (ds : Declarations) (d : Declaration) (p : String) :
    (ds.insert d).get? p =
      prevailing ((ds.get? p).toList ++ [d].filter (·.property == p)) := by
  obtain ⟨entries⟩ := ds
  show (put d entries).find? (·.property == p) = _
  unfold get?
  fun_induction put d entries with
  | case1 => by_cases hp : d.property = p <;> simp [hp]
  | case2 e rest he hi => by_cases hp : d.property = p <;> simp [he, hp, hi]
  | case3 e rest he hi => by_cases hp : d.property = p <;> simp [he, hp, hi]
  | case4 e rest he ih =>
    by_cases hp : e.property = p
    · have hne : d.property ≠ p := fun hd ↦ he (hp.trans hd.symm)
      simp [hp, hne]
    · simp [hp, ih]

/-! ### All insertions -/

theorem insertAll_append (ds : Declarations) (history more : List Declaration) :
    ds.insertAll (history ++ more) = (ds.insertAll history).insertAll more := List.foldl_append

private theorem insertAll_concat (ds : Declarations) (history : List Declaration)
    (d : Declaration) : ds.insertAll (history ++ [d]) = (ds.insertAll history).insert d :=
  insertAll_append ds history [d]

theorem Distinct.insertAll {ds : Declarations} (h : ds.Distinct) (more : List Declaration) :
    (ds.insertAll more).Distinct := by
  induction more generalizing ds with
  | nil => exact h
  | cons d rest ih => exact ih (h.insert d)

theorem mem_of_mem_insertAll {ds : Declarations} {more : List Declaration} {e : Declaration}
    (h : e ∈ (ds.insertAll more).entries) : e ∈ ds.entries ∨ e ∈ more := by
  induction more generalizing ds with
  | nil => exact .inl h
  | cons d rest ih =>
    rcases ih h with h | h
    · rcases mem_of_mem_put h with rfl | h
      · exact .inr List.mem_cons_self
      · exact .inl h
    · exact .inr (List.mem_cons_of_mem _ h)

/-- The properties that were inserted are declared once each, in the order in which they came. -/
theorem map_property_insertAll (history : List Declaration) :
    (empty.insertAll history).entries.map Declaration.property =
      (history.map Declaration.property).eraseDups := by
  induction history using List.reverseRecOn with
  | nil => rfl
  | append_singleton history d ih =>
    rw [insertAll_concat, List.map_append, List.map_singleton, eraseDups_concat, ← ih]
    simp only [insert, map_property_put, ih, List.mem_eraseDups]

/-- A property has the declaration that prevails among those that were inserted for it. -/
theorem get?_insertAll (history : List Declaration) (p : String) :
    (empty.insertAll history).get? p = prevailing (history.filter (·.property == p)) := by
  induction history using List.reverseRecOn with
  | nil => rfl
  | append_singleton history d ih =>
    rw [insertAll_concat, get?_insert, ih, prevailing_prevailing_append, List.filter_append]

/-- Declarations are told by the order of the properties and by the declaration of each. -/
theorem Distinct.ext {a b : Declarations} (ha : a.Distinct)
    (hproperties : a.entries.map Declaration.property = b.entries.map Declaration.property)
    (hget : ∀ p, a.get? p = b.get? p) : a = b := by
  have hb : b.Distinct := by
    unfold Distinct
    rw [← hproperties]
    exact ha
  have hlength : a.entries.length = b.entries.length := by
    simpa using congrArg List.length hproperties
  suffices hentries : a.entries = b.entries by
    cases a
    cases b
    exact congrArg mk hentries
  apply List.ext_getElem hlength
  intro i hi hi'
  have hproperty : a.entries[i].property = b.entries[i].property := by
    simpa [hi, hi'] using congrArg (·[i]?) hproperties
  have hdeclared : b.get? b.entries[i].property = some a.entries[i] := by
    rw [← hget]
    exact ha.get?_eq_some.mpr ⟨List.getElem_mem hi, hproperty⟩
  have hdeclared' := hb.get?_eq_some.mpr ⟨List.getElem_mem hi', rfl⟩
  exact Option.some.inj (hdeclared.symm.trans hdeclared')

/-- Where each property is declared once, the declaration of a property is all that is listed for
it. -/
theorem Distinct.filter_entries {ds : Declarations} (h : ds.Distinct) (p : String) :
    ds.entries.filter (·.property == p) = (ds.get? p).toList := by
  obtain ⟨entries⟩ := ds
  unfold get?
  unfold Distinct at h
  induction entries with
  | nil => rfl
  | cons e rest ih =>
    rw [List.map_cons, List.nodup_cons] at h
    by_cases hp : e.property = p
    · have hrest : rest.filter (·.property == p) = [] := by
        rw [List.filter_eq_nil_iff]
        intro d hd hdp
        exact h.1 (List.mem_map.mpr ⟨d, hd, (eq_of_beq hdp).trans hp.symm⟩)
      simp [hp, hrest]
    · simp [hp, ih h.2]

/-- Where each property is declared once, the declarations are a history of themselves. -/
theorem Distinct.insertAll_self {ds : Declarations} (h : ds.Distinct) :
    empty.insertAll ds.entries = ds := by
  apply (distinct_empty.insertAll _).ext
  · rw [map_property_insertAll, eraseDups_of_nodup h]
  · intro p
    rw [get?_insertAll, h.filter_entries, prevailing_toList]

/-- A later part of a history may be replaced by what it comes to on its own. -/
theorem insertAll_entries (history more : List Declaration) :
    (empty.insertAll history).insertAll (empty.insertAll more).entries =
      (empty.insertAll history).insertAll more := by
  rw [← insertAll_append, ← insertAll_append]
  apply (distinct_empty.insertAll _).ext
  · rw [map_property_insertAll, map_property_insertAll, List.map_append, List.map_append,
      map_property_insertAll, eraseDups_append_eraseDups]
  · intro p
    rw [get?_insertAll, get?_insertAll, List.filter_append, List.filter_append,
      (distinct_empty.insertAll more).filter_entries, get?_insertAll, prevailing_append_prevailing]

/-- After any history of insertions there is one declaration for each property that was inserted, in
the order in which the properties came first: the last important one of the property or, if none of
them is important, the last one. To insert more is to insert what the further declarations come to
on their own. -/
theorem insertAll_history (history : List Declaration) :
    let ds := empty.insertAll history
    ds.entries.map Declaration.property = (history.map Declaration.property).eraseDups ∧
      (ds.entries.map Declaration.property).Nodup ∧
      (∀ p, ds.get? p = prevailing (history.filter (·.property == p))) ∧
      ∀ more, empty.insertAll (history ++ more) = ds.insertAll more ∧
        ds.insertAll more = ds.insertAll (empty.insertAll more).entries := by
  intro ds
  refine ⟨map_property_insertAll history, distinct_empty.insertAll history,
    get?_insertAll history, fun more ↦ ⟨?_, ?_⟩⟩
  · exact insertAll_append empty history more
  · exact (insertAll_entries history more).symm

end Declarations

end StyleCheck.Style
