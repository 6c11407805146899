import StyleCheck.Dom.Names

/-!
# Interned names

A place in the table stands for one name, and goes on standing for it whatever names are entered
later. Both directions of the table are kept inverse to each other.
-/

namespace StyleCheck.Dom.Names

/-- A name is found at the place where it stands, and nowhere else. -/
def Faithful (n : Names) : Prop :=
  ∀ name i, n.lookup? name = some i ↔ n.table[i]? = some name

/-- A table goes on from another: what stood in it still stands there. -/
def Extends (n n' : Names) : Prop := n.size ≤ n'.size ∧ ∀ i < n.size, n'.get i = n.get i

variable {n n' n'' : Names}

theorem Extends.refl (n : Names) : n.Extends n := ⟨Nat.le_refl _, fun _ _ ↦ rfl⟩

theorem Extends.trans (h : n.Extends n') (h' : n'.Extends n'') : n.Extends n'' := by
  refine ⟨Nat.le_trans h.1 h'.1, fun i hi ↦ ?_⟩
  rw [h'.2 i (Nat.lt_of_lt_of_le hi h.1), h.2 i hi]

/-- A name that is interned is found where it stands, or goes to the end of the table. -/
theorem intern_cases (n : Names) (name : String) :
    (∃ i, n.lookup? name = some i ∧ n.intern name = (i, n)) ∨
      (n.lookup? name = none ∧ n.intern name =
        (n.size, ⟨n.table.push name, n.places.add name n.size⟩)) := by
  cases h : n.lookup? name with
  | some i =>
    have hfind : n.places.find? name = some i := h
    exact .inl ⟨i, rfl, by rw [intern, hfind]⟩
  | none =>
    have hfind : n.places.find? name = none := h
    exact .inr ⟨rfl, by rw [intern, hfind]; rfl⟩

theorem extends_intern (n : Names) (name : String) : n.Extends (n.intern name).2 := by
  rcases intern_cases n name with ⟨i, -, he⟩ | ⟨-, he⟩
  · rw [he]
    exact .refl n
  · rw [he]
    refine ⟨by simp [size], ?_⟩
    intro i hi
    rw [get, get, Array.getElem?_push_lt hi, Array.getElem?_eq_getElem hi]

theorem faithful_empty : empty.Faithful := by
  intro name i
  simp [empty, lookup?, Positions.find?, Positions.empty]

theorem Faithful.intern (h : n.Faithful) (name : String) : (n.intern name).2.Faithful := by
  rcases intern_cases n name with ⟨i, -, he⟩ | ⟨hnone, he⟩
  · rw [he]
    exact h
  · rw [he]
    intro x i
    rw [lookup?, Positions.find?_add, Array.getElem?_push]
    by_cases hx : x = name
    · subst hx
      have hnew : n.table[i]? ≠ some x := by
        rw [Ne, ← h x i, hnone]
        exact nofun
      by_cases hi : i = n.table.size
      · simp [hi, size]
      · simp only [if_true, if_neg hi, hnew, iff_false, Option.some_inj]
        exact Ne.symm hi
    · rw [if_neg hx, ← lookup?, h x i]
      by_cases hi : i = n.table.size
      · simp [hi, Ne.symm hx]
      · rw [if_neg hi]

/-- The place of a name leads back to the name. -/
theorem Faithful.get_intern (h : n.Faithful) (name : String) :
    (n.intern name).2.get (n.intern name).1 = name := by
  rcases intern_cases n name with ⟨i, hi, he⟩ | ⟨-, he⟩
  · rw [he, get, (h name i).mp hi]
    rfl
  · rw [he]
    simp [get, size]

theorem Faithful.intern_lt_size (h : n.Faithful) (name : String) :
    (n.intern name).1 < (n.intern name).2.size := by
  rcases intern_cases n name with ⟨i, hi, he⟩ | ⟨-, he⟩
  · rw [he]
    exact (Array.getElem?_eq_some_iff.mp ((h name i).mp hi)).1
  · rw [he]
    simp [size]

/-- A name is found at a place of the table just if it stands there. -/
theorem Faithful.lookup?_eq_some_iff (h : n.Faithful) {name : String} {i : NameId} :
    n.lookup? name = some i ↔ i < n.size ∧ n.get i = name := by
  rw [h, get, size]
  constructor
  · intro hi
    exact ⟨(Array.getElem?_eq_some_iff.mp hi).1, by rw [hi, Option.getD_some]⟩
  · rintro ⟨hlt, hget⟩
    rw [Array.getElem?_eq_getElem hlt, Option.getD_some] at hget
    rw [Array.getElem?_eq_getElem hlt, hget]

/-- No two places stand for the same name. -/
theorem Faithful.eq_of_get_eq (h : n.Faithful) {i j : NameId} (hi : i < n.size) (hj : j < n.size)
    (hget : n.get i = n.get j) : i = j := by
  have hfound := h.lookup?_eq_some_iff.mpr ⟨hi, hget⟩
  rw [h.lookup?_eq_some_iff.mpr ⟨hj, rfl⟩] at hfound
  exact (Option.some.inj hfound).symm

theorem Faithful.nodup_table (h : n.Faithful) : n.table.toList.Nodup := by
  rw [List.Nodup, List.pairwise_iff_getElem]
  intro i j hi hj hlt heq
  rw [Array.length_toList] at hi hj
  refine Nat.ne_of_lt hlt (h.eq_of_get_eq hi hj ?_)
  rw [get, get, Array.getElem?_eq_getElem hi, Array.getElem?_eq_getElem hj, Option.getD_some,
    Option.getD_some]
  exact heq

/-- A name once interned is found at its place in every table that goes on from there. -/
theorem Faithful.lookup?_of_extends (h : n.Faithful) {name : String}
    (hextends : (n.intern name).2.Extends n') (h' : n'.Faithful) :
    n'.lookup? name = some (n.intern name).1 := by
  have hlt := h.intern_lt_size name
  refine h'.lookup?_eq_some_iff.mpr ⟨Nat.lt_of_lt_of_le hlt hextends.1, ?_⟩
  rw [hextends.2 _ hlt, h.get_intern]

/-! ### Names one after the other -/

/-- The table after names are entered one after the other. -/
def internAll (n : Names) (names : List String) : Names :=
  names.foldl (fun n name ↦ (n.intern name).2) n

theorem Faithful.internAll (h : n.Faithful) (names : List String) :
    (n.internAll names).Faithful := by
  induction names generalizing n with
  | nil => exact h
  | cons name rest ih => exact ih (h.intern name)

theorem extends_internAll (n : Names) (names : List String) : n.Extends (n.internAll names) := by
  induction names generalizing n with
  | nil => exact .refl n
  | cons name rest ih => exact (n.extends_intern name).trans (ih (n.intern name).2)

theorem faithful_initial : initial.Faithful := faithful_empty.internAll common

end StyleCheck.Dom.Names
