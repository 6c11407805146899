/-!
# Positions by name

A directory of named places in a list that only grows: each name is entered once, with the place
that it was given.
-/

namespace StyleCheck

/-- The places of the names entered so far, the last one first. -/
structure Positions where
  entries : List (String × Nat)

namespace Positions

/-- No names. -/
def empty : Positions := ⟨[]⟩

/-- The place of a name. -/
def find? (p : Positions) (name : String) : Option Nat := p.entries.lookup name

/-- Whether a name has a place. -/
def contains (p : Positions) (name : String) : Bool := (p.find? name).isSome

/-- Enter a name. -/
def add (p : Positions) (name : String) (place : Nat) : Positions := ⟨(name, place) :: p.entries⟩

theorem find?_add (p : Positions) (name : String) (place : Nat) (x : String) :
    (p.add name place).find? x = if x = name then some place else p.find? x := by
  rw [find?, add, List.lookup_cons]
  by_cases hx : x = name
  · simp [hx]
  · rw [beq_eq_false_iff_ne.mpr hx, if_neg hx]
    rfl

end Positions

end StyleCheck
