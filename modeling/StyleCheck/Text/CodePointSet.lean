/-!
# Sets of code points

A set is given by the increasing list of the code points at which membership flips: a member has
an odd number of boundaries at or below it.
-/

namespace StyleCheck.Text

/-- Membership of `n` when the points below the first boundary are members iff `inside`. -/
def memberFrom (inside : Bool) : List Nat → Nat → Bool
  | [], _ => inside
  | bound :: bounds, n => if n < bound then inside else memberFrom (!inside) bounds n

/-- Membership in the set with the given boundaries. -/
def memberOf (bounds : List Nat) (n : Nat) : Bool := memberFrom false bounds n

end StyleCheck.Text
