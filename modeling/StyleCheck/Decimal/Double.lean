import StyleCheck.Decimal.Shortest

/-!
# Text of a double

A double is written by its shortest decimal, without an exponent however large or small it is.
-/

namespace StyleCheck.Decimal

/-- The `width` bits of a number from its bit `place` on, counted from the lowest. -/
def bitField (bits place width : Nat) : Nat := bits / Nat.pow 2 place % Nat.pow 2 width

/-- The finite nonzero number with the given exponent field and fraction of a format whose
fraction has `width` bits and whose exponents are offset by `bias`. -/
def Binary.ofFields (width bias field fraction : Nat) : Binary :=
  if field = 0 then ⟨fraction, 1 - (bias : Int) - width, false⟩
  else ⟨Nat.pow 2 width + fraction, field - (bias : Int) - width, fraction == 0 && 1 < field⟩

/-- The text of a double. -/
def ofDouble (x : Float) : String :=
  let bits := x.toBits.toNat
  let sign := if bitField bits 63 1 = 1 then "-" else ""
  let field := bitField bits 52 11
  let fraction := bitField bits 0 52
  if field = 2047 then
    if fraction = 0 then sign ++ "inf" else "NaN"
  else if field = 0 && fraction = 0 then sign ++ "0"
  else sign ++ (Binary.ofFields 52 1023 field fraction).shortest.positional "0"

end StyleCheck.Decimal
