import StyleCheck.Decimal.Double

/-!
# Doubles from digits

A double from its digits and a power of ten by at most a few roundings: the digits are rounded
once, and each scaling by a power of ten rounds once more. The result may miss the nearest double
by a unit where the digits or the power are large.
-/

namespace StyleCheck.Decimal

/-- The greatest power of ten by which a double is scaled at once. -/
def greatestPower : Nat := 308

/-- A power of ten. -/
def tenTo (n : Nat) : Float := Float.ofScientific 1 false n

/-- A double divided by a power of ten, step by step. -/
def scaleDown (x : Float) (n : Nat) : Float :=
  if n ≤ greatestPower then x / tenTo n
  else if x == 0 then x
  else scaleDown (x / tenTo greatestPower) (n - greatestPower)
termination_by n
decreasing_by simp only [greatestPower] at *; omega

/-- The double `significand * 10 ^ exponent`, unless it is out of range. -/
def ofParts (significand : Nat) (exponent : Int) : Option Float :=
  let x := Float.ofNat significand
  if exponent < 0 then some (scaleDown x exponent.natAbs)
  else if significand = 0 then some x
  else if exponent.natAbs ≤ greatestPower then
    let scaled := x * tenTo exponent.natAbs
    if scaled.isInf then none else some scaled
  else none

/-- Digits with a point, or with an exponent where the number is large or small. -/
def Digits.pointed (x : Digits) : String :=
  if -5 < x.point && x.point ≤ 16 then
    let text := x.positional "0"
    if text.contains '.' then text else text ++ ".0"
  else x.signedScientific

/-- The text of a finite double, which shows that it is not read as an integer. -/
def ofDoublePointed (x : Float) : String :=
  let bits := x.toBits.toNat
  let sign := if bitField bits 63 1 = 1 then "-" else ""
  let field := bitField bits 52 11
  let fraction := bitField bits 0 52
  if field = 0 && fraction = 0 then sign ++ "0.0"
  else sign ++ (Binary.ofFields 52 1023 field fraction).shortest.pointed

end StyleCheck.Decimal
