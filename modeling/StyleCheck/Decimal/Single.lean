import StyleCheck.Decimal.Double

/-!
# Text of a single

A single is written with at most six significant digits, rounded off from its shortest decimal. An
exponent appears only outside the range from `1e-6` to `1e21`.
-/

namespace StyleCheck.Decimal

/-- The sign and the shortest decimal of a finite nonzero single. -/
def Digits.ofSingle (x : Float32) : Bool × Digits :=
  let bits := x.toBits.toNat
  (bitField bits 31 1 == 1,
    (Binary.ofFields 23 127 (bitField bits 23 8) (bitField bits 0 23)).shortest)

/-- Digits in positional form where the range allows it; `whole` stands before the point of a
fraction below one. -/
def Digits.compact (x : Digits) (whole : String) : String :=
  if -6 < x.point && x.point ≤ 21 then x.positional whole else x.scientific

/-- Whether a single has the sign of the negative numbers, zero included. -/
def isNegative (x : Float32) : Bool := bitField x.toBits.toNat 31 1 == 1

/-- The text of a single. -/
def ofSingle (x : Float32) (whole : String) : String :=
  if x == 0 then if isNegative x then "-0" else "0"
  else if x.isNaN then "NaN"
  else
    let sign := if x < 0 then "-" else ""
    if x.isInf then sign ++ "inf"
    else sign ++ ((Digits.ofSingle x).2.limit 6).compact whole

/-- Whether a single is a whole number. -/
def isWhole (x : Float32) : Bool := x.isFinite && x.floor == x

end StyleCheck.Decimal
