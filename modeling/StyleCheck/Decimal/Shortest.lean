/-!
# Shortest decimals

A binary fraction stands for every real number that rounds to it. Its shortest decimal is the one
with the fewest digits among those, and of two such the nearer; a tie goes up.
-/

namespace StyleCheck.Decimal

/-- The positive number `significand * 2 ^ exponent`. Its neighbours lie one step away, the lower
one half a step where `narrowBelow` holds. -/
structure Binary where
  significand : Nat
  exponent : Int
  narrowBelow : Bool

/-- Digits, the first one not zero, and the place of the point: the number is
`0.d₁d₂… * 10 ^ point`. -/
structure Digits where
  digits : List Char
  point : Int
  deriving DecidableEq, Repr

namespace Binary

/-- Powers of two and ten with an exponent of either sign, as a fraction. -/
def power (base : Nat) (e : Int) : Nat × Nat :=
  if 0 ≤ e then (base.pow e.toNat, 1) else (1, base.pow (-e).toNat)

/-- The least `p` with `num / den < 10 ^ p`, for a positive fraction. -/
def pointOf (num den : Nat) : Int :=
  if den ≤ num then (Nat.toDigits 10 (num / den)).length
  else 1 - ((Nat.toDigits 10 ((den - 1) / num)).length : Int)

/-- A quarter of a step of `x`, as a fraction; the number itself is `4 * significand` of them. -/
def quarter (x : Binary) : Nat × Nat := power 2 (x.exponent - 2)

/-- Whether `d * 10 ^ k` rounds to `x`. The ends of the interval belong to it iff the significand
is even. -/
def roundsTo (x : Binary) (d : Nat) (k : Int) : Bool :=
  let (qNum, qDen) := x.quarter
  let (tNum, tDen) := power 10 k
  let value := d * tNum * qDen
  let low := (4 * x.significand - if x.narrowBelow then 1 else 2) * qNum * tDen
  let high := (4 * x.significand + 2) * qNum * tDen
  if x.significand % 2 = 0 then low ≤ value && value ≤ high else low < value && value < high

/-- The multiple of `10 ^ k` that stands for `x`, if one does. -/
def onGrid (x : Binary) (k : Int) : Option Nat :=
  let (qNum, qDen) := x.quarter
  let (tNum, tDen) := power 10 k
  let num := 4 * x.significand * qNum * tDen
  let den := qDen * tNum
  let d := num / den
  let below := x.roundsTo d k
  let above := x.roundsTo (d + 1) k
  if below && above then some (if num - d * den < (d + 1) * den - num then d else d + 1)
  else if below then some d
  else if above then some (d + 1)
  else none

/-- The decimal on the first grid that holds one, from `n` digits on. -/
def search (x : Binary) (point : Int) (n : Nat) : Nat → Nat × Int
  | 0 => (0, 0)
  | fuel + 1 =>
    match x.onGrid (point - n) with
    | some d => (d, point - n)
    | none => x.search point (n + 1) fuel

/-- Digits without the zeros at their end. -/
def stripZeros (digits : List Char) : List Char := (digits.reverse.dropWhile (· == '0')).reverse

/-- The shortest decimal. Seventeen digits suffice for 53 bits. -/
def shortest (x : Binary) : Digits :=
  let (qNum, qDen) := x.quarter
  let point := pointOf (4 * x.significand * qNum) qDen
  let (d, k) := x.search point 1 17
  let digits := Nat.toDigits 10 d
  ⟨stripZeros digits, digits.length + k⟩

end Binary

namespace Digits

/-- At most `n` digits: the rest is rounded off, half of a unit upward. -/
def limit (x : Digits) (n : Nat) : Digits :=
  if x.digits.length ≤ n then x
  else
    let kept := (x.digits.take n).foldl (fun acc c ↦ 10 * acc + (c.toNat - 48)) 0
    let up := if '5' ≤ (x.digits.drop n).headD '0' then 1 else 0
    let digits := Nat.toDigits 10 (kept + up)
    ⟨Binary.stripZeros digits, x.point + (digits.length - n : Int)⟩

/-- The number without an exponent; a fraction below one has `whole` before its point. -/
def positional (x : Digits) (whole : String) : String :=
  if x.point ≤ 0 then
    whole ++ "." ++ String.ofList (List.replicate (-x.point).toNat '0' ++ x.digits)
  else
    let p := x.point.toNat
    if x.digits.length ≤ p then
      String.ofList (x.digits ++ List.replicate (p - x.digits.length) '0')
    else String.ofList (x.digits.take p) ++ "." ++ String.ofList (x.digits.drop p)

/-- One digit before the point, the others after it. -/
def unitScale (x : Digits) : String :=
  match x.digits with
  | [] => ""
  | [d] => d.toString
  | d :: rest => d.toString ++ "." ++ String.ofList rest

/-- The number with one digit before the point and an exponent. -/
def scientific (x : Digits) : String := x.unitScale ++ "e" ++ toString (x.point - 1)

/-- The number with one digit before the point and an exponent that always has a sign. -/
def signedScientific (x : Digits) : String :=
  x.unitScale ++ (if 0 < x.point then "e+" else "e") ++ toString (x.point - 1)

end Digits

end StyleCheck.Decimal
