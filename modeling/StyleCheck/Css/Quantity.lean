import StyleCheck.Css.Component
import StyleCheck.Css.Spelling

/-!
# Quantities

Numbers, percentages and lengths, and the sums of them that a calculation gives. Equal units are
added up; what cannot be added up stays a sum.
-/

namespace StyleCheck.Css

/-! ### Text of numbers -/

/-- The text past a word at its front, if it begins with it. -/
def dropFront (word : List Char) (text : String) : String :=
  if word.isPrefixOf text.toList then String.ofList (text.toList.drop word.length) else text

/-- A number without the zero before the point of a fraction. -/
def numberText (x : Float32) : String := Decimal.ofSingle x ""

/-- A number before its unit. The sign of a negative fraction goes with the zero before the point
and is put back: a fraction that takes an exponent has no such zero and shows its sign twice. -/
def fractionText (x : Float32) (isFraction : Bool) : String :=
  let text := Decimal.ofSingle x "0"
  if !isFraction || x == 0 then text
  else if x < 0 then "-" ++ dropFront ['-', '0'] text
  else dropFront ['0'] text

/-- A unit as it stands after its number: an `e` that would read as an exponent is escaped. -/
def unitText (unit : String) : String :=
  match unit.toList with
  | [e] => if e = 'e' ∨ e = 'E' then "\\65 " else Spelling.ident unit
  | e :: '-' :: rest =>
    if e = 'e' ∨ e = 'E' then "\\65 " ++ String.ofList (Spelling.name ('-' :: rest))
    else Spelling.ident unit
  | _ => Spelling.ident unit

/-- A number with its unit. -/
def dimensionText (x : Float32) (unit : String) : String :=
  fractionText x (x.abs < 1) ++ unitText unit

/-- A percentage by its share of the whole. -/
def percentageText (share : Float32) : String :=
  fractionText (share * 100) (share.abs < 0.01) ++ "%"

/-! ### Units -/

/-- The units of length. -/
def lengthUnits : List String :=
  ["px", "in", "cm", "mm", "q", "pt", "pc", "em", "rem", "ex", "rex", "ch", "rch", "cap", "rcap",
    "ic", "ric", "lh", "rlh", "vw", "lvw", "svw", "dvw", "cqw", "vh", "lvh", "svh", "dvh", "cqh",
    "vi", "svi", "lvi", "dvi", "cqi", "vb", "svb", "lvb", "dvb", "cqb", "vmin", "svmin", "lvmin",
    "dvmin", "cqmin", "vmax", "svmax", "lvmax", "dvmax", "cqmax"]

/-- A length in pixels, if its unit has a fixed size. -/
def pixels? (x : Float32) (unit : String) : Option Float32 :=
  match unit with
  | "px" => some x
  | "in" => some (x * 96)
  | "cm" => some (x * (96 / 2.54))
  | "mm" => some (x * (96 / 2.54 / 10))
  | "q" => some (x * (96 / 2.54 / 40))
  | "pt" => some (x * (96 / 72))
  | "pc" => some (x * (96 / 6))
  | _ => none

/-- A dimension in the notation of its kind: a length, an angle, a time or a resolution by its
unit in any case. Angles in radians are given in degrees, times in the shorter of two units. -/
def measureText? (x : Float32) (unit : String) : Option String :=
  match Text.lower unit with
  | "deg" => some (dimensionText x "deg")
  | "grad" => some (dimensionText x "grad")
  | "turn" => some (dimensionText x "turn")
  | "rad" => some (dimensionText (x * 180 / 3.1415927) "deg")
  | "s" => some (if 0 < x && x < 0.1 then numberText (x * 1000) ++ "ms" else numberText x ++ "s")
  | "ms" =>
    some (if x == 0 || x ≥ 100 then numberText (x / 1000) ++ "s" else numberText x ++ "ms")
  | "dpi" => some (dimensionText x "dpi")
  | "dpcm" => some (dimensionText x "dpcm")
  | "dppx" => some (dimensionText x "x")
  | "x" => some (dimensionText x "x")
  | lower => if lengthUnits.contains lower then some (dimensionText x lower) else none

/-! ### Terms and sums -/

/-- What a number counts. -/
inductive Measure
  | plain
  | share
  | length (unit : String)
  deriving DecidableEq, Repr

/-- A number and what it counts; a share counts wholes. -/
structure Term where
  value : Float32
  measure : Measure
  deriving BEq, Repr

namespace Term

/-- The term that a token is. -/
def ofToken? : Token → Option Term
  | .number n => some ⟨n.value, .plain⟩
  | .percentage n => some ⟨n.value, .share⟩
  | .dimension n unit =>
    let unit := Text.lower unit
    if lengthUnits.contains unit then some ⟨n.value, .length unit⟩ else none
  | _ => none

/-- The text of a term. Outside a calculation a length of zero needs no unit. -/
def text (inCalculation : Bool) (t : Term) : String :=
  match t.measure with
  | .plain => numberText t.value
  | .share => percentageText t.value
  | .length unit => if !inCalculation && t.value == 0 then "0" else dimensionText t.value unit

/-- A multiple of a term. -/
def scale (x : Float32) (t : Term) : Term := { t with value := t.value * x }

/-- Two terms in one, if their units allow it. -/
def merge? (a b : Term) : Option Term :=
  match a.measure, b.measure with
  | .plain, .plain => some ⟨a.value + b.value, .plain⟩
  | .share, .share => some ⟨a.value + b.value, .share⟩
  | .length u, .length v =>
    if u = v then some ⟨a.value + b.value, .length u⟩
    else
      match pixels? a.value u, pixels? b.value v with
      | some x, some y => some ⟨x + y, .length "px"⟩
      | _, _ => none
  | _, _ => none

end Term

/-- The terms of a sum; a single term is a plain quantity. -/
abbrev Sum := List Term

namespace Sum

/-- Whether every term is zero. -/
def isZero (s : Sum) : Bool := s.all fun t ↦ t.value == 0

/-- Two sums side by side, without a part that is zero. Of two terms a negative one goes last. -/
def join (a b : Sum) : Sum :=
  if b.isEmpty then a
  else if isZero a then b
  else if isZero b then a
  else
    match a, b with
    | [x], [y] => if x.value < 0 && 0 < y.value then [y, x] else [x, y]
    | a, b => a ++ b

/-- The sum with a term added to the first one that takes it in. -/
def merged? (t : Term) : Sum → Option Sum
  | [] => none
  | u :: rest =>
    match u.merge? t with
    | some v => some (join [v] rest)
    | none => (merged? t rest).map (join [u])

/-- The sum with one more term. -/
def addTerm (s : Sum) (t : Term) : Sum := (merged? t s).getD (join s [t])

/-- The sum of two sums. -/
def add (a b : Sum) : Sum := b.foldl addTerm a

/-- A multiple of a sum. -/
def scale (x : Float32) (s : Sum) : Sum := s.map (Term.scale x)

/-- The product of two sums, one of which is a number. -/
def times? : Sum → Sum → Option Sum
  | s, [⟨x, .plain⟩] => some (scale x s)
  | [⟨x, .plain⟩], s => some (scale x s)
  | _, _ => none

/-- The quotient of a sum and a number other than zero. -/
def over? : Sum → Sum → Option Sum
  | s, [⟨x, .plain⟩] =>
    if x == 0 then none else some (s.map fun t ↦ { t with value := t.value / x })
  | _, _ => none

/-- A further term of a sum with its sign before it. -/
def signedText (t : Term) : String :=
  if t.value < 0 then " - " ++ (t.scale (-1)).text true else " + " ++ t.text true

/-- The text of a sum. -/
def text : Sum → String
  | [] => ""
  | [t] => t.text false
  | t :: rest => "calc(" ++ t.text true ++ String.join (rest.map signedText) ++ ")"

end Sum

/-! ### Calculations -/

namespace Calculation

/-- A piece of a calculation: something with a value, if it has one, a sign, or white space. -/
inductive Piece
  | operand (value : Option Sum)
  | sign (c : Char)
  | space

/-- The value of factors and divisors that follow a value. -/
def scaled (value : Option Sum) : List Piece → Option Sum
  | [] => value
  | .sign '*' :: .operand factor :: rest => scaled (do (← value).times? (← factor)) rest
  | .sign '/' :: .operand divisor :: rest => scaled (do (← value).over? (← divisor)) rest
  | _ => none

/-- The value of a product. -/
def product : List Piece → Option Sum
  | .operand value :: rest => scaled value rest
  | _ => none

/-- The products between the signs of addition, with whether each is taken away. White space must
stand before such a sign. -/
def addends (negative : Bool) (read : List Piece) : List Piece → List (Bool × List Piece)
  | [] => [(negative, read.reverse)]
  | .space :: .sign '+' :: rest => (negative, read.reverse) :: addends false [] rest
  | .space :: .sign '-' :: rest => (negative, read.reverse) :: addends true [] rest
  | .space :: rest => addends negative read rest
  | piece :: rest => addends negative (piece :: read) rest

/-- The value of a sum of products. -/
def total (pieces : List Piece) : Option Sum :=
  (addends false [] pieces).foldlM (fun acc (negative, factors) ↦ do
    let value ← product factors
    let value := if negative then Sum.scale (-1) value else value
    return if acc.isEmpty then value else Sum.add acc value) []

mutual

/-- The value of a component within a calculation. -/
def operand : Component → Option Sum
  | .token _ t => (Term.ofToken? t).map ([·])
  | .block _ .paren content _ => total (pieces content)
  | .block _ (.function name) content _ =>
    if Text.sameIgnoringCase name "calc" then total (pieces content) else none
  | .block _ _ _ _ => none

/-- The pieces of a calculation. -/
def pieces : List Component → List Piece
  | [] => []
  | c :: rest =>
    match c with
    | .token _ (.comment _) => pieces rest
    | .token _ (.space _) => .space :: pieces rest
    | .token _ (.delim d) => .sign d :: pieces rest
    | c => .operand (operand c) :: pieces rest

end

end Calculation

/-- The value of a component that is a quantity or a calculation. -/
def Sum.ofComponent? : Component → Option Sum
  | .block _ .paren _ _ => none
  | c => Calculation.operand c

end StyleCheck.Css
