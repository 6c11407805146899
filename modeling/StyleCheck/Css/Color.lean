import StyleCheck.Css.ColorNames
import StyleCheck.Css.Lexer

/-!
# Colors

Colors with eight bits for each of red, green, blue and opacity. A canonical color is written as
shortly as possible: by name where the name is shorter, else in hexadecimal digits.
-/

namespace StyleCheck.Css

/-- A color, or the color of the text around. -/
inductive Color
  | current
  | rgba (red green blue alpha : Nat)
  deriving DecidableEq, Repr

namespace Color

/-- A color from three bytes in one number. -/
def ofBytes (n : Nat) : Color := .rgba (n / 65536 % 256) (n / 256 % 256) (n % 256) 255

/-- Two hexadecimal digits. -/
def hexByte (n : Nat) : List Char := [Nat.digitChar (n / 16), Nat.digitChar (n % 16)]

/-- Whether both digits of a byte are the same. -/
def isDouble (n : Nat) : Bool := n / 16 == n % 16

/-- Bytes in hexadecimal digits, one each where all allow it. -/
def hex (bytes : List Nat) : String :=
  "#" ++ String.ofList (if bytes.all isDouble then bytes.map fun n ↦ Nat.digitChar (n % 16)
    else bytes.flatMap hexByte)

/-- The canonical text of a color. -/
def text : Color → String
  | .current => "currentColor"
  | .rgba r g b a =>
    if a = 255 then
      match shortColorNames.find? fun name ↦
          namedColors.lookup name == some (65536 * r + 256 * g + b) with
      | some name => name
      | none => hex [r, g, b]
    else hex [r, g, b, a]

/-- A color by its keyword, in any case. -/
def ofKeyword? (name : String) : Option Color :=
  match Text.lower name with
  | "currentcolor" => some .current
  | "transparent" => some (.rgba 0 0 0 0)
  | name => (namedColors.lookup name).map ofBytes

/-- A color by three, four, six or eight hexadecimal digits. -/
def ofHex? (digits : String) : Option Color :=
  match digits.toList.mapM Text.hexValue with
  | some [r, g, b] => some (.rgba (17 * r) (17 * g) (17 * b) 255)
  | some [r, g, b, a] => some (.rgba (17 * r) (17 * g) (17 * b) (17 * a))
  | some [r, r', g, g', b, b'] => some (.rgba (16 * r + r') (16 * g + g') (16 * b + b') 255)
  | some [r, r', g, g', b, b', a, a'] =>
    some (.rgba (16 * r + r') (16 * g + g') (16 * b + b') (16 * a + a'))
  | _ => none

/-- A byte nearest to a number, within bounds. -/
def byteOf (x : Float32) : Nat :=
  if x.isNaN then 0 else if x ≤ 0 then 0 else if x ≥ 255 then 255 else x.round.toUInt8.toNat

end Color

end StyleCheck.Css
