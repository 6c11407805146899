import StyleCheck.Css.Color
import StyleCheck.Css.Component

/-!
# Colors by their components

A color given by its red, green and blue parts: all numbers or all percentages between commas, or
any of the two between blanks with the opacity behind a slash. Parts out of range are brought into
it.
-/

namespace StyleCheck.Css.Color

/-- One part of a color. -/
inductive Part
  | number (x : Float32)
  | share (x : Float32)

/-- What stands between the parts. -/
inductive Mark
  | part (p : Part)
  | comma
  | slash

/-- A number brought between zero and one. -/
def unitClamp (x : Float32) : Float32 := if x > 1 then 1 else if x > 0 then x else 0

/-- The byte of a part of red, green or blue. -/
def Part.byte : Part → Nat
  | .number x => byteOf x
  | .share x => byteOf (255 * unitClamp x)

/-- The byte of an opacity. -/
def Part.alphaByte : Part → Nat
  | .number x => byteOf (255 * unitClamp x)
  | .share x => byteOf (255 * unitClamp x)

/-- Whether two parts are given in the same way. -/
def Part.alike : Part → Part → Bool
  | .number _, .number _ => true
  | .share _, .share _ => true
  | _, _ => false

/-- The mark that a component is, if it is one. -/
def markOf? : Component → Option Mark
  | .token _ (.number n) => some (.part (.number n.value))
  | .token _ (.percentage n) => some (.part (.share n.value))
  | .token _ .comma => some .comma
  | .token _ (.delim '/') => some .slash
  | _ => none

/-- The color of three parts and an opacity. -/
def ofParts (r g b : Part) (alpha : Nat) : Color := .rgba r.byte g.byte b.byte alpha

/-- The color that the content of a function gives. -/
def ofMarks? : List Mark → Option Color
  | [.part r, .comma, .part g, .comma, .part b] =>
    if r.alike g && r.alike b then some (ofParts r g b 255) else none
  | [.part r, .comma, .part g, .comma, .part b, .comma, .part a] =>
    if r.alike g && r.alike b then some (ofParts r g b a.alphaByte) else none
  | [.part r, .part g, .part b] => some (ofParts r g b 255)
  | [.part r, .part g, .part b, .slash, .part a] => some (ofParts r g b a.alphaByte)
  | _ => none

/-- The color that a function gives. -/
def ofFunction? (name : String) (content : List Component) : Option Color :=
  if Text.sameIgnoringCase name "rgb" || Text.sameIgnoringCase name "rgba" then
    ((content.filter fun c ↦ !c.isSpace && !c.isComment).mapM markOf?).bind ofMarks?
  else none

/-- The color that a component is: a keyword, hexadecimal digits or a function. -/
def ofComponent? : Component → Option Color
  | .token _ (.ident name) => ofKeyword? name
  | .token _ (.hash digits) => ofHex? digits
  | .token _ (.idHash digits) => ofHex? digits
  | .block _ (.function name) content _ => ofFunction? name content
  | _ => none

end StyleCheck.Css.Color
