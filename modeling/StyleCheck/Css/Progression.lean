import StyleCheck.Css.Error
import StyleCheck.Text.Letters

/-!
# Progressions

The positions among siblings that a pseudo-class counts: a multiple of a step and an offset from
it, as in `2n+1`.
-/

namespace StyleCheck.Css

/-- The positions `step * n + offset`. -/
structure Progression where
  step : Int
  offset : Int
  deriving DecidableEq, Repr

namespace Progression

/-- A number with its sign in front. -/
def signedText (n : Int) : String := if n < 0 then toString n else "+" ++ toString n

/-- The shortest text of a progression. -/
def text (p : Progression) : String :=
  match p.step, p.offset with
  | 0, b => toString b
  | 2, 1 => "odd"
  | 1, 0 => "n"
  | -1, 0 => "-n"
  | a, 0 => toString a ++ "n"
  | 1, b => "n" ++ signedText b
  | -1, b => "-n" ++ signedText b
  | a, b => toString a ++ "n" ++ signedText b

/-- The number that a name gives behind `n-`, all of it digits. -/
def tailOffset? (name : List Char) : Option Int :=
  match name with
  | 'n' :: '-' :: d :: rest =>
    if (d :: rest).all Char.isDigit then
      some (-(((d :: rest).foldl (fun n c ↦ 10 * n + (c.toNat - '0'.toNat)) 0 : Nat) : Int))
    else none
  | _ => none

/-- An unsigned number at the front of a region, as the offset of a step. -/
def unsignedOffset (step sign : Int) (r : Region) : Except CssError (Progression × Region) :=
  match r.next? with
  | some (.token _ (.number ⟨_, false, some n⟩), rest) => .ok (⟨step, sign * n⟩, rest)
  | _ => r.unexpected

/-- What follows `n`: an offset with its sign, or nothing. -/
def offsetOf (step : Int) (r : Region) : Except CssError (Progression × Region) :=
  match r.next? with
  | some (.token _ (.delim '+'), rest) => unsignedOffset step 1 rest
  | some (.token _ (.delim '-'), rest) => unsignedOffset step (-1) rest
  | some (.token _ (.number ⟨_, true, some n⟩), rest) => .ok (⟨step, n⟩, rest)
  | _ => .ok (⟨step, 0⟩, r)

/-- What a name that begins with `n` and stands behind a step gives, if it can. -/
def named? (step : Int) (name : String) (rest : Region) :
    Option (Except CssError (Progression × Region)) :=
  match Text.lower name with
  | "n" => some (offsetOf step rest)
  | "n-" => some (unsignedOffset step (-1) rest)
  | lower => (tailOffset? lower.toList).map fun offset ↦ .ok (⟨step, offset⟩, rest)

/-- What a name gives, its sign included. -/
def ofName? (name : String) (rest : Region) : Option (Except CssError (Progression × Region)) :=
  match Text.lower name with
  | "even" => some (.ok (⟨2, 0⟩, rest))
  | "odd" => some (.ok (⟨2, 1⟩, rest))
  | lower =>
    match lower.toList with
    | '-' :: tail => named? (-1) (String.ofList tail) rest
    | _ => named? 1 lower rest

/-- The name at the front of a region with no white space before it, as a progression. -/
def afterPlus (r : Region) : Except CssError (Progression × Region) :=
  match r.nextWithSpace? with
  | some (.token place (.ident name), rest) =>
    if name.startsWith "-" then .error ⟨place, .unexpected (Token.ident name).picture⟩
    else (ofName? name rest).getD (.error ⟨place, .unexpected (Token.ident name).picture⟩)
  | some (c, _) => r.fail (.unexpected c.picture)
  | none => .error ⟨r.stop, .endOfInput⟩

/-- The progression at the front of a region. -/
def read (r : Region) : Except CssError (Progression × Region) :=
  match r.next? with
  | some (.token _ (.number ⟨_, _, some n⟩), rest) => .ok (⟨0, n⟩, rest)
  | some (.token place (.dimension ⟨_, _, some n⟩ unit), rest) =>
    (named? n unit rest).getD (.error ⟨place, .unexpected (Token.ident unit).picture⟩)
  | some (.token place (.ident name), rest) =>
    (ofName? name rest).getD (.error ⟨place, .unexpected (Token.ident name).picture⟩)
  | some (.token _ (.delim '+'), rest) => afterPlus rest
  | _ => r.unexpected

end Progression

end StyleCheck.Css
