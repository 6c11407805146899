import StyleCheck.Css.ColorFunction
import StyleCheck.Css.Quantity

/-!
# Values and their readers

What the grammars of properties are made of: keywords, quantities and colors. A reader takes a
value from the front of a region, or says that none of its kind stands there.
-/

namespace StyleCheck.Css

/-- A value that a grammar takes. -/
inductive Value
  | word (name : String)
  | quantity (s : Sum)
  | call (name : String) (argument : Sum)
  | integer (i : Int)
  | color (c : Color)
  deriving BEq

/-- The canonical text of a value. -/
def Value.text : Value → String
  | .word name => name
  | .quantity s => s.text
  | .call name argument => name ++ "(" ++ argument.text ++ ")"
  | .integer i => toString i
  | .color c => c.text

/-- A way to take a thing from the front of a region. -/
abbrev Reader (α : Type) := Region → Option (α × Region)

namespace Reader

/-- The first of two readers that takes something. -/
def orElse {α : Type} (first second : Reader α) : Reader α := fun r ↦ (first r).or (second r)

/-- A reader by what it makes of one component. -/
def ofComponent {α : Type} (take : Component → Option α) : Reader α := fun r ↦
  match r.next? with
  | some (c, rest) => (take c).map (·, rest)
  | none => none

/-- One of several keywords, in any case. -/
def keyword (words : List String) : Reader Value :=
  ofComponent fun
    | .token _ (.ident name) =>
      let name := Text.lower name
      if words.contains name then some (.word name) else none
    | _ => none

/-- A color. -/
def color : Reader Value := ofComponent fun c ↦ (Color.ofComponent? c).map .color

/-- A number that stands for a length counts pixels. -/
def asLength : Component → Option Sum
  | .token _ (.number n) => some [⟨n.value, .length "px"⟩]
  | c => Sum.ofComponent? c

/-- A length or a percentage. -/
def lengthPercentage : Reader Value := ofComponent fun c ↦ (asLength c).map .quantity

/-- A length. -/
def length : Reader Value :=
  ofComponent fun c ↦
    match asLength c with
    | some s => if s.any (·.measure == .share) then none else some (.quantity s)
    | none => none

/-- The number of a sum that is one. -/
def plain? : Sum → Option Float32
  | [⟨x, .plain⟩] => some x
  | _ => none

/-- A number. -/
def number : Reader Value :=
  ofComponent fun c ↦
    ((Sum.ofComponent? c).bind plain?).map fun x ↦ .quantity [⟨x, .plain⟩]

/-- A number, or a percentage in its place. -/
def portion : Reader Value :=
  ofComponent fun c ↦
    match Sum.ofComponent? c with
    | some [⟨x, .plain⟩] => some (.quantity [⟨x, .plain⟩])
    | some [⟨x, .share⟩] => some (.quantity [⟨x, .plain⟩])
    | _ => none

/-- An integer. -/
def integer : Reader Value :=
  ofComponent fun
    | .token _ (.number n) => n.integer.map .integer
    | _ => none

/-- A length or a percentage in a function of the given name. -/
def call (name : String) : Reader Value :=
  ofComponent fun
    | .block _ (.function f) content stop =>
      if Text.sameIgnoringCase f name then
        match ofComponent asLength ⟨content, stop⟩ with
        | some (s, rest) => if rest.next?.isNone then some (.call name s) else none
        | none => none
      else none
    | _ => none

/-- At most `n` values, as many as there are. -/
def upTo {α : Type} (n : Nat) (read : Reader α) : Region → List α × Region :=
  match n with
  | 0 => fun r ↦ ([], r)
  | n + 1 => fun r ↦
    match read r with
    | some (v, rest) => let more := upTo n read rest; (v :: more.1, more.2)
    | none => ([], r)

/-- The text of a value. -/
def text (read : Reader Value) : Reader String := fun r ↦
  (read r).map fun (v, rest) ↦ (v.text, rest)

end Reader

end StyleCheck.Css
