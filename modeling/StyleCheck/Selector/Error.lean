import StyleCheck.Selector.Token

/-!
# Selector errors

An error is a problem at a place. A parse that backtracks meets several; the one that is reported
is the deepest, and among equally deep ones the first.
-/

namespace StyleCheck.Selector

/-- A problem and the place where it was found. -/
structure Located (ε : Type) where
  problem : ε
  position : Position
  deriving DecidableEq, Repr

namespace Located

/-- How far into the text the problem lies. -/
def offset {ε : Type} (e : Located ε) : Nat := e.position.offset

/-- Keep the deeper of two errors, and the earlier one of a tie. -/
def keepDeeper {ε : Type} : Option (Located ε) → Located ε → Option (Located ε)
  | some current, e => if e.offset ≤ current.offset then some current else some e
  | none, e => some e

/-- The deepest error of a list, the first among equals. -/
def deepest {ε : Type} (errors : List (Located ε)) : Option (Located ε) :=
  errors.foldl keepDeeper none

/-- The error as one line, given the wording of its problem. -/
def render {ε : Type} (describe : ε → String) (e : Located ε) : String :=
  "Parsing Error [" ++ e.position.render ++ "]: " ++ describe e.problem

end Located

/-- The outcome of trying one or more productions: a result, or the errors met. -/
structure Attempt (ε α : Type) where
  result : Option α
  errors : List (Located ε)

namespace Attempt

/-- The result, or else the deepest error, or else `fallback`. -/
def toExcept {ε α : Type} (a : Attempt ε α) (fallback : Located ε) : Except (Located ε) α :=
  match a.result with
  | some result => .ok result
  | none => .error ((Located.deepest a.errors).getD fallback)

end Attempt

/-- Why a text is not a selector. -/
inductive Problem
  | unexpected (allowed : List Kind) (found : Option Kind)
  | trailing (found : Kind)
  | unterminatedString
  | unknownOperator
  | noAttributeValue
  | noSelector
  | emptyCompound
  deriving DecidableEq, Repr

/-- The wording of a problem. -/
def Problem.describe : Problem → String
  | .unexpected allowed found =>
    "Expected token of type " ++ ", ".intercalate (allowed.map Kind.name) ++ ", but got " ++
      (match found with
        | some kind => kind.name
        | none => "end of input")
  | .trailing found => "Expected end of input, but got token of type " ++ found.name
  | .unterminatedString => "Unterminated string literal"
  | .unknownOperator => "Invalid attribute operator"
  | .noAttributeValue => "Expected string or name as attribute selector value"
  | .noSelector => "Expected a selector"
  | .emptyCompound => "Expected at least one selector"

/-- An error of the selector parser. -/
abbrev SyntaxError := Located Problem

/-- The error as one line. -/
def SyntaxError.message (e : SyntaxError) : String := e.render Problem.describe

end StyleCheck.Selector
