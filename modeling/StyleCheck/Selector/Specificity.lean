import StyleCheck.Selector.Syntax
import StyleCheck.Text.Alphabetic
import StyleCheck.Text.Letters

/-!
# Specificity

The weight of a selector in the cascade, computed in two ways: from a parsed selector, and from
any selector text, which may hold pseudo-classes, pseudo-elements and `*` that the parser refuses.
-/

namespace StyleCheck.Selector

/-- How many ids, classes and types a selector names. Attribute conditions and pseudo-classes
count as classes, pseudo-elements as types. Where the counts are words of 32 bits, this is exact for
texts of fewer than `2 ^ 32 - 1` characters, which bound them. -/
structure Specificity where
  ids : Nat
  classes : Nat
  types : Nat
  deriving DecidableEq, Repr

namespace Specificity

/-- The weight of nothing. -/
def zero : Specificity := ⟨0, 0, 0⟩

/-- The weight of two parts together. -/
def add (a b : Specificity) : Specificity :=
  ⟨a.ids + b.ids, a.classes + b.classes, a.types + b.types⟩

/-- The weight of several parts together. -/
def sum (parts : List Specificity) : Specificity := parts.foldl add zero

/-- The order of weights: by ids, then by classes, then by types. -/
def le (a b : Specificity) : Prop :=
  a.ids < b.ids ∨ a.ids = b.ids ∧
    (a.classes < b.classes ∨ a.classes = b.classes ∧ a.types ≤ b.types)

instance : LE Specificity := ⟨le⟩

instance (a b : Specificity) : Decidable (a ≤ b) := by
  change Decidable (le a b); unfold le; infer_instance

/-- The weight as text. -/
def render (s : Specificity) : String :=
  "(" ++ toString s.ids ++ ", " ++ toString s.classes ++ ", " ++ toString s.types ++ ")"

end Specificity

/-- The weight of one condition. -/
def Simple.specificity : Simple → Specificity
  | .idName _ => ⟨1, 0, 0⟩
  | .className _ => ⟨0, 1, 0⟩
  | .attr _ => ⟨0, 1, 0⟩
  | .typeName _ => ⟨0, 0, 1⟩

/-- The weight of the conditions on one element. -/
def Compound.specificity (c : Compound) : Specificity :=
  .sum (c.conditions.map Simple.specificity)

/-- The weight of a selector. -/
def Complex.specificity (s : Complex) : Specificity :=
  .sum (s.chain.map fun link ↦ link.compound.specificity)

namespace Weigh

/-- A part that has begun, in reading order. -/
def finished (part : List Char) : List (List Char) :=
  if part.isEmpty then [] else [part.reverse]

/-- The parts of a text between whitespace that no bracket and no quote encloses. `part` holds the
characters of the part under way, the last one first. -/
def partsFrom (quote : Option Char) (depth : Nat) (part : List Char) :
    List Char → List (List Char)
  | [] => finished part
  | c :: rest =>
    match quote with
    | some q => partsFrom (if c = q then none else some q) depth (c :: part) rest
    | none =>
      if c = '"' ∨ c = '\'' then partsFrom (some c) depth (c :: part) rest
      else if c = '[' ∨ c = '(' then partsFrom none (depth + 1) (c :: part) rest
      else if c = ']' ∨ c = ')' then partsFrom none (depth - 1) (c :: part) rest
      else if Text.isSpace c ∧ depth = 0 then finished part ++ partsFrom none 0 [] rest
      else partsFrom none depth (c :: part) rest

/-- The parts of a selector text. -/
def parts (text : List Char) : List (List Char) := partsFrom none 0 [] text

/-- Whether a character continues a name. -/
def isNameChar (c : Char) : Bool := c.isAlphanum || c == '-' || c == '_' || 128 ≤ c.toNat

/-- The name at the front and what follows it; a backslash takes the next character along. -/
def spanName : List Char → List Char × List Char
  | [] => ([], [])
  | ['\\'] => (['\\'], [])
  | '\\' :: c :: rest => let r := spanName rest; ('\\' :: c :: r.1, r.2)
  | c :: rest => if isNameChar c then let r := spanName rest; (c :: r.1, r.2) else ([], c :: rest)

/-- What follows the name at the front. -/
def dropName (text : List Char) : List Char := (spanName text).2

/-- What follows the group in which `depth` brackets are open; quoted text is passed over. -/
def dropGroup (opening closing : Char) (depth : Nat) (quote : Option Char) : List Char → List Char
  | [] => []
  | c :: rest =>
    match quote with
    | some q => dropGroup opening closing depth (if c = q then none else some q) rest
    | none =>
      if c = '"' ∨ c = '\'' then dropGroup opening closing depth (some c) rest
      else if c = opening then dropGroup opening closing (depth + 1) none rest
      else if c = closing then
        if depth ≤ 1 then rest else dropGroup opening closing (depth - 1) none rest
      else dropGroup opening closing depth none rest

/-- What follows a group of arguments, if one stands at the front. -/
def dropArguments : List Char → List Char
  | '(' :: rest => dropGroup '(' ')' 1 none rest
  | text => text

theorem length_spanName_le (text : List Char) : (spanName text).2.length ≤ text.length := by
  fun_induction spanName text <;> simp_all +zetaDelta <;> omega

theorem length_dropName_le (text : List Char) : (dropName text).length ≤ text.length :=
  length_spanName_le text

theorem length_dropGroup_le (opening closing : Char) (depth : Nat) (quote : Option Char)
    (text : List Char) : (dropGroup opening closing depth quote text).length ≤ text.length := by
  fun_induction dropGroup opening closing depth quote text <;> simp_all <;> omega

theorem length_dropArguments_le (text : List Char) :
    (dropArguments text).length ≤ text.length := by
  unfold dropArguments
  split
  · exact Nat.le_succ_of_le (length_dropGroup_le ..)
  · exact Nat.le_refl _

/-- The pseudo-elements that may be written with a single colon. -/
def oldPseudoElements : List String := ["before", "after", "first-line", "first-letter"]

/-- The weight of a name after a single colon. -/
def singleColon (name : List Char) : Specificity :=
  let name := Text.lower (String.ofList name)
  if oldPseudoElements.contains name then ⟨0, 0, 1⟩
  else if name = "where" then ⟨0, 0, 0⟩
  else ⟨0, 1, 0⟩

/-- The weight of one part. -/
def part : List Char → Specificity
  | [] => .zero
  | '#' :: rest => .add ⟨1, 0, 0⟩ (part (dropName rest))
  | '.' :: rest => .add ⟨0, 1, 0⟩ (part (dropName rest))
  | '[' :: rest => .add ⟨0, 1, 0⟩ (part (dropGroup '[' ']' 1 none rest))
  | ':' :: ':' :: rest => .add ⟨0, 0, 1⟩ (part (dropArguments (dropName rest)))
  | ':' :: rest => .add (singleColon (spanName rest).1) (part (dropArguments (dropName rest)))
  | c :: rest =>
    if Text.isAlphabetic c then .add ⟨0, 0, 1⟩ (part (dropName rest)) else part rest
termination_by text => text.length
decreasing_by
  all_goals simp only [List.length_cons]
  · exact Nat.lt_succ_of_le (length_dropName_le rest)
  · exact Nat.lt_succ_of_le (length_dropName_le rest)
  · exact Nat.lt_succ_of_le (length_dropGroup_le _ _ _ _ rest)
  · have := length_dropArguments_le (dropName rest)
    have := length_dropName_le rest
    omega
  · have := length_dropArguments_le (dropName rest)
    have := length_dropName_le rest
    omega
  · exact Nat.lt_succ_of_le (length_dropName_le rest)
  · omega

end Weigh

/-- The weight of a selector text: the sum over its parts. -/
def weigh (text : String) : Specificity :=
  .sum ((Weigh.parts text.toList).map Weigh.part)

/-- Selector texts in rising weight; texts of equal weight keep their order. -/
def rank (texts : List String) : List String :=
  texts.mergeSort fun a b ↦ decide (weigh a ≤ weigh b)

end StyleCheck.Selector
