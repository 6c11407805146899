import StyleCheck.Event
import StyleCheck.Selector.Specificity
import StyleCheck.Style.Expectation
import StyleCheck.Style.Registry

/-!
# Resolver

Whether an element has the styles expected of it. The rules whose selectors match the element are
ranked by importance, specificity and source order, and each expected value is held against what
they declare. The document side and the canonical spelling of values are parameters.
-/

namespace StyleCheck.Style

open Selector (Specificity)

/-- What is asked of a document about its nodes: whether one is an element, whether it matches a
selector text, and how it is called in a report. -/
structure Host (ν : Type) where
  isElement : ν → Bool
  matchesText : ν → String → Bool
  describe : ν → String

/-- When an expected property counts as declared: by any matching rule, or by the rule that wins
the cascade. -/
inductive Strategy
  | anyDeclaration
  | cascade
  deriving DecidableEq, Repr

/-- How expected values are judged. Without `canonicalize` the value must be as written. -/
structure Options where
  strategy : Strategy
  canonicalize : Bool
  deriving DecidableEq, Repr

/-- A selector of a registered rule that matches the element. -/
structure Candidate where
  stylesheet : String
  selector : String
  specificity : Specificity
  sheetIndex : Nat
  sourceOrder : Nat
  rule : Rule
  deriving DecidableEq, Repr

/-- An expected property that the element does not have, and the value it has instead. -/
structure Unmatched where
  property : String
  expected : String
  actual : Option String
  deriving DecidableEq, Repr

/-- The properties that the element does not have, and how many selectors were considered. -/
structure Outcome where
  unmatched : List Unmatched
  candidates : Nat
  deriving DecidableEq, Repr

/-- Whether the element has every expected style. -/
def Outcome.matchedAll (o : Outcome) : Bool := o.unmatched.isEmpty

/-- Why there is nothing to resolve. -/
inductive ResolveError
  | notAnElement
  | noProperties
  deriving DecidableEq, Repr

/-- The wording of an error. -/
def ResolveError.message : ResolveError → String
  | .notAnElement => "the received value is not an element"
  | .noProperties => "no style properties were given to match"

/-- The selectors of a rule that match, in order. -/
def RegisteredRule.candidates (r : RegisteredRule) (isMatch : String → Bool) : List Candidate :=
  (r.rule.selectors.filter isMatch).map fun selector ↦
    ⟨r.stylesheet, selector, Selector.weigh selector, r.sheetIndex, r.sourceOrder, r.rule⟩

/-- Every registered selector that matches, in source order. -/
def Registry.candidates (r : Registry) (isMatch : String → Bool) : List Candidate :=
  r.rules.flatMap (·.candidates isMatch)

/-! ### The cascade -/

/-- The rank of a declaration: importance, then specificity, then the place of its sheet, then the
place of its rule. -/
structure Rank where
  important : Bool
  specificity : Specificity
  sheetIndex : Nat
  ruleIndex : Nat
  deriving DecidableEq, Repr

namespace Rank

/-- The order of ranks. -/
def le (a b : Rank) : Prop :=
  a.important.toNat < b.important.toNat ∨ a.important = b.important ∧
    (a.specificity ≤ b.specificity ∧ a.specificity ≠ b.specificity ∨
      a.specificity = b.specificity ∧
        (a.sheetIndex < b.sheetIndex ∨ a.sheetIndex = b.sheetIndex ∧ a.ruleIndex ≤ b.ruleIndex))

instance : LE Rank := ⟨le⟩

instance (a b : Rank) : Decidable (a ≤ b) := by
  change Decidable (le a b); unfold le; infer_instance

end Rank

/-- A declaration of a candidate's rule. -/
structure Contender where
  declaration : Declaration
  rank : Rank
  deriving DecidableEq, Repr

/-- The declaration of a property in a candidate's rule. -/
def Candidate.contender? (c : Candidate) (property : String) : Option Contender :=
  (c.rule.declarations.get? property).map fun d ↦
    ⟨d, d.important, c.specificity, c.sheetIndex, d.ruleIndex⟩

/-- The higher of two contenders, the later one of a tie. -/
def Contender.higher (best : Option Contender) (c : Contender) : Option Contender :=
  match best with
  | none => some c
  | some b => if b.rank ≤ c.rank then some c else some b

/-- The declaration of a property that wins the cascade. -/
def cascadeWinner (candidates : List Candidate) (property : String) : Option Declaration :=
  ((candidates.filterMap (·.contender? property)).foldl Contender.higher none).map
    Contender.declaration

/-! ### Resolution -/

section

variable {ν : Type} (canonicalValue : String → String → Option String) (options : Options)

/-- Whether a declaration has an expected value: the value as written, or, if values are to be
canonicalized, the same canonical spelling. -/
def valuesAgree (property expected : String) (actual : Declaration) : Bool :=
  let expected := Text.trim expected
  expected == actual.value ||
    options.canonicalize &&
      (canonicalValue property expected).getD expected == actual.canonical

/-- Whether the candidates give a property its expected value. -/
def satisfied (candidates : List Candidate) (property expected : String) : Bool :=
  match options.strategy with
  | .anyDeclaration => candidates.any fun c ↦
      match c.rule.declarations.get? property with
      | some d => valuesAgree canonicalValue options property expected d
      | none => false
  | .cascade =>
    match cascadeWinner candidates property with
    | some d => valuesAgree canonicalValue options property expected d
    | none => false

/-- The expected properties that the candidates do not give, in the order of the expectation. -/
def unmatched (candidates : List Candidate) (expected : Expectation) : List Unmatched :=
  expected.entries.filterMap fun (property, value) ↦
    if satisfied canonicalValue options candidates property value.render then none
    else some
      ⟨property, value.render, (cascadeWinner candidates property).map Declaration.value⟩

/-- Hold the expected styles against the registered rules that match an element. -/
def resolve (host : Host ν) (element : ν) (registry : Registry) (expected : Expectation) :
    Except ResolveError Outcome :=
  if !host.isElement element then .error .notAnElement
  else if expected.entries.isEmpty then .error .noProperties
  else
    let candidates := registry.candidates (host.matchesText element)
    .ok ⟨unmatched canonicalValue options candidates expected, candidates.length⟩

end

/-! ### Events -/

/-- The event of a matching selector. -/
def Candidate.event (c : Candidate) : Event where
  level := .trace
  reporter := .cascade
  message := "Selector matches"
  details := [("stylesheet", .text c.stylesheet), ("selector", .text c.selector),
    ("specificity", .text c.specificity.render)]

/-- The event of an unmatched property. -/
def Unmatched.event (u : Unmatched) : Event where
  level := .debug
  reporter := .cascade
  message := "Unmatched property"
  details := [("property", .text u.property), ("expected", .text u.expected)]

/-- The events of finding the candidates: `asked` gives those of matching one selector text. -/
def Registry.candidateEvents (r : Registry) (isMatch : String → Bool)
    (asked : String → List Event) : List Event :=
  r.rules.flatMap fun rule ↦ rule.rule.selectors.flatMap fun selector ↦
    asked selector ++ ({ rule with rule.selectors := [selector] }.candidates isMatch).map
      Candidate.event

/-- The events of resolving. -/
def resolveEvents {ν : Type} (canonicalValue : String → String → Option String)
    (options : Options) (host : Host ν) (asked : String → List Event) (element : ν)
    (registry : Registry) (expected : Expectation) : List Event :=
  match resolve canonicalValue options host element registry expected with
  | .error _ => []
  | .ok outcome =>
    registry.candidateEvents (host.matchesText element) asked ++
      outcome.unmatched.map Unmatched.event

end StyleCheck.Style
