import StyleCheck.Event
import StyleCheck.Selector.Cursor
import StyleCheck.Selector.Syntax

/-!
# Selector parser

Productions over a token cursor. A production that fails within an attempt is rewound, and the
attempt keeps a trail of errors, each deeper than the ones before it; the last of them is reported
when it lies deeper than the error that ended the parse.
-/

namespace StyleCheck.Selector

/-- A parse under way: the cursor, and the trail of ever deeper errors, the deepest first. -/
structure Parse where
  cursor : Cursor
  trail : List SyntaxError

namespace Parse

/-- A parse about to read a text. -/
def ofText (text : String) : Parse := ⟨.ofText text, []⟩

/-- The same parse at another cursor. -/
def moveTo (p : Parse) (cursor : Cursor) : Parse := { p with cursor }

/-- Add an error to the trail if it is deeper than all before. -/
def record (e : SyntaxError) (p : Parse) : Parse :=
  match p.trail with
  | deepest :: _ => if e.offset ≤ deepest.offset then p else { p with trail := e :: p.trail }
  | [] => { p with trail := [e] }

end Parse

/-- A production reads from a parse and gives a result or an error, with the parse it leaves. -/
abbrev Production := EStateM SyntaxError Parse

namespace Production

/-- A production that reads with an operation of the cursor. Where the operation fails, the cursor
has not moved. -/
def ofCursor {α : Type} (read : Cursor → Except SyntaxError (α × Cursor)) : Production α :=
  fun p ↦
    match read p.cursor with
    | .ok (a, cursor) => .ok a (p.moveTo cursor)
    | .error e => .error e p

/-- A token of one of the kinds. -/
def expect (kinds : List Kind) : Production Token := ofCursor (Cursor.expect kinds)

/-- A token of one of the kinds, if it comes next. -/
def optionally (kinds : List Kind) : Production (Option Token) := fun p ↦
  match p.cursor.consumeIf kinds with
  | some (t, cursor) => .ok (some t) (p.moveTo cursor)
  | none => .ok none p

/-- The longest run of tokens of the kinds. -/
def run (kinds : List Kind) : Production (List Token) := fun p ↦
  let r := p.cursor.takeRun kinds
  .ok r.1 (p.moveTo r.2)

/-- Whitespace, however much there is. -/
def space : Production Unit := fun p ↦ .ok () (p.moveTo p.cursor.skipSpace.2)

/-- Try a production: on failure go back and put its error on the trail. -/
def attempt {α : Type} (production : Production α) (p : Parse) : Attempt Problem α × Parse :=
  match production (p.moveTo p.cursor.save) with
  | .ok a p' => (⟨some a, []⟩, p'.moveTo p'.cursor.forget)
  | .error e p' => (⟨none, [e]⟩, (p'.moveTo p'.cursor.restore).record e)

/-- The first of several productions to succeed, or the errors of all. -/
def firstOf {α : Type} : List (Production α) → Parse → Attempt Problem α × Parse
  | [], p => (⟨none, []⟩, p)
  | production :: rest, p =>
    match attempt production p with
    | (⟨some a, errors⟩, p') => (⟨some a, errors⟩, p')
    | (⟨none, errors⟩, p') =>
      let others := firstOf rest p'
      match others.1.result with
      | some _ => others
      | none => (⟨none, errors ++ others.1.errors⟩, others.2)

/-- Repeat a production until it fails or reads nothing. Errors are kept only when there is no
result at all. -/
def many {α : Type} (production : Production α) (p : Parse) : Attempt Problem (List α) × Parse :=
  match attempt production p with
  | (⟨none, errors⟩, p') => (⟨some [], errors⟩, p')
  | (⟨some a, _⟩, p') =>
    if p'.cursor.remaining < p.cursor.remaining then
      let others := many production p'
      (⟨some (a :: others.1.result.getD []), []⟩, others.2)
    else (⟨some [a], []⟩, p')
termination_by p.cursor.remaining

/-- The result of an attempt, or its deepest error. -/
def settle {α : Type} (tried : Attempt Problem α × Parse) (fallback : SyntaxError) :
    EStateM.Result SyntaxError Parse α :=
  match tried.1.toExcept fallback with
  | .ok a => .ok a tried.2
  | .error e => .error e tried.2

/-- The result of a production if it succeeds here. -/
def optional {α : Type} (production : Production α) : Production (Option α) := fun p ↦
  let tried := attempt production p
  .ok tried.1.result tried.2

/-- One of several productions, or the deepest of their errors. -/
def oneOf {α : Type} (alternatives : List (Production α)) (otherwise : Problem) : Production α :=
  fun p ↦ settle (firstOf alternatives p) ⟨otherwise, p.cursor.place⟩

/-- The kinds that may continue a name. -/
def nameKinds : List Kind := [.letter, .digit, .minus, .underscore]

/-- The kinds that may stand before `=`. -/
def signKinds : List Kind := [.tilde, .pipe, .caret, .dollar, .asterisk]

/-- The kinds of the combinator signs. -/
def combinatorKinds : List Kind := [.leftAngle, .plus, .tilde]

/-- A letter and all name characters that follow. -/
def name : Production String := do
  let first ← expect [.letter]
  let rest ← run nameKinds
  return String.ofList (first.char :: rest.map Token.char)

/-- A name after `#`. -/
def idName : Production Simple := do
  let _ ← expect [.hash]
  return .idName (← name)

/-- A name after `.`. -/
def className : Production Simple := do
  let _ ← expect [.period]
  return .className (← name)

/-- The characters up to and including the next `quote`. A string that is not closed is read to the
end of the text. -/
def closeQuote (quote : Char) : Production (List Char) := fun p ↦
  match _h : p.cursor.consume with
  | none => .error ⟨.unterminatedString, p.cursor.place⟩ p
  | some (t, cursor) =>
    if t.kind = .quote ∧ t.char = quote then .ok [t.char] (p.moveTo cursor)
    else
      match closeQuote quote (p.moveTo cursor) with
      | .ok cs p' => .ok (t.char :: cs) p'
      | .error e p' => .error e p'
termination_by p => p.cursor.remaining
decreasing_by exact Cursor.remaining_lt_of_consume _h

/-- A string literal with its quotes: it ends at the first return of its own opening quote. -/
def literal : Production String := do
  let opening ← expect [.quote]
  let rest ← closeQuote opening.char
  return String.ofList (opening.char :: rest)

/-- A string literal or a bare name. -/
def attributeValue : Production AttributeValue :=
  oneOf [AttributeValue.literal <$> literal, AttributeValue.bare <$> name] .noAttributeValue

/-- A comparison sign and the value after it, with whitespace before and between. -/
def comparison : Production (Comparison × AttributeValue) := do
  space
  let sign ← optionally signKinds
  let equals ← expect [.equals]
  match Comparison.ofSign? (sign.map Token.kind) with
  | none => throw ⟨.unknownOperator, equals.position⟩
  | some comparison =>
    space
    return (comparison, ← attributeValue)

/-- An attribute name and a comparison, if one follows. -/
def attributeTest : Production AttributeTest := do
  let name ← name
  let found ← optional comparison
  return ⟨name, found.map Prod.fst, found.map Prod.snd⟩

/-- An attribute condition in brackets. -/
def attributeCondition : Production Simple := do
  let _ ← expect [.leftBracket]
  let test ← attributeTest
  let _ ← expect [.rightBracket]
  return .attr test

/-- One condition on an element. -/
def simple : Production Simple :=
  oneOf [idName, className, attributeCondition, Simple.typeName <$> name] .noSelector

/-- At least one condition. -/
def compound : Production Compound := fun p ↦
  let tried := many simple p
  match tried.1.result with
  | some (first :: rest) => .ok ⟨first :: rest⟩ tried.2
  | _ => .error ((Located.deepest tried.1.errors).getD ⟨.emptyCompound, p.cursor.place⟩) tried.2

/-- A compound, a combinator sign and the rest of the selector. -/
def signJoin (right : Production Complex) : Production Complex := do
  let left ← compound
  space
  let operator ← expect combinatorKinds
  space
  return .joined operator left (← right)

/-- A compound, whitespace and the rest of the selector. -/
def spaceJoin (right : Production Complex) : Production Complex := do
  let left ← compound
  let operator ← expect [.whitespace]
  space
  return .joined operator left (← right)

/-- A selector of at most `depth` compounds. -/
def complexWithin : Nat → Production Complex
  | 0 => fun p ↦ .error ⟨.noSelector, p.cursor.place⟩ p
  | depth + 1 =>
    let right := complexWithin depth
    oneOf [signJoin right, spaceJoin right, Complex.compound <$> compound] .noSelector

/-- A selector. Each compound reads a token, so there are no more compounds than tokens. -/
def complex : Production Complex := fun p ↦ complexWithin (p.cursor.remaining + 1) p

/-- A selector and nothing but whitespace after it. -/
def wholeSelector : Production Complex := fun p ↦
  match complex p with
  | .error e p' => .error e p'
  | .ok s p' =>
    match p'.cursor.expectEnd with
    | (none, cursor) => .ok s (p'.moveTo cursor)
    | (some e, cursor) => .error e (p'.moveTo cursor)

end Production

/-- What a parse came to: the selector or the error to report, and the trail of errors. -/
structure Parsed where
  outcome : Except SyntaxError Complex
  trail : List SyntaxError

/-- Read a whole text as one selector. A deeper error on the trail is reported in place of the one
that ended the parse. -/
def run (text : String) : Parsed :=
  match Production.wholeSelector (.ofText text) with
  | .ok s p => ⟨.ok s, p.trail⟩
  | .error e p =>
    match p.trail with
    | deepest :: _ => ⟨.error (if e.offset < deepest.offset then deepest else e), p.trail⟩
    | [] => ⟨.error e, p.trail⟩

/-- Read a whole text as one selector. -/
def parse (text : String) : Except SyntaxError Complex := (run text).outcome

/-- The event of an error that is deeper than all before it. -/
def deeperErrorEvent (e : SyntaxError) : Event where
  level := .trace
  reporter := .selectorParser
  message := "deepest selector error: " ++ e.problem.describe
  details := [("offset", .count e.offset)]

/-- The event of a rejected text. -/
def rejectionEvent (text : String) (e : SyntaxError) : Event where
  level := .debug
  reporter := .selector
  message := "selector rejected: " ++ e.message
  details := [("selector", .text text)]

/-- The events of reading a text. -/
def parseEvents (text : String) : List Event :=
  let parsed := run text
  parsed.trail.reverse.map deeperErrorEvent ++
    match parsed.outcome with
    | .ok _ => []
    | .error e => [rejectionEvent text e]

end StyleCheck.Selector
