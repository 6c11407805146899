import StyleCheck.Selector.Error

/-!
# Token cursor

A reading position over the tokens of a selector with a stack of checkpoints to go back to. Only
`consume` and what is built on it move forward; only `restore` moves back.
-/

namespace StyleCheck.Selector

/-- A position in a token list, and the positions saved so far, the last one first. -/
structure Cursor where
  tokens : Array Token
  position : Nat
  saved : List Nat

namespace Cursor

/-- A cursor before the first token. -/
def ofTokens (tokens : List Token) : Cursor := ⟨tokens.toArray, 0, []⟩

/-- A cursor before the first character of a text. -/
def ofText (text : String) : Cursor := ofTokens (tokenize text)

/-- The next token. -/
def peek (c : Cursor) : Option Token := c.tokens[c.position]?

/-- How many tokens are left. -/
def remaining (c : Cursor) : Nat := c.tokens.size - c.position

/-- Whether no token is left. -/
def atEnd (c : Cursor) : Bool := c.tokens.size ≤ c.position

/-- The tokens left, as text. -/
def remainder (c : Cursor) : String :=
  String.ofList ((c.tokens.toList.drop c.position).map Token.char)

/-- The place just past the last token. -/
def endPosition (c : Cursor) : Position :=
  match c.tokens.back? with
  | some t => t.position.advance t.char
  | none => .start

/-- The place of the next token, or of the end of the text. -/
def place (c : Cursor) : Position :=
  match c.peek with
  | some t => t.position
  | none => c.endPosition

/-- The next token and the cursor past it. -/
def consume (c : Cursor) : Option (Token × Cursor) :=
  c.peek.map fun t ↦ (t, { c with position := c.position + 1 })

/-- The next token if its kind is one of `kinds`, and the cursor past it. -/
def consumeIf (kinds : List Kind) (c : Cursor) : Option (Token × Cursor) :=
  match c.peek with
  | some t => if kinds.contains t.kind then c.consume else none
  | none => none

/-- A token of one of the kinds, or the error that says what stands there instead. -/
def expect (kinds : List Kind) (c : Cursor) : Except SyntaxError (Token × Cursor) :=
  match c.consumeIf kinds with
  | some r => .ok r
  | none => .error ⟨.unexpected kinds (c.peek.map Token.kind), c.place⟩

theorem remaining_lt_of_consume {c c' : Cursor} {t : Token} (h : c.consume = some (t, c')) :
    c'.remaining < c.remaining := by
  simp only [consume, peek, Option.map_eq_some_iff, Prod.mk.injEq] at h
  obtain ⟨u, hu, -, rfl⟩ := h
  have := (Array.getElem?_eq_some_iff.mp hu).1
  simp only [remaining]
  omega

theorem remaining_lt_of_consumeIf {kinds : List Kind} {c c' : Cursor} {t : Token}
    (h : c.consumeIf kinds = some (t, c')) : c'.remaining < c.remaining := by
  unfold consumeIf at h
  split at h
  · split at h
    · exact remaining_lt_of_consume h
    · cases h
  · cases h

/-- The longest run of tokens of the given kinds, and the cursor past it. -/
def takeRun (kinds : List Kind) (c : Cursor) : List Token × Cursor :=
  match _h : c.consumeIf kinds with
  | some (t, c') =>
    let rest := takeRun kinds c'
    (t :: rest.1, rest.2)
  | none => ([], c)
termination_by c.remaining
decreasing_by exact remaining_lt_of_consumeIf _h

/-- The number of whitespace tokens that follow, and the cursor past them. -/
def skipSpace (c : Cursor) : Nat × Cursor :=
  let run := c.takeRun [.whitespace]
  (run.1.length, run.2)

/-- Remember the position. -/
def save (c : Cursor) : Cursor := { c with saved := c.position :: c.saved }

/-- Forget the last remembered position. -/
def forget (c : Cursor) : Cursor := { c with saved := c.saved.tail }

/-- Go back to the last remembered position and forget it. -/
def restore (c : Cursor) : Cursor :=
  match c.saved with
  | [] => c
  | p :: rest => { c with position := p, saved := rest }

/-- Skip whitespace and report a token that follows. -/
def expectEnd (c : Cursor) : Option SyntaxError × Cursor :=
  let rest := c.skipSpace.2
  match rest.peek with
  | some t => (some ⟨.trailing t.kind, t.position⟩, rest)
  | none => (none, rest)

end Cursor

end StyleCheck.Selector
