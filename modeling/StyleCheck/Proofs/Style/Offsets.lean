import StyleCheck.Style.Written
import StyleCheck.Text.Bytes

/-!
# Scanning by offsets

The scanner of written declarations once more, on a whole text and byte offsets into it. Wherever an
offset can go wrong it is checked: it must not lie in a character or behind the end, the cursor must
not go back, a slice must not end before it begins, and no difference may be below zero. No loop may
take more rounds than its text has characters, but for one that ends it. `none` is a fault of any of
these kinds.
-/

namespace StyleCheck.Style.Checked

open Text

/-! ### Accesses -/

/-- A text in two at an offset, which is a boundary between characters. -/
def splitBytes : Nat → List Char → Option (List Char × List Char)
  | n, [] => if n = 0 then some ([], []) else none
  | n, c :: cs =>
    if n = 0 then some ([], c :: cs)
    else if c.utf8Size ≤ n then (splitBytes (n - c.utf8Size) cs).map (Prod.map (c :: ·) id)
    else none

/-- The text from an offset on. -/
def textFrom (text : List Char) (place : Nat) : Option (List Char) :=
  (splitBytes place text).map Prod.snd

/-- A difference that is not below zero. -/
def minus (m n : Nat) : Option Nat := if n ≤ m then some (m - n) else none

/-- The text from one offset to another that is not before it. -/
def slice (text : List Char) (start stop : Nat) : Option (List Char) := do
  let after ← textFrom text start
  let (inside, _) ← splitBytes (← minus stop start) after
  return inside

/-- The number of bytes in front of the first `*/`. -/
def findClose : List Char → Option Nat
  | [] => none
  | '*' :: '/' :: _ => some 0
  | c :: cs => (findClose cs).map (c.utf8Size + ·)

/-- The number of bytes in front of the last `c`. -/
def findLast (c : Char) : List Char → Option Nat
  | [] => none
  | d :: ds =>
    match findLast c ds with
    | some n => some (d.utf8Size + n)
    | none => if d = c then some 0 else none

/-! ### Loops -/

/-- A round of a loop leads to another round or to the end. -/
inductive Round (σ ρ : Type)
  | again (state : σ)
  | done (result : ρ)

/-- A loop of at most so many rounds. -/
def loop {σ ρ : Type} (round : σ → Option (Round σ ρ)) : Nat → σ → Option ρ
  | 0, _ => none
  | rounds + 1, state => do
    match ← round state with
    | .again state => loop round rounds state
    | .done result => return result

/-! ### The cursor -/

section

variable (text : List Char)

/-- The cursor moved to a boundary that is not before the place where it stands. -/
def moveTo (place next : Nat) : Option Nat := do
  let _ ← minus next place
  let _ ← textFrom text next
  return next

/-- Past the next character. -/
def bump (place : Nat) : Option Nat := do
  match ← textFrom text place with
  | [] => return place
  | c :: _ => moveTo text place (place + c.utf8Size)

/-- Past a comment whose `/` has been read; the cursor stands at its `*`, which is one byte. -/
def skipComment (place : Nat) : Option Nat := do
  let inside ← moveTo text place (place + 1)
  match findClose (← textFrom text inside) with
  | some n => moveTo text inside (inside + n + 2)
  | none => moveTo text inside (byteLength text)

def stringRound (quote : Char) (place : Nat) : Option (Round Nat Nat) := do
  match ← textFrom text place with
  | [] => return .done place
  | c :: _ =>
    let past ← bump text place
    if c = '\\' then return .again (← bump text past)
    else if c = quote then return .done past
    else return .again past

/-- Past a string whose opening quote has been read. -/
def skipString (quote : Char) (place : Nat) : Option Nat :=
  loop (stringRound text quote) (text.length + 1) place

def triviaRound (place : Nat) : Option (Round Nat (Option Char × Nat)) := do
  match ← textFrom text place with
  | [] => return .done (none, place)
  | c :: after =>
    if isSpace c then return .again (← bump text place)
    else if Scanner.opensComment c after then
      return .again (← skipComment text (← moveTo text place (place + 1)))
    else return .done (some c, place)

/-- Past whitespace and comments, with the character that follows. -/
def skipTrivia (place : Nat) : Option (Option Char × Nat) :=
  loop (triviaRound text) (text.length + 1) place

/-- The state is how many groups are open, and the place of the cursor. -/
def stopRound (stops : List Char) :
    Nat × Nat → Option (Round (Nat × Nat) (Option Char × Nat))
  | (depth, place) => do
    match ← textFrom text place with
    | [] => return .done (none, place)
    | c :: _ =>
      let past ← bump text place
      if Scanner.opensComment c (← textFrom text past) then
        return .again (depth, ← skipComment text past)
      else if Scanner.isQuote c then return .again (depth, ← skipString text c past)
      else if c = '(' ∨ c = '[' then return .again (depth + 1, past)
      else if c = ')' ∨ c = ']' then return .again (depth - 1, past)
      else if depth = 0 ∧ c ∈ stops then return .done (some c, past)
      else return .again (depth, past)

/-- Past the first of `stops` outside strings, comments and groups, which is named; `depth` groups
are open. -/
def findTopLevel (stops : List Char) (depth place : Nat) : Option (Option Char × Nat) :=
  loop (stopRound text stops) (text.length + 1) (depth, place)

/-- The state is how many blocks are open, a number that does not go below zero, and the place of
the cursor. -/
def blockRound : Nat × Nat → Option (Round (Nat × Nat) (Nat × Nat))
  | (depth, place) => do
    match ← textFrom text place with
    | [] => return .done (byteLength text, place)
    | c :: _ =>
      let past ← bump text place
      if Scanner.opensComment c (← textFrom text past) then
        return .again (depth, ← skipComment text past)
      else if Scanner.isQuote c then return .again (depth, ← skipString text c past)
      else if c = '\x7b' then return .again (depth + 1, past)
      else if c = '\x7d' then
        let depth ← minus depth 1
        if depth = 0 then return .done (← minus past 1, past) else return .again (depth, past)
      else return .again (depth, past)

/-- Past a block whose opening brace has been read, with the offset where its body ends. -/
def skipBlock (place : Nat) : Option (Nat × Nat) :=
  loop (blockRound text) (text.length + 1) (1, place)

/-! ### Declarations -/

/-- The state is what has been kept, and the place of the cursor. Strings are kept as slices. -/
def commentsRound : List Char × Nat → Option (Round (List Char × Nat) (List Char))
  | (kept, place) => do
    match ← textFrom text place with
    | [] => return .done kept
    | c :: _ =>
      let past ← bump text place
      if Scanner.opensComment c (← textFrom text past) then
        return .again (kept, ← skipComment text past)
      else if Scanner.isQuote c then
        let start ← minus past 1
        let stop ← skipString text c past
        return .again (kept ++ (← slice text start stop), stop)
      else return .again (kept ++ [c], past)

/-- The text without its comments. -/
def withoutComments : Option (List Char) :=
  loop (commentsRound text) (text.length + 1) ([], 0)

end

/-- The value before a final mark of importance, if there is one. -/
def withoutImportance (value : List Char) : Option (Option (List Char)) := do
  match findLast '!' value with
  | none => return none
  | some bang =>
    let (before, flag) ← splitBytes bang value
    let word ← textFrom flag 1
    if sameIgnoringCase (String.ofList (trimChars word)) "important" then
      return some (dropRightWhile isSpace before)
    else return none

/-- The declaration that a piece of a block holds, if it has a name and a colon. -/
def declaration (text : List Char) : Option (Option WrittenDeclaration) := do
  match Written.splitAtFirst ':' (← withoutComments text) with
  | none => return none
  | some (name, value) =>
    let name := trimChars name
    let value := trimChars value
    if name.isEmpty then return none
    else
      let property := Written.foldName (String.ofList name)
      match ← withoutImportance value with
      | some value => return some ⟨property, String.ofList value, true⟩
      | none => return some ⟨property, String.ofList value, false⟩

/-- The state is what has been declared, and the offset where the next piece begins. -/
def piecesRound (body : List Char) :
    List WrittenDeclaration × Nat →
      Option (Round (List WrittenDeclaration × Nat) (List WrittenDeclaration))
  | (declared, start) => do
    match ← findTopLevel body [';', '\x7b'] 0 start with
    | (none, _) =>
      let last ← declaration (← slice body start (byteLength body))
      return .done (declared ++ last.toList)
    | (some c, past) =>
      if c = ';' then
        let next ← declaration (← slice body start (← minus past 1))
        return .again (declared ++ next.toList, past)
      else
        let (_, past) ← skipBlock body past
        return .again (declared, past)

/-- The declarations of a block's body. -/
def declarations (body : List Char) : Option (List WrittenDeclaration) :=
  loop (piecesRound body) (body.length + 1) ([], 0)

/-- The state is what the style rules so far declare, and the place of the cursor. -/
def rulesRound (css : List Char) :
    List (List WrittenDeclaration) × Nat →
      Option (Round (List (List WrittenDeclaration) × Nat) (List (List WrittenDeclaration)))
  | (blocks, place) => do
    match ← skipTrivia css place with
    | (none, _) => return .done blocks
    | (some c, start) =>
      if c = '@' then
        let (stop, past) ← findTopLevel css [';', '\x7b'] 0 start
        if stop = some '\x7b' then
          let (_, past) ← skipBlock css past
          return .again (blocks, past)
        else return .again (blocks, past)
      else
        let (stop, start) ← findTopLevel css ['\x7b'] 0 start
        if stop.isNone then return .done blocks
        let (stop, past) ← skipBlock css start
        let block ← declarations (← slice css start stop)
        return .again (blocks ++ [block], past)

/-- The declarations of every style rule at the top level of a sheet. -/
def styleBlocks (css : String) : Option (List (List WrittenDeclaration)) :=
  loop (rulesRound css.toList) (css.toList.length + 1) ([], 0)

end StyleCheck.Style.Checked
