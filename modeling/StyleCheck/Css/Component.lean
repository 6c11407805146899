import StyleCheck.Css.Lexer

/-!
# Component values

The tokens of a sheet with its blocks put together. A block runs to its own closing bracket or to
the end of the text; any other closing bracket inside is a token like others.
-/

namespace StyleCheck.Css

/-- A token, or a block with the place where its content ends. -/
inductive Component
  | token (place : Place) (t : Token)
  | block (place : Place) (opener : Opener) (content : List Component) (stop : Place)

namespace Component

/-- Where a component begins. -/
def place : Component → Place
  | .token place _ => place
  | .block place _ _ _ => place

/-- A component as a message names it. -/
def picture : Component → String
  | .token _ t => t.picture
  | .block _ opener _ _ => opener.picture

/-- Whether a component is a comment. -/
def isComment : Component → Bool
  | .token _ (.comment _) => true
  | _ => false

/-- Whether a component is white space. -/
def isSpace : Component → Bool
  | .token _ (.space _) => true
  | _ => false

mutual

/-- How many blocks stand one in the other in a component. -/
def depth : Component → Nat
  | .token _ _ => 0
  | .block _ _ content _ => depthOf content + 1

/-- How many blocks stand one in the other among components. -/
def depthOf : List Component → Nat
  | [] => 0
  | c :: rest => max c.depth (depthOf rest)

end

end Component

/-- Whether a token closes the block that a bracket opened. -/
def Opener.isClosedBy : Opener → Token → Bool
  | .function _, .closeParen => true
  | .paren, .closeParen => true
  | .square, .closeSquare => true
  | .curly, .closeCurly => true
  | _, _ => false

/-- A run of components with the place where it ends. -/
structure Region where
  items : List Component
  stop : Place

namespace Region

/-- A block whose end has not been read, with what stands before it, the last one first. -/
structure Unclosed where
  place : Place
  opener : Opener
  before : List Component

/-- Close every open block at the end of the text. -/
def closeAll (stop : Place) : List Unclosed → List Component → List Component
  | [], done => done.reverse
  | top :: outer, done =>
    closeAll stop outer (.block top.place top.opener done.reverse stop :: top.before)

/-- How many blocks stand one in the other in a region. -/
def depth (r : Region) : Nat := Component.depthOf r.items

/-- Put blocks together; `done` holds the components read so far, the last one first. -/
def group (stop : Place) : List Unclosed → List Component → List (Place × Lexeme) → List Component
  | opened, done, [] => closeAll stop opened done
  | opened, done, (place, .opening opener) :: rest =>
    group stop (⟨place, opener, done⟩ :: opened) [] rest
  | [], done, (place, .token t) :: rest => group stop [] (.token place t :: done) rest
  | top :: outer, done, (place, .token t) :: rest =>
    if top.opener.isClosedBy t then
      group stop outer (.block top.place top.opener done.reverse place :: top.before) rest
    else group stop (top :: outer) (.token place t :: done) rest

/-- The components of a text. -/
def ofText (text : String) : Region :=
  let (lexemes, stop) := Lexer.lexemes text
  ⟨group stop [] [] lexemes, stop⟩

/-- Where the next component begins, or the region ends. -/
def place (r : Region) : Place :=
  match r.items with
  | c :: _ => c.place
  | [] => r.stop

/-- The region past leading comments. -/
def dropComments (r : Region) : Region := { r with items := r.items.dropWhile Component.isComment }

/-- The region past leading white space and comments. -/
def dropSpace (r : Region) : Region :=
  { r with items := r.items.dropWhile fun c ↦ c.isSpace || c.isComment }

/-- The next component that is not a comment, and the region past it. -/
def nextWithSpace? (r : Region) : Option (Component × Region) :=
  match r.dropComments.items with
  | c :: rest => some (c, { r with items := rest })
  | [] => none

/-- The next component that is neither white space nor a comment, and the region past it. -/
def next? (r : Region) : Option (Component × Region) :=
  match r.dropSpace.items with
  | c :: rest => some (c, { r with items := rest })
  | [] => none

/-- The region as far as the first component of a kind, and the rest from that component on. -/
def splitBefore (stops : Component → Bool) (r : Region) : Region × Region :=
  let (before, after) := r.items.span fun c ↦ !stops c
  let rest : Region := { r with items := after }
  (⟨before, rest.place⟩, rest)

end Region

namespace Component

/-- Whether a component is a semicolon. -/
def isSemicolon : Component → Bool
  | .token _ .semicolon => true
  | _ => false

/-- Whether a component is a comma. -/
def isComma : Component → Bool
  | .token _ .comma => true
  | _ => false

/-- Whether a component is an exclamation mark. -/
def isBang : Component → Bool
  | .token _ (.delim '!') => true
  | _ => false

/-- Whether a component is a block in braces. -/
def isCurly : Component → Bool
  | .block _ .curly _ _ => true
  | _ => false

end Component

end StyleCheck.Css
