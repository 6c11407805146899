import StyleCheck.Style.Scanner
import StyleCheck.Text.Letters

/-!
# Declarations as written

The declarations of every style rule at the top level of a sheet, with the values as they stand in
its text. At-rules are passed over with their blocks, and a rule nested in a block adds nothing to
the block around it.
-/

namespace StyleCheck.Style

/-- A declaration as it stands in the text, without comments. -/
structure WrittenDeclaration where
  property : String
  value : String
  important : Bool
  deriving DecidableEq, Repr

namespace Written

/-- The text without its comments; what looks like a comment in a string is kept. -/
def withoutComments (s : Scanner) : List Char :=
  match _h : s.rest with
  | [] => []
  | c :: rest =>
    let past : Scanner := ⟨s.place + c.utf8Size, rest⟩
    if Scanner.opensComment c rest then withoutComments past.skipComment
    else if Scanner.isQuote c then
      let closed := past.skipString c
      s.upTo closed.place ++ withoutComments closed
    else c :: withoutComments past
termination_by s.rest.length
decreasing_by
  · rw [_h]; exact Nat.lt_succ_of_le (Scanner.length_skipComment_le _)
  · rw [_h]; exact Nat.lt_succ_of_le (Scanner.length_skipString_le _ _)
  · rw [_h]; exact Nat.lt_succ_self _

/-- The text before and after the first `c`. -/
def splitAtFirst (c : Char) (text : List Char) : Option (List Char × List Char) :=
  match text.dropWhile (· != c) with
  | [] => none
  | _ :: after => some (text.takeWhile (· != c), after)

/-- The text before and after the last `c`. -/
def splitAtLast (c : Char) (text : List Char) : Option (List Char × List Char) :=
  (splitAtFirst c text.reverse).map fun (after, before) ↦ (before.reverse, after.reverse)

/-- The value before a final mark of importance, if there is one. -/
def withoutImportance (value : List Char) : Option (List Char) :=
  match splitAtLast '!' value with
  | none => none
  | some (before, flag) =>
    if Text.sameIgnoringCase (String.ofList (Text.trimChars flag)) "important" then
      some (Text.dropRightWhile Text.isSpace before)
    else none

/-- A property's name as it is compared: custom properties keep their case. -/
def foldName (name : String) : String :=
  if ['-', '-'].isPrefixOf name.toList then name else Text.lower name

/-- The declaration that a piece of a block holds, if it has a name and a colon. -/
def declaration? (text : List Char) : Option WrittenDeclaration :=
  match splitAtFirst ':' (withoutComments (.ofChars text)) with
  | none => none
  | some (name, value) =>
    let name := Text.trimChars name
    let value := Text.trimChars value
    if name.isEmpty then none
    else
      let property := foldName (String.ofList name)
      match withoutImportance value with
      | some value => some ⟨property, String.ofList value, true⟩
      | none => some ⟨property, String.ofList value, false⟩

/-- The pieces of a block between its semicolons and nested blocks; what leads up to a nested
block is no piece. -/
def pieces (s : Scanner) : List (List Char) :=
  match _h : s.findTopLevel [';', '\x7b'] 0 with
  | (none, _) => [s.rest]
  | (some c, past) =>
    if c = ';' then s.upTo (past.place - 1) :: pieces past else pieces past.skipBlock.2
termination_by s.rest.length
decreasing_by
  · exact Scanner.length_findTopLevel_lt _h
  · exact Nat.lt_of_le_of_lt (Scanner.length_skipBlock_le _) (Scanner.length_findTopLevel_lt _h)

/-- The declarations of a block's body. -/
def declarations (body : List Char) : List WrittenDeclaration :=
  (pieces (.ofChars body)).filterMap declaration?

/-- The bodies of the style rules: where each begins and its text. -/
def bodies (s : Scanner) : List (Nat × List Char) :=
  let start := s.skipTrivia
  match start.rest with
  | [] => []
  | c :: _ =>
    if c = '@' then
      match _h : start.findTopLevel [';', '\x7b'] 0 with
      | (none, _) => []
      | (some stop, past) => if stop = '\x7b' then bodies past.skipBlock.2 else bodies past
    else
      match _h : start.findTopLevel ['\x7b'] 0 with
      | (none, _) => []
      | (some _, past) =>
        let block := past.skipBlock
        (past.place, past.upTo block.1) :: bodies block.2
termination_by s.rest.length
decreasing_by
  all_goals
    have hlt := Scanner.length_findTopLevel_lt _h
    have hle : start.rest.length ≤ s.rest.length := Scanner.length_skipTrivia_le s
    try have hblock := Scanner.length_skipBlock_le past
    omega

/-- The declarations of every style rule at the top level of a sheet. -/
def styleBlocks (css : String) : List (List WrittenDeclaration) :=
  (bodies (.ofChars css.toList)).map fun body ↦ declarations body.2

end Written

end StyleCheck.Style
