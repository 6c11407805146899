import StyleCheck.Css.ColorFunction
import StyleCheck.Css.Error
import StyleCheck.Css.Quantity

/-!
# Values kept as they are

A value that no grammar takes is kept token by token. Comments go, white space stays, and each
token is spelt in its one canonical way. A token that can begin no value is an error.
-/

namespace StyleCheck.Css.Verbatim

/-- The text of one token, and whether it is white space. -/
structure Piece where
  text : String
  isSpace : Bool

/-- A piece that is not white space. -/
def Piece.solid (text : String) : Piece := ⟨text, false⟩

/-- The text of pieces. -/
def textOf (pieces : List Piece) : String := String.join (pieces.map Piece.text)

/-- Without the white space at both ends, unless there is nothing else to show. -/
def trim : List Piece → List Piece
  | first :: second :: rest =>
    let pieces := first :: second :: rest
    let pieces := if first.isSpace then pieces.drop 1 else pieces
    if (pieces.getLast?.map Piece.isSpace).getD false then pieces.dropLast else pieces
  | pieces => pieces

/-- The text of a name behind `#`: a color where it is one. -/
def hashText (name spelt : String) : String :=
  match Color.ofHex? name with
  | some c => c.text
  | none => "#" ++ spelt

/-- A percentage keeps its plus sign, and its point if it was written with one. -/
def shareText (n : Numeral) : String :=
  let x := n.value * 100
  (if n.signed && !Decimal.isNegative n.value then "+" else "") ++ Decimal.ofSingle x "0" ++
    (if n.integer.isNone && Decimal.isWhole x then ".0" else "") ++ "%"

/-- A name that may begin with two hyphens. -/
def nameText (name : String) : String :=
  match name.toList with
  | '-' :: '-' :: rest => "--" ++ String.ofList (Spelling.name rest)
  | _ => Spelling.ident name

/-- An address. -/
def urlText (url : String) : String := "url(" ++ Spelling.string url ++ ")"

/-- The text of a token; closing brackets and broken tokens have none. -/
def tokenText? : Token → Option String
  | .ident name => some (nameText name)
  | .atKeyword name => some ("@" ++ Spelling.ident name)
  | .hash name => some (hashText name (String.ofList (Spelling.name name.toList)))
  | .idHash name => some (hashText name (Spelling.ident name))
  | .string text => some (Spelling.string text)
  | .url text => some (urlText text)
  | .delim c => some c.toString
  | .number n => some (numberText n.value)
  | .percentage n => some (shareText n)
  | .dimension n unit => some ((measureText? n.value unit).getD (dimensionText n.value unit))
  | .space text => some text
  | .colon => some ":"
  | .semicolon => some ";"
  | .comma => some ","
  | .includeMatch => some "~="
  | .dashMatch => some "|="
  | .startMatch => some "^="
  | .endMatch => some "$="
  | .partMatch => some "*="
  | .markupOpen => some "<!--"
  | .markupClose => some "-->"
  | .comment _ => none
  | .badString _ => none
  | .badUrl _ => none
  | .closeParen => none
  | .closeSquare => none
  | .closeCurly => none

/-- A component beside what is kept of it. -/
structure Kept where
  component : Component
  pieces : Except CssError (List Piece)

/-- The text of several components without the white space at both ends. -/
def trimmedText (kept : List Kept) : Except CssError String :=
  return textOf (trim (← kept.mapM Kept.pieces).flatten)

/-- A region over components that are kept. -/
def regionOf (kept : List Kept) (stop : Place) : Region := ⟨kept.map Kept.component, stop⟩

/-- The components after leading white space and comments. -/
def dropSpace (kept : List Kept) : List Kept :=
  kept.dropWhile fun k ↦ k.component.isSpace || k.component.isComment

/-- What follows the name in a reference: nothing, or a comma and the value that stands in. -/
def fallbackText (kept : List Kept) (stop : Place) : Except CssError String :=
  match dropSpace kept with
  | [] => .ok ""
  | ⟨.token _ .comma, _⟩ :: rest => return ", " ++ (← trimmedText rest)
  | _ => (regionOf kept stop).unexpected

/-- The content of a reference to a value by name: the name, and maybe a value that stands in. -/
def referenceText (isName : String → Bool) (kept : List Kept) (stop : Place) :
    Except CssError String :=
  match dropSpace kept with
  | ⟨.token _ (.ident name), _⟩ :: rest =>
    if isName name then return nameText name ++ (← fallbackText rest stop)
    else (regionOf kept stop).unexpected
  | _ => (regionOf kept stop).unexpected

/-- The content of an address in quotes. -/
def quotedUrlText (content : Region) : Except CssError String :=
  match content.next? with
  | some (.token _ (.string text), rest) => do rest.expectEnd; return urlText text
  | _ => content.unexpected

/-- The text of a function other than a color. -/
def functionText (name : String) (kept : List Kept) (stop : Place) : Except CssError String :=
  match name with
  | "url" => quotedUrlText (regionOf kept stop)
  | "var" =>
    return "var(" ++ (← referenceText (fun n ↦ ['-', '-'].isPrefixOf n.toList) kept stop) ++ ")"
  | "env" => return "env(" ++ (← referenceText (fun _ ↦ true) kept stop) ++ ")"
  | _ => return Spelling.ident name ++ "(" ++ (← trimmedText kept) ++ ")"

/-- The text of a block in brackets. -/
def bracketed (opening closing : String) (kept : List Kept) : Except CssError String :=
  return opening ++ textOf (← kept.mapM Kept.pieces).flatten ++ closing

mutual

/-- What is kept of a component. -/
def piecesOf : Component → Except CssError (List Piece)
  | .token _ (.comment _) => .ok []
  | .token _ (.space text) => .ok [⟨text, true⟩]
  | .token place t =>
    match tokenText? t with
    | some text => .ok [.solid text]
    | none => .error ⟨place, .unexpected t.picture⟩
  | .block _ opener content stop =>
    let kept := keptOf content
    let text := match opener with
      | .function name =>
        match Color.ofFunction? name content with
        | some c => .ok c.text
        | none => functionText name kept stop
      | .paren => bracketed "(" ")" kept
      | .square => bracketed "[" "]" kept
      | .curly => bracketed "\x7b" "\x7d" kept
    return [.solid (← text)]

/-- Components beside what is kept of each. -/
def keptOf : List Component → List Kept
  | [] => []
  | c :: rest => ⟨c, piecesOf c⟩ :: keptOf rest

end

/-- The text of a value. -/
def text (components : List Component) : Except CssError String := trimmedText (keptOf components)

end StyleCheck.Css.Verbatim
