import StyleCheck.Css.Progression
import StyleCheck.Css.Verbatim

/-!
# Selector lists of rules

The selectors before the block of a style rule, read from the tokens of the sheet and written in
one canonical way: one blank around each combinator, attribute values between double quotes, and
no universal selector where anything else qualifies the element.
-/

namespace StyleCheck.Css

/-- A part of a compound selector. -/
inductive SelectorPart
  | universal
  | typeName (name : String)
  | condition (text : String)
  | pseudoElement (text : String)

/-- The text of a part. -/
def SelectorPart.text : SelectorPart → String
  | .universal => "*"
  | .typeName name => Spelling.ident name
  | .condition text => text
  | .pseudoElement text => text

/-- Whether a part is the universal selector. -/
def SelectorPart.isUniversal : SelectorPart → Bool
  | .universal => true
  | _ => false

/-- A compound selector and the sign of the combinator before it, empty for the first one. -/
structure SelectorStep where
  sign : String
  parts : List SelectorPart

/-- The text of a compound selector. -/
def SelectorStep.text (s : SelectorStep) : String :=
  s.sign ++
    match s.parts with
    | [part] => part.text
    | parts => String.join ((parts.filter fun p ↦ !p.isUniversal).map SelectorPart.text)

/-- The text of a selector. -/
def selectorText (steps : List SelectorStep) : String :=
  String.join (steps.map SelectorStep.text)

namespace SelectorList

/-- A way to read selectors from a region. -/
abbrev Reading := Region → Except CssError (List (List SelectorStep))

/-! ### Simple selectors -/

/-- The pseudo-classes that are written in small letters. -/
def pseudoClasses : List String :=
  ["hover", "active", "focus", "focus-visible", "focus-within", "current", "past", "future",
    "playing", "paused", "seeking", "buffering", "stalled", "muted", "volume-locked",
    "fullscreen", "open", "closed", "modal", "picture-in-picture", "popover-open", "defined",
    "any-link", "link", "local-link", "target", "target-within", "visited", "enabled",
    "disabled", "read-only", "read-write", "placeholder-shown", "default", "checked",
    "indeterminate", "blank", "valid", "invalid", "in-range", "out-of-range", "required",
    "optional", "user-valid", "user-invalid", "autofill", "first-child", "last-child",
    "only-child", "root", "empty", "scope", "host", "first-of-type", "last-of-type",
    "only-of-type"]

/-- The pseudo-elements that are written with one colon, even if two were given. -/
def colonPseudoElements : List String := ["before", "after", "first-line", "first-letter"]

/-- The other pseudo-elements that are written in small letters. -/
def pseudoElements : List String :=
  ["selection", "placeholder", "marker", "backdrop", "cue", "cue-region",
    "file-selector-button", "view-transition"]

/-- A pseudo-class without arguments. -/
def pseudoClassText (name : String) : String :=
  ":" ++ if pseudoClasses.contains (Text.lower name) then Text.lower name else name

/-- A pseudo-element without arguments. -/
def pseudoElementText (name : String) : String :=
  let lower := Text.lower name
  if colonPseudoElements.contains lower then ":" ++ lower
  else "::" ++ if pseudoElements.contains lower then lower else name

/-- A selector that stands for itself in a list of alternatives: one compound without a type. -/
def isCondition (steps : List SelectorStep) : Bool :=
  match steps with
  | [step] => step.parts.all fun p ↦
      match p with
      | .condition _ => true
      | .pseudoElement _ => true
      | _ => false
  | _ => false

/-- A pseudo-class with selectors as arguments. -/
def listText (name : String) (selectors : List (List SelectorStep)) : String :=
  match name, selectors with
  | "is", [steps] =>
    if isCondition steps then selectorText steps else ":is(" ++ selectorText steps ++ ")"
  | name, selectors => ":" ++ name ++ "(" ++ ", ".intercalate (selectors.map selectorText) ++ ")"

/-- The pseudo-classes that count positions among siblings of a type. -/
def typeCounts : List String := ["nth-of-type", "nth-last-of-type", "nth-col", "nth-last-col"]

/-- The pseudo-classes that count positions among siblings, maybe those of some selectors only. -/
def siblingCounts : List String := ["nth-child", "nth-last-child"]

/-- The selectors among which positions are counted, with the word before them. -/
def countedText (plain : Reading) (r : Region) : Except CssError String :=
  match r.next? with
  | some (.token _ (.ident word), rest) =>
    if Text.sameIgnoringCase word "of" then
      return " of " ++ ", ".intercalate ((← plain rest).map selectorText)
    else r.unexpected
  | some _ => r.unexpected
  | none => .ok ""

/-- A pseudo-class that counts positions. -/
def countText (plain : Reading) (name : String) (content : Region) : Except CssError String := do
  let (p, rest) ← Progression.read content
  let among ← (if siblingCounts.contains name then countedText plain rest
    else do rest.expectEnd; return "")
  return ":" ++ name ++ "(" ++ p.text ++ among ++ ")"

/-- The names or strings of a list, at least one and at most `n`. -/
def wordList : Nat → Region → Except CssError (List String)
  | 0, _ => .ok []
  | n + 1, r => do
    let (word, rest) ← (match r.next? with
      | some (.token _ (.ident name), rest) => .ok (name, rest)
      | some (.token _ (.string text), rest) => .ok (text, rest)
      | _ => r.unexpected)
    match rest.next? with
    | none => return [word]
    | some (.token _ .comma, rest) => return word :: (← wordList n rest)
    | some _ => rest.unexpected

/-- A pseudo-class with arguments. -/
def functionPart (plain relative : Reading) (name : String) (content : Region) :
    Except CssError SelectorPart := do
  let lower := Text.lower name
  if ["not", "is", "where", "-webkit-any", "-moz-any"].contains lower then
    return .condition (listText lower (← plain content))
  else if lower = "has" then return .condition (listText lower (← relative content))
  else if typeCounts.contains lower || siblingCounts.contains lower then
    return .condition (← countText plain lower content)
  else if lower = "lang" then
    let words ← wordList (content.items.length + 1) content
    return .condition (":lang(" ++ ", ".intercalate (words.map Spelling.ident) ++ ")")
  else return .condition (":" ++ name ++ "(" ++ (← Verbatim.text content.items) ++ ")")

/-- What follows one or two colons. -/
def pseudoPart (plain relative : Reading) (double : Bool) (r : Region) :
    Except CssError (SelectorPart × Region) :=
  match r.nextWithSpace? with
  | none => .error ⟨r.stop, .endOfInput⟩
  | some (.token _ (.ident name), rest) =>
    .ok (if double || colonPseudoElements.contains (Text.lower name) then
        .pseudoElement (pseudoElementText name)
      else .condition (pseudoClassText name), rest)
  | some (.block _ (.function name) content stop, rest) => do
    if double then
      return (.pseudoElement ("::" ++ name ++ "(" ++ (← Verbatim.text content) ++ ")"), rest)
    else return (← functionPart plain relative name ⟨content, stop⟩, rest)
  | some (c, rest) => rest.fail (.pseudoWithoutName c.picture)

/-- The sign of an attribute comparison. -/
def comparison? : Component → Option String
  | .token _ (.delim '=') => some "="
  | .token _ .includeMatch => some "~="
  | .token _ .dashMatch => some "|="
  | .token _ .startMatch => some "^="
  | .token _ .endMatch => some "$="
  | .token _ .partMatch => some "*="
  | _ => none

/-- The letter behind an attribute's value that says how letters are compared. -/
def caseFlag (r : Region) : Except CssError String :=
  match r.next? with
  | none => .ok ""
  | some (.token place (.ident flag), rest) =>
    if ["i", "s"].contains (Text.lower flag) then do rest.expectEnd; return " " ++ Text.lower flag
    else .error ⟨place, .unexpected (Token.ident flag).picture⟩
  | some _ => r.unexpected

/-- The content of an attribute selector. -/
def attributeText (r : Region) : Except CssError String :=
  let r := r.dropSpace
  match r.nextWithSpace? with
  | none => .error ⟨r.stop, .endOfInput⟩
  | some (.token _ (.ident name), rest) =>
    let name := Spelling.ident name
    match rest.next? with
    | none => .ok ("[" ++ name ++ "]")
    | some (sign, value) =>
      match comparison? sign with
      | none => rest.fail (.unexpectedInAttribute sign.picture)
      | some sign =>
        match value.next? with
        | some (.token _ (.ident text), rest) => do
          return "[" ++ name ++ sign ++ Spelling.string text ++ (← caseFlag rest) ++ "]"
        | some (.token _ (.string text), rest) => do
          return "[" ++ name ++ sign ++ Spelling.string text ++ (← caseFlag rest) ++ "]"
        | some (c, _) => value.fail (.badAttributeValue c.picture)
        | none => .error ⟨value.stop, .endOfInput⟩
  | some (c, _) => r.fail (.attributeWithoutName c.picture)

/-- The simple selector at the front of a region, if one begins there. -/
def simplePart (plain relative : Reading) (afterPseudo : Bool) (r : Region) :
    Except CssError (Option (SelectorPart × Region)) :=
  match r.nextWithSpace? with
  | none => .ok none
  | some (c, rest) =>
    let condition (text : String) (rest : Region) :
        Except CssError (Option (SelectorPart × Region)) :=
      if afterPseudo then r.fail (.selectorAfterPseudoElement c.picture)
      else .ok (some (.condition text, rest))
    match c with
    | .token _ (.idHash name) => condition ("#" ++ Spelling.ident name) rest
    | .token _ (.delim '.') =>
      match rest.nextWithSpace? with
      | some (.token _ (.ident name), rest) => condition ("." ++ Spelling.ident name) rest
      | some (other, _) =>
        if afterPseudo then r.fail (.selectorAfterPseudoElement c.picture)
        else rest.fail (.classWithoutName other.picture)
      | none => .error ⟨rest.stop, .endOfInput⟩
    | .block _ .square content stop =>
      if afterPseudo then r.fail (.selectorAfterPseudoElement c.picture)
      else do condition (← attributeText ⟨content, stop⟩) rest
    | .token _ .colon =>
      match rest.nextWithSpace? with
      | some (.token _ .colon, rest) => some <$> pseudoPart plain relative true rest
      | _ => some <$> pseudoPart plain relative false rest
    | .token _ (.delim '&') => .ok (some (.condition "&", rest))
    | _ => .ok none

/-! ### Compounds and combinators -/

/-- Whether a part is a pseudo-element. -/
def isPseudoElement : SelectorPart → Bool
  | .pseudoElement _ => true
  | _ => false

/-- The simple selectors at the front of a region, at most `n`, behind those already read. -/
def simpleParts (plain relative : Reading) :
    Nat → List SelectorPart → Region → Except CssError (List SelectorPart × Region)
  | 0, parts, r => .ok (parts, r)
  | n + 1, parts, r => do
    match ← simplePart plain relative (parts.any isPseudoElement) r with
    | some (part, rest) => simpleParts plain relative n (parts ++ [part]) rest
    | none => return (parts, r)

/-- The type selector at the front of a region, if there is one. -/
def typePart (r : Region) : List SelectorPart × Region :=
  match r.nextWithSpace? with
  | some (.token _ (.ident name), rest) => ([.typeName name], rest)
  | some (.token _ (.delim '*'), rest) => ([.universal], rest)
  | _ => ([], r)

/-- The compound selector at the front of a region past white space. -/
def compound (plain relative : Reading) (r : Region) :
    Except CssError (List SelectorPart × Region) :=
  let (parts, rest) := typePart r.dropSpace
  simpleParts plain relative rest.items.length parts rest

/-- The combinator that a delimiter is. -/
def combinatorSign? : Component → Option String
  | .token _ (.delim '>') => some " > "
  | .token _ (.delim '+') => some " + "
  | .token _ (.delim '~') => some " ~ "
  | _ => none

/-- The combinator at the front of a region, if a compound selector has to follow. -/
def combinator? (r : Region) : Option (String × Region) :=
  match r.next? with
  | none => none
  | some (c, rest) =>
    match combinatorSign? c with
    | some sign => some (sign, rest)
    | none => if (r.nextWithSpace?.map fun n ↦ n.1.isSpace).getD false then some (" ", r) else none

/-- The compound selectors from the one behind `sign` on, at most `n`. -/
def steps (plain relative : Reading) (sign : String) (isFirst : Bool) :
    Nat → Region → Except CssError (List SelectorStep × Region)
  | 0, r => .ok ([], r)
  | n + 1, r => do
    let (parts, rest) ← compound plain relative r
    if parts.isEmpty then
      r.dropSpace.fail (if isFirst then .emptySelector else .danglingCombinator)
    else if parts.any isPseudoElement then return ([⟨sign, parts⟩], rest)
    else
      match combinator? rest with
      | none => return ([⟨sign, parts⟩], rest)
      | some (next, rest) =>
        let (more, rest) ← steps plain relative next false n rest
        return (⟨sign, parts⟩ :: more, rest)

/-- A selector that fills a region. A relative one may begin with a combinator. -/
def selector (plain relative : Reading) (isRelative : Bool) (r : Region) :
    Except CssError (List SelectorStep) := do
  let (sign, r) ← (if isRelative then
      match r.next? with
      | none => .error ⟨r.stop, .endOfInput⟩
      | some (c, rest) =>
        match combinatorSign? c with
        | some sign => .ok (String.ofList (sign.toList.drop 1), rest)
        | none => .ok ("", r)
    else .ok ("", r))
  let (read, rest) ← steps plain relative sign true (r.items.length + 1) r
  rest.expectEnd
  return read

/-- The regions between the commas of a list. -/
def members (stop : Place) : List Component → List Region
  | [] => [⟨[], stop⟩]
  | c :: rest =>
    match members stop rest with
    | [] => []
    | first :: more =>
      if c.isComma then ⟨[], c.place⟩ :: first :: more
      else ⟨c :: first.items, first.stop⟩ :: more

/-- The selectors of a list with at most `depth` lists one in the other. -/
def readWithin : Nat → Bool → Region → Except CssError (List (List SelectorStep))
  | 0, _, _ => .ok []
  | depth + 1, isRelative, r =>
    (members r.stop r.items).mapM
      (selector (readWithin depth false) (readWithin depth true) isRelative)

/-- The selectors of a list. -/
def read (isRelative : Bool) (r : Region) : Except CssError (List (List SelectorStep)) :=
  readWithin (r.depth + 1) isRelative r

end SelectorList

end StyleCheck.Css
