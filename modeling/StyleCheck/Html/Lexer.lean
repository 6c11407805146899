import StyleCheck.Html.Reference
import StyleCheck.Text.Letters

/-!
# Tokens of markup

Markup as a run of tags, comments and characters. How far a text is read as markup depends on the
element that it stands in, so the reader is told.
-/

namespace StyleCheck.Html

/-- A start tag: its name in small letters, and its attributes, of each name the first. -/
structure Tag where
  name : String
  attributes : List (String × String)
  selfClosing : Bool
  deriving DecidableEq, Repr

/-- A token; the end of the text is one of them. -/
inductive Token
  | doctype (name : String)
  | startTag (tag : Tag)
  | endTag (name : String)
  | comment (text : String)
  | char (c : Char)
  | eof
  deriving DecidableEq, Repr

/-- What a text may hold: any markup, or nothing but the end tag that closes its element. Text that
can be escaped still knows character references. -/
inductive Setting
  | markup
  | escapable (name : String)
  | raw (name : String)
  | script
  | plain
  deriving DecidableEq, Repr

namespace Lexer

/-- The blanks of markup. -/
def isBlank (c : Char) : Bool := c == ' ' || c == '\t' || c == '\n' || c == '\x0c' || c == '\r'

/-- A character of a name: letters are lowered, NUL is replaced. -/
def nameChar (c : Char) : Char := if c = '\x00' then Reference.replacement else c.toLower

/-- A character of a text that may hold no NUL. -/
def textChar (c : Char) : Char := if c = '\x00' then Reference.replacement else c

/-- Whether a character ends the name of a tag. -/
def endsTagName (c : Char) : Bool := isBlank c || c == '/' || c == '>'

/-- The text with every end of a line as one line feed, without a mark of byte order. -/
def normalizeLines : List Char → List Char
  | [] => []
  | '\r' :: '\n' :: rest => '\n' :: normalizeLines rest
  | '\r' :: rest => '\n' :: normalizeLines rest
  | c :: rest => c :: normalizeLines rest

/-- The text that is read: line ends are normalized and a leading mark of byte order is dropped. -/
def prepare (text : String) : List Char :=
  match text.toList with
  | c :: rest => if c = Char.ofNat 0xFEFF then normalizeLines rest else normalizeLines (c :: rest)
  | [] => []

/-! ### Attributes -/

/-- Text in which references are decoded, at most `n` characters, up to an end. -/
def attributeText (ends : Char → Bool) : Nat → List Char → List Char × List Char
  | 0, text => ([], text)
  | _, [] => ([], [])
  | n + 1, c :: rest =>
    if ends c then ([], c :: rest)
    else
      let (d, rest) := if c = '&' then (Reference.decode? true rest).getD (c, rest)
        else (textChar c, rest)
      let r := attributeText ends n rest
      (d :: r.1, r.2)

/-- The value of an attribute, its equals sign read. A quote that is not closed takes the rest of
the text, with which the tag is lost. -/
def attributeValue (text : List Char) : String × List Char :=
  let quoted (quote : Char) (rest : List Char) : String × List Char :=
    let r := attributeText (· == quote) rest.length rest
    (String.ofList r.1, r.2.drop 1)
  match text.dropWhile isBlank with
  | '"' :: rest => quoted '"' rest
  | '\'' :: rest => quoted '\'' rest
  | rest =>
    let r := attributeText (fun c ↦ isBlank c || c == '>') rest.length rest
    (String.ofList r.1, r.2)

/-- The attribute at the front, whose name begins with the character `c`. -/
def attributeAt (c : Char) (rest : List Char) : (String × String) × List Char :=
  let (more, rest) := rest.span fun d ↦ !(endsTagName d || d == '=')
  let name := String.ofList ((c :: more).map nameChar)
  match rest.dropWhile isBlank with
  | '=' :: rest => let r := attributeValue rest; ((name, r.1), r.2)
  | _ => ((name, ""), rest)

/-- Attributes up to the end of a tag, at most `n` characters; none where the text ends first. -/
def attributes (read : List (String × String)) :
    Nat → List Char → Option ((List (String × String) × Bool) × List Char)
  | 0, _ => none
  | _, [] => none
  | _, '>' :: rest => some ((read.reverse, false), rest)
  | _, '/' :: '>' :: rest => some ((read.reverse, true), rest)
  | n + 1, c :: rest =>
    if isBlank c || c == '/' then attributes read n rest
    else
      let (a, rest) := attributeAt c rest
      attributes (if (read.lookup a.1).isSome then read else a :: read) n rest

/-- A tag from the first letter of its name on. -/
def tag? (text : List Char) : Option (Tag × List Char) :=
  let (name, rest) := text.span fun c ↦ !endsTagName c
  (attributes [] (rest.length + 1) rest).map fun ((attributes, selfClosing), rest) ↦
    (⟨String.ofList (name.map nameChar), attributes, selfClosing⟩, rest)

/-! ### Comments and declarations -/

/-- The hyphens at the end of a comment that is not closed. -/
def openEnd (text : List Char) : Bool :=
  text == ['-'] || text == ['-', '-'] || text == ['-', '-', '!']

/-- The content of a comment and what follows it. -/
def commentRest : List Char → List Char × List Char
  | [] => ([], [])
  | '-' :: '-' :: '>' :: rest => ([], rest)
  | '-' :: '-' :: '!' :: '>' :: rest => ([], rest)
  | c :: rest =>
    if openEnd (c :: rest) then ([], [])
    else let r := commentRest rest; (textChar c :: r.1, r.2)

/-- A comment whose opening has been read. -/
def comment (text : List Char) : Token × List Char :=
  match text with
  | '>' :: rest => (.comment "", rest)
  | '-' :: '>' :: rest => (.comment "", rest)
  | text => let r := commentRest text; (.comment (String.ofList r.1), r.2)

/-- What is no markup though it begins like it: a comment up to the next `>`. -/
def bogusComment (text : List Char) : Token × List Char :=
  let (content, rest) := text.span (· != '>')
  (.comment (String.ofList (content.map textChar)), rest.drop 1)

/-- Whether a text begins with a word, in any case. -/
def startsWith (word : String) (text : List Char) : Bool :=
  Text.lower (String.ofList (text.take word.length)) == word

/-- A document type, its keyword read. -/
def doctype (text : List Char) : Token × List Char :=
  let (content, rest) := text.span (· != '>')
  let name := (content.dropWhile isBlank).takeWhile fun c ↦ !isBlank c
  (.doctype (String.ofList (name.map nameChar)), rest.drop 1)

/-- The content of a section of plain characters and what follows it. -/
def sectionRest : List Char → List Char × List Char
  | [] => ([], [])
  | ']' :: ']' :: '>' :: rest => ([], rest)
  | c :: rest => let r := sectionRest rest; (c :: r.1, r.2)

/-- The mark that opens a section of plain characters. -/
def sectionMark : List Char := "[CDATA[".toList

/-- What follows `<!`. Sections of plain characters are known outside of HTML alone. -/
def declaration (isForeign : Bool) (text : List Char) : List Token × List Char :=
  match text with
  | '-' :: '-' :: rest => let r := comment rest; ([r.1], r.2)
  | text =>
    if startsWith "doctype" text then let r := doctype (text.drop 7); ([r.1], r.2)
    else if isForeign && sectionMark.isPrefixOf text then
      let r := sectionRest (text.drop sectionMark.length)
      (r.1.map .char, r.2)
    else let r := bogusComment text; ([r.1], r.2)

/-! ### Texts of one element -/

/-- Whether a text behind `<` closes the element with a name. -/
def closes (name : String) (text : List Char) : Bool :=
  match text with
  | '/' :: rest =>
    startsWith name rest &&
      match rest.drop name.length with
      | c :: _ => endsTagName c
      | [] => false
  | _ => false

/-- Whether a text behind `<` opens an element with a name. -/
def opens (name : String) (text : List Char) : Bool :=
  startsWith name text &&
    match text.drop name.length with
    | c :: _ => endsTagName c
    | [] => false

/-- How a script is covered: not at all, in a comment, or in a script within one. -/
inductive Cover
  | shown
  | comment
  | inner
  deriving DecidableEq, Repr

/-- A script up to its end tag. Within a comment an inner script has an end tag of its own. -/
def scriptRest (cover : Cover) : List Char → List Char × List Char
  | [] => ([], [])
  | c :: rest =>
    let go (cover : Cover) : List Char × List Char :=
      let r := scriptRest cover rest
      (textChar c :: r.1, r.2)
    if c = '<' then
      match cover with
      | .shown =>
        if closes "script" rest then ([], c :: rest)
        else if ['!', '-', '-'].isPrefixOf rest then go .comment
        else go .shown
      | .comment =>
        if closes "script" rest then ([], c :: rest)
        else if opens "script" rest then go .inner
        else go .comment
      | .inner => go (if closes "script" rest then .comment else .inner)
    else if cover != .shown && c = '-' && ['-', '>'].isPrefixOf rest then go .shown
    else go cover

/-! ### Tokens -/

/-- An end tag, its `</` read. -/
def endTag (text : List Char) : List Token × List Char :=
  match tag? text with
  | some (tag, rest) => ([.endTag tag.name], rest)
  | none => ([], [])

/-- What follows `<` in markup. -/
def angle (isForeign : Bool) (text : List Char) : List Token × List Char :=
  match text with
  | '!' :: rest => declaration isForeign rest
  | '?' :: _ => let r := bogusComment text; ([r.1], r.2)
  | '/' :: c :: rest =>
    if c.isAlpha then endTag (c :: rest)
    else if c = '>' then ([], rest)
    else let r := bogusComment (c :: rest); ([r.1], r.2)
  | c :: _ =>
    if c.isAlpha then
      match tag? text with
      | some (tag, rest) => ([.startTag tag], rest)
      | none => ([], [])
    else ([.char '<'], text)
  | [] => ([.char '<'], [])

/-- A character, or what an ampersand stands for. -/
def charOrReference (c : Char) (rest : List Char) : List Token × List Char :=
  if c = '&' then
    let r := (Reference.decode? false rest).getD (c, rest)
    ([.char r.1], r.2)
  else ([.char c], rest)

/-- The tokens at the front of a text that is not empty, and what follows them. -/
def next (setting : Setting) (isForeign : Bool) (c : Char) (rest : List Char) :
    List Token × List Char :=
  match setting with
  | .markup => if c = '<' then angle isForeign rest else charOrReference c rest
  | .escapable name =>
    if c = '<' && closes name rest then endTag (rest.drop 1) else charOrReference (textChar c) rest
  | .raw name =>
    if c = '<' && closes name rest then endTag (rest.drop 1) else ([.char (textChar c)], rest)
  | .script =>
    if c = '<' && closes "script" rest then endTag (rest.drop 1)
    else let r := scriptRest .shown (c :: rest); (r.1.map .char, r.2)
  | .plain => ([.char (textChar c)], rest)

end Lexer

end StyleCheck.Html
