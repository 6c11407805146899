import StyleCheck.Html.Builder

/-!
# Construction of a tree

What each token does in each part of a document. A rule either settles a token, or goes on to
another part and has the token looked at again.
-/

namespace StyleCheck.Html

/-- What a rule makes of a token. -/
inductive Step
  | done (b : Builder)
  | again (b : Builder)

namespace Construction

open ElementKinds OpenElements

/-- A rule: what a token does to a tree under construction. -/
abbrev Rule := Token → Builder → Step

/-- A token that changes nothing. -/
def ignored (b : Builder) : Step := .done b

/-! ### Before the body -/

/-- Tokens before the first tag. -/
def initial : Rule
  | .char c, b => if Lexer.isBlank c then ignored b else .again (b.enter .beforeHtml)
  | .comment text, b => .done { b with prolog := .comment text :: b.prolog }
  | .doctype name, b =>
    .done { b with prolog := .doctype name :: b.prolog, mode := .beforeHtml,
                   tablesInParagraphs := name != "html" }
  | _, b => .again (b.enter .beforeHtml)

/-- Open the outermost element. -/
def openHtml (attributes : List (String × String)) (b : Builder) : Builder :=
  (b.openAt .around .html "html" attributes).enter .beforeHead

/-- Tokens before the outermost element. -/
def beforeHtml : Rule
  | .doctype _, b => ignored b
  | .comment text, b => .done { b with prolog := .comment text :: b.prolog }
  | .char c, b => if Lexer.isBlank c then ignored b else .again (openHtml [] b)
  | .startTag tag, b =>
    if tag.name = "html" then .done (openHtml tag.attributes b) else .again (openHtml [] b)
  | .endTag name, b =>
    if ["head", "body", "html", "br"].contains name then .again (openHtml [] b) else ignored b
  | .eof, b => .again (openHtml [] b)

/-- Whether a template is open. -/
def inTemplateContent (b : Builder) : Bool := b.opened.any (·.isNamed "template")

/-- A second start tag of the outermost element adds the attributes that are new. -/
def mergeHtml (tag : Tag) (b : Builder) : Step :=
  if inTemplateContent b then ignored b
  else .done (b.modify (modifyOuter (·.addAttributes tag.attributes)))

/-- Open the head. -/
def openHead (attributes : List (String × String)) (b : Builder) : Builder :=
  (b.openAt .around .html "head" attributes).enter .inHead

/-- Tokens before the head. -/
def beforeHead : Rule
  | .doctype _, b => ignored b
  | .comment text, b => .done (b.addComment text)
  | .char c, b => if Lexer.isBlank c then ignored b else .again (openHead [] b)
  | .startTag tag, b =>
    if tag.name = "html" then mergeHtml tag b
    else if tag.name = "head" then .done (openHead tag.attributes b)
    else .again (openHead [] b)
  | .endTag name, b =>
    if ["head", "body", "html", "br"].contains name then .again (openHead [] b) else ignored b
  | .eof, b => .again (openHead [] b)

/-- The mode for the content of what is open, given the mode of the innermost template. -/
def modeOf (template : Mode) : OpenElements → Mode
  | [] => .inBody
  | [_] => .afterHead
  | e :: rest =>
    if e.isAmong cells then .inCell
    else if e.isNamed "tr" then .inRow
    else if e.isAmong rowGroups then .inTableBody
    else if e.isNamed "caption" then .inCaption
    else if e.isNamed "colgroup" then .inColumnGroup
    else if e.isNamed "table" then .inTable
    else if e.isNamed "template" then template
    else if e.isNamed "body" then .inBody
    else if e.isNamed "head" then .inHead
    else modeOf template rest

/-- Go on with the mode for the content of what is open. -/
def resume (b : Builder) : Builder := b.enter (modeOf (b.templates.headD .inTemplate) b.opened)

/-- Open a template. -/
def openTemplate (tag : Tag) (b : Builder) : Builder :=
  { (b.openElement tag).addMarker with
    mode := .inTemplate, templates := .inTemplate :: b.templates }

/-- Start tags of elements that belong into the head. -/
def metadataTag (tag : Tag) (b : Builder) : Step :=
  match tag.name with
  | "title" => .done (b.openText (.escapable "title") tag)
  | "script" => .done (b.openText .script tag)
  | "style" => .done (b.openText (.raw "style") tag)
  | "noframes" => .done (b.openText (.raw "noframes") tag)
  | "template" => .done (openTemplate tag b)
  | _ => .done (b.addVoid tag)

/-- Close the innermost template. -/
def closeTemplate (b : Builder) : Builder :=
  let b := (b.modify (closeThrough ["template"])).clearFormatting
  resume { b with templates := b.templates.drop 1 }

/-- The end tag of a template. -/
def endTemplate (b : Builder) : Step :=
  if inTemplateContent b then .done (closeTemplate b) else ignored b

/-- Close the head. -/
def closeHead (b : Builder) : Builder := b.pop.enter .afterHead

/-- Tokens in the head. -/
def inHead : Rule
  | .doctype _, b => ignored b
  | .comment text, b => .done (b.addComment text)
  | .char c, b => if Lexer.isBlank c then .done (b.addChar c) else .again (closeHead b)
  | .startTag tag, b =>
    if tag.name = "html" then mergeHtml tag b
    else if tag.name = "head" then ignored b
    else if tag.name = "noscript" then .done (b.openText (.raw "noscript") tag)
    else if metadata.contains tag.name then metadataTag tag b
    else .again (closeHead b)
  | .endTag name, b =>
    if name = "head" then .done (closeHead b)
    else if ["body", "html", "br"].contains name then .again (closeHead b)
    else if name = "template" then endTemplate b
    else ignored b
  | .eof, b => .again (closeHead b)

/-- Open the body. -/
def openBody (attributes : List (String × String)) (b : Builder) : Builder :=
  (b.openAt .around .html "body" attributes).enter .inBody

/-- Give the innermost element the closed head as its place. -/
def sendToHead (step : Step) : Step :=
  let send (b : Builder) : Builder := { b with
    opened := match b.opened with
      | e :: rest => { e with home := .head } :: rest
      | [] => [] }
  match step with
  | .done b => .done (send b)
  | .again b => .again (send b)

/-- An element of the head after the head has been closed. -/
def lateMetadata (tag : Tag) (b : Builder) : Step :=
  if void.contains tag.name then .done (b.openAt .head .html tag.name tag.attributes).pop
  else sendToHead (metadataTag tag b)

/-- Tokens between the head and the body. -/
def afterHead : Rule
  | .doctype _, b => ignored b
  | .comment text, b => .done (b.addComment text)
  | .char c, b => if Lexer.isBlank c then .done (b.addChar c) else .again (openBody [] b)
  | .startTag tag, b =>
    if tag.name = "html" then mergeHtml tag b
    else if tag.name = "body" then .done (openBody tag.attributes b)
    else if tag.name = "head" then ignored b
    else if metadata.contains tag.name then lateMetadata tag b
    else .again (openBody [] b)
  | .endTag name, b =>
    if ["body", "html", "br"].contains name then .again (openBody [] b)
    else if name = "template" then endTemplate b
    else ignored b
  | .eof, b => .again (openBody [] b)

/-! ### The body -/

/-- Start tags of list items: an open item of the same list ends. -/
def listItem (names : List String) (tag : Tag) (b : Builder) : Builder :=
  let stops (e : OpenElement) : Bool :=
    e.isAmong names || (e.isSpecial && !e.isAmong ["address", "div", "p"])
  let b := match b.opened.find? stops with
    | some e =>
      if e.isAmong names then b.closeWithImplied [e.name] [e.name] else b
    | none => b
  b.closeParagraph.openElement tag

/-- The attributes of a drawing or a formula. -/
def foreignAttributes (space : Space) (attributes : List (String × String)) :
    List (String × String) :=
  attributes.map fun (name, value) ↦
    let name := match space with
      | .drawing => (drawingAttributes.find? fun a ↦ Text.lower a == name).getD name
      | .formula => if name = "definitionurl" then "definitionURL" else name
      | .html => name
    ((qualifiedAttributes.lookup name).getD name, value)

/-- Open an element of a drawing or a formula. -/
def openForeign (space : Space) (tag : Tag) (b : Builder) : Builder :=
  let b := b.openAt b.home space tag.name (foreignAttributes space tag.attributes)
  if tag.selfClosing then b.pop else b

/-- The start tag of a form. A form within a form means nothing outside of templates. -/
def openForm (tag : Tag) (b : Builder) : Builder :=
  if inTemplateContent b then b.closeParagraph.openElement tag
  else if b.form.isSome then b
  else
    let b := b.closeParagraph
    { b.openElement tag with form := some b.nextKey }

/-- The start tag of a link: one that is still open ends. -/
def openLink (tag : Tag) (b : Builder) : Builder :=
  let b := match b.recent.find? (Formatting.isNamed "a") with
    | some (.element key _ _) =>
      let b := (b.closeFormatting "a").forget key
      if b.isOpen key then b.modify fun es ↦ popThrough (·.key == key) es.length es else b
    | _ => b
  b.reconstruct.openFormatting tag

/-- Start tags of choices within a selection. -/
def openChoice (tag : Tag) (b : Builder) : Builder :=
  let b :=
    if inScope ["select"] b.opened then
      b.modify (closeImplied (if tag.name = "option" then ["optgroup"] else []))
    else if currentIs ["option"] b.opened then b.pop
    else b
  b.reconstruct.openElement tag

/-- Start tags in the body. -/
def startTagInBody (tag : Tag) (b : Builder) : Step :=
  let name := tag.name
  if name = "html" then mergeHtml tag b
  else if metadata.contains name then metadataTag tag b
  else if name = "body" then
    if inTemplateContent b then ignored b
    else .done (b.modify (modifyBody (·.addAttributes tag.attributes)))
  else if name = "frameset" || tableParts.contains name then ignored b
  else if blocks.contains name then .done (b.closeParagraph.openElement tag)
  else if headings.contains name then
    let b := b.closeParagraph
    .done ((if currentIs headings b.opened then b.pop else b).openElement tag)
  else if name = "pre" || name = "listing" then
    .done { b.closeParagraph.openElement tag with skipLineFeed := true }
  else if name = "form" then .done (openForm tag b)
  else if name = "li" then .done (listItem ["li"] tag b)
  else if name = "dd" || name = "dt" then .done (listItem ["dd", "dt"] tag b)
  else if name = "plaintext" then
    .done { b.closeParagraph.openElement tag with setting := .plain }
  else if name = "button" then
    let b := if inScope ["button"] b.opened then b.closeWithImplied [] ["button"] else b
    .done (b.reconstruct.openElement tag)
  else if name = "a" then .done (openLink tag b)
  else if name = "nobr" then
    let b := b.reconstruct
    let b := if inScope ["nobr"] b.opened then (b.closeFormatting "nobr").reconstruct else b
    .done (b.openFormatting tag)
  else if formatting.contains name then .done (b.reconstruct.openFormatting tag)
  else if objects.contains name then .done (b.reconstruct.openElement tag).addMarker
  else if name = "table" then
    let b := if b.tablesInParagraphs then b else b.closeParagraph
    .done ((b.openElement tag).enter .inTable)
  else if name = "image" then .done (b.reconstruct.addVoid { tag with name := "img" })
  else if name = "hr" then
    let b := b.closeParagraph
    let b := if inScope ["select"] b.opened then b.modify (closeImplied []) else b
    .done (b.addVoid tag)
  else if name = "input" then
    let b := if inScope ["select"] b.opened then b.modify (closeThrough ["select"]) else b
    .done (b.reconstruct.addVoid tag)
  else if ["param", "source", "track"].contains name then .done (b.addVoid tag)
  else if void.contains name then .done (b.reconstruct.addVoid tag)
  else if name = "textarea" then
    .done { b.openText (.escapable "textarea") tag with skipLineFeed := true }
  else if name = "xmp" then .done (b.closeParagraph.reconstruct.openText (.raw "xmp") tag)
  else if ["iframe", "noembed", "noscript"].contains name then
    .done (b.openText (.raw name) tag)
  else if name = "select" then
    if inScope ["select"] b.opened then .done (b.modify (closeThrough ["select"]))
    else .done (b.reconstruct.openElement tag)
  else if name = "option" || name = "optgroup" then .done (openChoice tag b)
  else if ["rb", "rtc"].contains name then
    let b := if inScope ["ruby"] b.opened then b.modify (closeImplied []) else b
    .done (b.openElement tag)
  else if ["rp", "rt"].contains name then
    let b := if inScope ["ruby"] b.opened then b.modify (closeImplied ["rtc"]) else b
    .done (b.openElement tag)
  else if name = "math" then .done (openForeign .formula tag b.reconstruct)
  else if name = "svg" then .done (openForeign .drawing tag b.reconstruct)
  else .done (b.reconstruct.openElement tag)

/-- The end tag of a form. -/
def closeForm (b : Builder) : Builder :=
  if inTemplateContent b then
    if inScope ["form"] b.opened then b.closeWithImplied [] ["form"] else b
  else match b.form with
  | none => b
  | some key =>
    let b := { b with form := none }
    if inView scopeEnds (·.key == key) b.opened then
      b.modify fun es ↦
        let es := closeImplied [] es
        popThrough (·.key == key) es.length es
    else b

/-- End tags in the body. -/
def endTagInBody (name : String) (b : Builder) : Step :=
  if name = "template" then endTemplate b
  else if name = "body" then
    if inScope ["body"] b.opened then .done (b.enter .afterBody) else ignored b
  else if name = "html" then
    if inScope ["body"] b.opened then .again (b.enter .afterBody) else ignored b
  else if closableBlocks.contains name then
    if inScope [name] b.opened then .done (b.closeWithImplied [] [name]) else ignored b
  else if name = "form" then .done (closeForm b)
  else if name = "p" then
    .done (if b.inParagraphScope ["p"] then b.closeParagraph else (b.openNamed "p").pop)
  else if name = "li" then
    if inView listScopeEnds (·.isNamed "li") b.opened then
      .done (b.closeWithImplied ["li"] ["li"])
    else ignored b
  else if name = "dd" || name = "dt" then
    if inScope [name] b.opened then .done (b.closeWithImplied [name] [name]) else ignored b
  else if headings.contains name then
    if inScope headings b.opened then .done (b.closeWithImplied [] headings) else ignored b
  else if formatting.contains name then .done (b.closeFormatting name)
  else if objects.contains name then
    if inScope [name] b.opened then .done (b.closeWithImplied [] [name]).clearFormatting
    else ignored b
  else if name = "br" then .done (b.reconstruct.addVoid ⟨"br", [], false⟩)
  else .done (b.closeOther name)

/-- The end of the text in a template closes it. -/
def endInTemplate (b : Builder) : Step :=
  if inTemplateContent b then .again (closeTemplate b) else ignored b

/-- Tokens in the body. -/
def inBody : Rule
  | .doctype _, b => ignored b
  | .comment text, b => .done (b.addComment text)
  | .char c, b => if c = '\x00' then ignored b else .done (b.reconstruct.addChar c)
  | .startTag tag, b => startTagInBody tag b
  | .endTag name, b => endTagInBody name b
  | .eof, b => endInTemplate b

/-- Go on with the content of a template in another mode. -/
def changeTemplate (mode : Mode) (b : Builder) : Builder :=
  { b with mode, templates := mode :: b.templates.drop 1 }

/-- Tokens in a template. The first tag tells in which mode its content is read. -/
def inTemplate : Rule
  | .startTag tag, b =>
    let name := tag.name
    if metadata.contains name then metadataTag tag b
    else
      let mode : Mode :=
        if name = "caption" || name = "colgroup" || rowGroups.contains name then .inTable
        else if name = "col" then .inColumnGroup
        else if name = "tr" then .inTableBody
        else if cells.contains name then .inRow
        else .inBody
      .again (changeTemplate mode b)
  | .endTag name, b => if name = "template" then endTemplate b else ignored b
  | .eof, b => endInTemplate b
  | token, b => inBody token b

/-- Tokens in an element that holds text alone. -/
def inText : Rule
  | .char c, b => .done (b.addChar c)
  | .endTag _, b => .done { b.pop with mode := b.returnTo, setting := .markup }
  | .eof, b => .again { b.pop with mode := b.returnTo, setting := .markup }
  | _, b => ignored b

/-! ### Tables -/

/-- Treat a token like one in the body, but put new nodes in front of the table. -/
def fostered : Rule := fun token b ↦
  match inBody token { b with fostering := true } with
  | .done b => .done { b with fostering := false }
  | .again b => .again { b with fostering := false }

/-- Close a table. -/
def closeTable (b : Builder) : Builder :=
  resume (b.modify (closeThrough ["table"]))

/-- Open a part of a table that goes on in a mode, with what does not belong there closed. -/
def openPart (around : List String) (mode : Mode) (tag : Tag) (b : Builder) : Builder :=
  ((b.modify (closeTo (around ++ ["template", "html"]))).openElement tag).enter mode

/-- A part of a table without attributes. -/
def partTag (name : String) : Tag := ⟨name, [], false⟩

/-- Whether a field takes input that is not shown. -/
def isHiddenInput (tag : Tag) : Bool :=
  match tag.attributes.lookup "type" with
  | some kind => Text.lower kind == "hidden"
  | none => false

/-- Tokens in a table. -/
def inTable : Rule
  | .char c, b =>
    if currentIs textless b.opened then
      .again { b with returnTo := b.mode, mode := .inTableText, tableText := [] }
    else fostered (.char c) b
  | .comment text, b => .done (b.addComment text)
  | .doctype _, b => ignored b
  | .startTag tag, b =>
    let name := tag.name
    if name = "caption" then .done (openPart ["table"] .inCaption tag b.addMarker)
    else if name = "colgroup" then .done (openPart ["table"] .inColumnGroup tag b)
    else if name = "col" then
      .again (openPart ["table"] .inColumnGroup (partTag "colgroup") b)
    else if rowGroups.contains name then .done (openPart ["table"] .inTableBody tag b)
    else if cells.contains name || name = "tr" then
      .again (openPart ["table"] .inTableBody (partTag "tbody") b)
    else if name = "table" then
      if inTableScope ["table"] b.opened then .again (closeTable b) else ignored b
    else if ["style", "script", "template"].contains name then metadataTag tag b
    else if name = "input" && isHiddenInput tag then .done (b.addVoid tag)
    else if name = "form" then
      if b.form.isSome || inTemplateContent b then ignored b
      else .done { b.openElement tag with form := some b.nextKey }.pop
    else fostered (.startTag tag) b
  | .endTag name, b =>
    if name = "table" then
      if inTableScope ["table"] b.opened then .done (closeTable b) else ignored b
    else if tableParts.contains name || name = "body" || name = "html" then ignored b
    else if name = "template" then endTemplate b
    else fostered (.endTag name) b
  | .eof, b => inBody .eof b

/-- Add the characters collected in a table: blanks alone stay in it. -/
def flushTableText (b : Builder) : Builder :=
  let text := b.tableText.reverse
  let b := { b with tableText := [], mode := b.returnTo }
  if text.all Lexer.isBlank then text.foldl (fun b c ↦ b.addChar c) b
  else
    let b := text.foldl (fun b c ↦ b.reconstruct.addChar c) { b with fostering := true }
    { b with fostering := false }

/-- Characters in a table are collected up to the next token of another kind. -/
def inTableText : Rule
  | .char c, b =>
    if c = '\x00' then ignored b else .done { b with tableText := c :: b.tableText }
  | _, b => .again (flushTableText b)

/-- Close the caption of a table, if there is one. -/
def closeCaption (b : Builder) : Option Builder :=
  if inTableScope ["caption"] b.opened then
    some ((b.closeWithImplied [] ["caption"]).clearFormatting.enter .inTable)
  else none

/-- What is left of a step that has to be possible first. -/
def againIf (b : Builder) : Option Builder → Step
  | some closed => .again closed
  | none => ignored b

/-- Tokens in the caption of a table. -/
def inCaption : Rule
  | .startTag tag, b =>
    if tableParts.contains tag.name && !(["frame", "head"].contains tag.name) then
      againIf b (closeCaption b)
    else inBody (.startTag tag) b
  | .endTag name, b =>
    if name = "caption" then .done ((closeCaption b).getD b)
    else if name = "table" then againIf b (closeCaption b)
    else if (tableParts.contains name && !(["frame", "head"].contains name)) || name = "body" ||
        name = "html" then
      ignored b
    else inBody (.endTag name) b
  | token, b => inBody token b

/-- Close the group of columns, if one is innermost. -/
def closeColumnGroup (b : Builder) : Option Builder :=
  if currentIs ["colgroup"] b.opened then some (b.pop.enter .inTable) else none

/-- Tokens in a group of columns. -/
def inColumnGroup : Rule
  | .char c, b =>
    if Lexer.isBlank c then .done (b.addChar c) else againIf b (closeColumnGroup b)
  | .comment text, b => .done (b.addComment text)
  | .doctype _, b => ignored b
  | .startTag tag, b =>
    if tag.name = "html" then mergeHtml tag b
    else if tag.name = "col" then .done (b.addVoid tag)
    else if tag.name = "template" then metadataTag tag b
    else againIf b (closeColumnGroup b)
  | .endTag name, b =>
    if name = "colgroup" then .done ((closeColumnGroup b).getD b)
    else if name = "col" then ignored b
    else if name = "template" then endTemplate b
    else againIf b (closeColumnGroup b)
  | .eof, b => inBody .eof b

/-- Close the group of rows, if there is one. -/
def closeRowGroup (b : Builder) : Option Builder :=
  if inTableScope rowGroups b.opened then
    some (((b.modify (closeTo (rowGroups ++ ["template", "html"]))).pop).enter .inTable)
  else none

/-- Tokens in a group of rows. -/
def inTableBody : Rule
  | .startTag tag, b =>
    let name := tag.name
    if name = "tr" then .done (openPart rowGroups .inRow tag b)
    else if cells.contains name then .again (openPart rowGroups .inRow (partTag "tr") b)
    else if (["caption", "col", "colgroup"] ++ rowGroups).contains name then
      againIf b (closeRowGroup b)
    else inTable (.startTag tag) b
  | .endTag name, b =>
    if rowGroups.contains name then
      if inTableScope [name] b.opened then .done ((closeRowGroup b).getD b) else ignored b
    else if name = "table" then againIf b (closeRowGroup b)
    else if ["body", "caption", "col", "colgroup", "html", "td", "th", "tr"].contains name then
      ignored b
    else inTable (.endTag name) b
  | token, b => inTable token b

/-- Close the row, if there is one. -/
def closeRow (b : Builder) : Option Builder :=
  if inTableScope ["tr"] b.opened then
    some (((b.modify (closeTo ["tr", "template", "html"])).pop).enter .inTableBody)
  else none

/-- Tokens in a row. -/
def inRow : Rule
  | .startTag tag, b =>
    let name := tag.name
    if cells.contains name then .done (openPart ["tr"] .inCell tag b).addMarker
    else if (["caption", "col", "colgroup", "tr"] ++ rowGroups).contains name then
      againIf b (closeRow b)
    else inTable (.startTag tag) b
  | .endTag name, b =>
    if name = "tr" then .done ((closeRow b).getD b)
    else if name = "table" then againIf b (closeRow b)
    else if rowGroups.contains name then
      if inTableScope [name] b.opened then againIf b (closeRow b) else ignored b
    else if ["body", "caption", "col", "colgroup", "html", "td", "th"].contains name then ignored b
    else inTable (.endTag name) b
  | token, b => inTable token b

/-- Close the cell of one of some names. -/
def closeCell (names : List String) (b : Builder) : Builder :=
  (b.closeWithImplied [] names).clearFormatting.enter .inRow

/-- Tokens in a cell. -/
def inCell : Rule
  | .startTag tag, b =>
    if tableParts.contains tag.name && !(["frame", "head"].contains tag.name) then
      if inTableScope cells b.opened then .again (closeCell cells b) else ignored b
    else inBody (.startTag tag) b
  | .endTag name, b =>
    if cells.contains name then
      if inTableScope [name] b.opened then .done (closeCell [name] b) else ignored b
    else if ["body", "caption", "col", "colgroup", "html"].contains name then ignored b
    else if (["table", "tr"] ++ rowGroups).contains name then
      if inTableScope [name] b.opened then .again (closeCell cells b) else ignored b
    else inBody (.endTag name) b
  | token, b => inBody token b

/-! ### After the body -/

/-- Tokens after the body. -/
def afterBody : Rule
  | .char c, b => if Lexer.isBlank c then inBody (.char c) b else .again (b.enter .inBody)
  | .comment text, b => .done (b.addBehindBody (.comment text))
  | .doctype _, b => ignored b
  | .startTag tag, b =>
    if tag.name = "html" then mergeHtml tag b else .again (b.enter .inBody)
  | .endTag name, b =>
    if name = "html" then .done (b.enter .afterAfterBody) else .again (b.enter .inBody)
  | .eof, b => ignored b

/-- Tokens after the outermost element. -/
def afterAfterBody : Rule
  | .comment text, b => .done { b with epilog := .comment text :: b.epilog }
  | .doctype _, b => ignored b
  | .char c, b => if Lexer.isBlank c then inBody (.char c) b else .again (b.enter .inBody)
  | .startTag tag, b =>
    if tag.name = "html" then mergeHtml tag b else .again (b.enter .inBody)
  | .endTag _, b => .again (b.enter .inBody)
  | .eof, b => ignored b

/-! ### Drawings and formulas -/

/-- The rule of a mode. -/
def rule : Mode → Rule
  | .initial => initial
  | .beforeHtml => beforeHtml
  | .beforeHead => beforeHead
  | .inHead => inHead
  | .afterHead => afterHead
  | .inBody => inBody
  | .text => inText
  | .inTable => inTable
  | .inTableText => inTableText
  | .inCaption => inCaption
  | .inColumnGroup => inColumnGroup
  | .inTableBody => inTableBody
  | .inRow => inRow
  | .inCell => inCell
  | .inTemplate => inTemplate
  | .afterBody => afterBody
  | .afterAfterBody => afterAfterBody

/-- Whether the rules of HTML apply to a token in an element. -/
def takesHtml (e : OpenElement) : Token → Bool
  | .startTag tag =>
    e.space == .html || e.hosts ||
      (e.isFormulaText && !(["mglyph", "malignmark"].contains tag.name)) ||
      (e.space == .formula && e.name == "annotation-xml" && tag.name == "svg")
  | .char _ => e.space == .html || e.hosts || e.isFormulaText
  | .eof => true
  | _ => e.space == .html

/-- Whether a start tag of HTML ends a drawing or a formula. -/
def breaksOut (tag : Tag) : Bool :=
  breakouts.contains tag.name ||
    (tag.name == "font" && tag.attributes.any fun a ↦ ["color", "face", "size"].contains a.1)

/-- Close a drawing or a formula up to an element that may hold HTML. -/
def leaveForeign (b : Builder) : Builder :=
  b.modify fun es ↦ popTo (fun e ↦ e.space == .html || e.hosts || e.isFormulaText) es.length es

/-- Close the element of a drawing or a formula with a name, if it is not within HTML. -/
def closeForeign (name : String) (b : Builder) : Option Builder :=
  match b.opened.find? fun e ↦ e.space == .html || Text.lower e.name == name with
  | some e =>
    if e.space == .html then none
    else some (b.modify fun es ↦ popThrough (·.key == e.key) es.length es)
  | none => none

/-- Tokens in a drawing or a formula. -/
def inForeign (space : Space) : Rule
  | .char c, b => .done (b.addChar (Lexer.textChar c))
  | .comment text, b => .done (b.addComment text)
  | .doctype _, b => ignored b
  | .startTag tag, b =>
    if breaksOut tag then .again (leaveForeign b) else .done (openForeign space tag b)
  | .endTag name, b =>
    if name = "br" || name = "p" then rule b.mode (.endTag name) (leaveForeign b)
    else
      match closeForeign name b with
      | some b => .done b
      | none => rule b.mode (.endTag name) b
  | .eof, b => rule b.mode .eof b

/-! ### All tokens -/

/-- The rule for what is open. -/
def current : Rule := fun token b ↦
  match b.opened with
  | e :: _ => if takesHtml e token then rule b.mode token b else inForeign e.space token b
  | [] => rule b.mode token b

/-- Look at a token until it is settled, at most `n` times. -/
def settle : Nat → Token → Builder → Builder
  | 0, _, b => b
  | n + 1, token, b =>
    match current token b with
    | .done b => b
    | .again b => settle n token b

/-- Take one token. A line feed at the front of certain elements is dropped. -/
def take (b : Builder) (token : Token) : Builder :=
  let skip := b.skipLineFeed && token == .char '\n'
  let b := { b with skipLineFeed := false }
  if skip then b else settle (b.opened.length + 16) token b

/-- Whether the innermost element is no element of HTML. -/
def isForeign (b : Builder) : Bool :=
  match b.opened with
  | e :: _ => e.space != .html
  | [] => false

/-- Take the tokens of a text of at most `n` characters. -/
def run : Nat → List Char → Builder → Builder
  | 0, _, b => b
  | _, [], b => b
  | n + 1, c :: rest, b =>
    let (tokens, rest) := Lexer.next b.setting (isForeign b) c rest
    run n rest (tokens.foldl take b)

end Construction

/-- The tree that a text stands for. -/
def parse (text : String) : Node :=
  let chars := Lexer.prepare text
  (Construction.take (Construction.run chars.length chars .start) .eof).finish

end StyleCheck.Html
