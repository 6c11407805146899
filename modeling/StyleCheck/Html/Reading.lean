import StyleCheck.Event
import StyleCheck.Html.Construction

/-!
# Reading markup

A document from the text of its markup, and the events of reading it.
-/

namespace StyleCheck.Html

/-- The document of a text with an address. -/
def readDocument (url text : String) : Dom.Document := (parse text).toDocument url

/-- The events of reading a document. -/
def readDocumentEvents (url text : String) : List Event :=
  [⟨.debug, .markup, "Parsing HTML document: " ++ url, []⟩,
    ⟨.debug, .markup, "Parsed " ++ toString (readDocument url text).tree.size ++ " nodes", []⟩]

end StyleCheck.Html
