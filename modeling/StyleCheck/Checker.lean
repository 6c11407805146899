import StyleCheck.Assertion
import StyleCheck.Dom.Matching
import StyleCheck.Settings.Reading
import StyleCheck.Style.Reading

/-!
# Checker

The settings and the registered sheets of one run: documents are loaded, assertions are made, and
the sheets are forgotten before the next run.
-/

namespace StyleCheck

/-- Why a request fails. -/
inductive CheckError
  | css (e : Css.CssError)
  | selector (e : Selector.SyntaxError)
  | resolve (e : Style.ResolveError)
  | settings (e : Settings.SettingsError)

namespace CheckError

/-- The kind of an error. -/
def kind : CheckError → String
  | .css _ => "Css"
  | .selector _ => "Selector"
  | .resolve _ => "Resolve"
  | .settings _ => "Config"

/-- The error in words. -/
def message : CheckError → String
  | .css e => e.message
  | .selector e => e.message
  | .resolve e => "[toHaveCssStyle] " ++ e.message
  | .settings e => e.message

end CheckError

/-- What is asked of a tree about its nodes. -/
def Dom.Tree.host (t : Dom.Tree) : Style.Host Dom.NodeId := ⟨t.isElement, t.matchesText, t.describe⟩

/-- The first element of a document that matches a selector text. -/
def Dom.Document.find (d : Dom.Document) (selector : String) :
    Except Selector.SyntaxError (Option Dom.NodeId) :=
  (Selector.parse selector).map fun s ↦
    (d.tree.descendants Dom.Tree.root).find? fun id ↦ d.tree.matchesSelector id s

/-- The settings and the registered sheets. -/
structure Checker where
  settings : Settings
  registry : Style.Registry

namespace Checker

/-- A checker without sheets. -/
def ofSettings (settings : Settings) : Checker := ⟨settings, .empty⟩

/-- A checker without sheets, with the settings of a text. -/
def ofText (text : String) : Except CheckError Checker :=
  ((Settings.read text).map ofSettings).mapError .settings

/-- Register a sheet, unless its id is registered; the answer says whether it was new. -/
def addSheet (c : Checker) (id css : String) : Except CheckError (Bool × Checker) :=
  match c.registry.add Style.Stylesheet.read id css with
  | .ok (isNew, registry) => .ok (isNew, { c with registry })
  | .error e => .error (.css e)

/-- The module sheets that a document embeds. -/
def sources (c : Checker) (d : Dom.Document) : List Dom.StyleSource :=
  d.styleSources c.settings.styleSourceAttribute

/-- Register the module sheets that a document embeds: the number of new ones, or the error of the
first that cannot be read. Those before it stay registered. -/
def load (c : Checker) (d : Dom.Document) : Except CheckError Nat × Checker :=
  let (added, registry) := c.registry.addSources Style.Stylesheet.read (c.sources d)
  (added.mapError .css, { c with registry })

/-- Forget every sheet. -/
def reset (c : Checker) : Checker := { c with registry := .empty }

/-- Assert that an element has the expected styles. -/
def check {ν : Type} (c : Checker) (host : Style.Host ν) (element : ν)
    (expected : Style.Expectation) : Except CheckError Assertion :=
  match Style.resolve Css.canonicalValue c.settings.options host element c.registry expected with
  | .ok outcome => .ok ⟨outcome.matchedAll, host.describe element, expected, outcome.unmatched⟩
  | .error e => .error (.resolve e)

/-! ### Events -/

/-- The event of a loaded document. -/
def loadedEvent (found added : Nat) : Event where
  level := .debug
  reporter := .context
  message := "Loaded document style sources"
  details := [("found", .count found), ("added", .count added)]

/-- The events of loading a document. -/
def loadEvents (c : Checker) (d : Dom.Document) : List Event :=
  c.registry.addSourcesEvents (c.sources d) ++
    match (c.load d).1 with
    | .ok added => [loadedEvent (c.sources d).length added]
    | .error _ => []

/-- The events of an assertion; `asked` gives those of matching one selector text. -/
def checkEvents {ν : Type} (c : Checker) (host : Style.Host ν) (asked : String → List Event)
    (element : ν) (expected : Style.Expectation) : List Event :=
  Style.resolveEvents Css.canonicalValue c.settings.options host asked element c.registry expected

end Checker

end StyleCheck
