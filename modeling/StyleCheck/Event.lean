/-!
# Diagnostic events

What the checker reports about its own work, one value per report, for a host that keeps a log.
-/

namespace StyleCheck

/-- How detailed an event is. -/
inductive Level
  | trace
  | debug
  deriving DecidableEq, Repr

/-- The level's name in a log. -/
def Level.name : Level → String
  | .trace => "TRACE"
  | .debug => "DEBUG"

/-- The part of the checker that reports. -/
inductive Reporter
  | selector
  | selectorParser
  | matching
  | markup
  | styleRules
  | stylesheet
  | registry
  | cascade
  | context
  deriving DecidableEq, Repr

/-- The reporter's name in a log. -/
def Reporter.name : Reporter → String
  | .selector => "modcss_selector"
  | .selectorParser => "modcss_selector::parser"
  | .matching => "modcss_dom::query"
  | .markup => "modcss_html::parser"
  | .styleRules => "modcss_style::parser"
  | .stylesheet => "modcss_style::stylesheet"
  | .registry => "modcss_style::registry"
  | .cascade => "modcss_style::cascade"
  | .context => "modcss::context"

/-- A value attached to an event. -/
inductive Detail
  | text (value : String)
  | count (value : Nat)
  deriving DecidableEq, Repr

/-- One report: a message and named details. -/
structure Event where
  level : Level
  reporter : Reporter
  message : String
  details : List (String × Detail)
  deriving DecidableEq, Repr

end StyleCheck
