import StyleCheck.Assertion
import StyleCheck.Checker
import StyleCheck.Css.Color
import StyleCheck.Css.ColorFunction
import StyleCheck.Css.ColorNames
import StyleCheck.Css.Component
import StyleCheck.Css.Error
import StyleCheck.Css.Lexer
import StyleCheck.Css.Progression
import StyleCheck.Css.Property
import StyleCheck.Css.PropertyNames
import StyleCheck.Css.Quantity
import StyleCheck.Css.SelectorList
import StyleCheck.Css.Sheet
import StyleCheck.Css.Spelling
import StyleCheck.Css.Token
import StyleCheck.Css.Value
import StyleCheck.Css.Verbatim
import StyleCheck.Decimal.Double
import StyleCheck.Decimal.Parts
import StyleCheck.Decimal.Shortest
import StyleCheck.Decimal.Single
import StyleCheck.Dom.Document
import StyleCheck.Dom.Form
import StyleCheck.Dom.Matching
import StyleCheck.Dom.Names
import StyleCheck.Dom.Node
import StyleCheck.Dom.Tree
import StyleCheck.Event
import StyleCheck.Html.Builder
import StyleCheck.Html.Construction
import StyleCheck.Html.ElementKinds
import StyleCheck.Html.Lexer
import StyleCheck.Html.Node
import StyleCheck.Html.OpenElements
import StyleCheck.Html.Reading
import StyleCheck.Html.Reference
import StyleCheck.Positions
import StyleCheck.Proofs.Css.Sheet
import StyleCheck.Proofs.Dom.Building
import StyleCheck.Proofs.Dom.Caches
import StyleCheck.Proofs.Dom.Content
import StyleCheck.Proofs.Dom.Edits
import StyleCheck.Proofs.Dom.Forest
import StyleCheck.Proofs.Dom.Interning
import StyleCheck.Proofs.Dom.Locating
import StyleCheck.Proofs.Dom.Lookup
import StyleCheck.Proofs.Dom.Matching
import StyleCheck.Proofs.Dom.Names
import StyleCheck.Proofs.Dom.Naming
import StyleCheck.Proofs.Dom.Order
import StyleCheck.Proofs.Dom.Outside
import StyleCheck.Proofs.Dom.Preorder
import StyleCheck.Proofs.Dom.Refinement
import StyleCheck.Proofs.Dom.Satisfaction
import StyleCheck.Proofs.Dom.Traversal
import StyleCheck.Proofs.Dom.Walk
import StyleCheck.Proofs.Html.Copying
import StyleCheck.Proofs.Selector.Acceptance
import StyleCheck.Proofs.Selector.Backtracking
import StyleCheck.Proofs.Selector.Counting
import StyleCheck.Proofs.Selector.Escapes
import StyleCheck.Proofs.Selector.Faults
import StyleCheck.Proofs.Selector.Grammar
import StyleCheck.Proofs.Selector.Lookahead
import StyleCheck.Proofs.Selector.Printing
import StyleCheck.Proofs.Selector.Reading
import StyleCheck.Proofs.Selector.Recursion
import StyleCheck.Proofs.Selector.Rejection
import StyleCheck.Proofs.Selector.Viability
import StyleCheck.Proofs.Selector.Weighing
import StyleCheck.Proofs.Selector.Wording
import StyleCheck.Proofs.Style.Bounds
import StyleCheck.Proofs.Style.Candidates
import StyleCheck.Proofs.Style.Cascade
import StyleCheck.Proofs.Style.Escapes
import StyleCheck.Proofs.Style.Expectation
import StyleCheck.Proofs.Style.Gathering
import StyleCheck.Proofs.Style.History
import StyleCheck.Proofs.Style.Humps
import StyleCheck.Proofs.Style.Leniency
import StyleCheck.Proofs.Style.Merging
import StyleCheck.Proofs.Style.Offsets
import StyleCheck.Proofs.Style.Pairing
import StyleCheck.Proofs.Style.PropertyName
import StyleCheck.Proofs.Style.Reaching
import StyleCheck.Proofs.Style.Recovery
import StyleCheck.Proofs.Style.Registration
import StyleCheck.Proofs.Style.Reports
import StyleCheck.Proofs.Style.Requests
import StyleCheck.Proofs.Style.Scanning
import StyleCheck.Proofs.Style.Source
import StyleCheck.Proofs.Style.Splitting
import StyleCheck.Proofs.Style.Trimming
import StyleCheck.Selector.Cursor
import StyleCheck.Selector.Error
import StyleCheck.Selector.Parser
import StyleCheck.Selector.Specificity
import StyleCheck.Selector.Syntax
import StyleCheck.Selector.Token
import StyleCheck.Settings.Cursor
import StyleCheck.Settings.Error
import StyleCheck.Settings.Literal
import StyleCheck.Settings.Reading
import StyleCheck.Settings.Writing
import StyleCheck.Style.Declarations
import StyleCheck.Style.Expectation
import StyleCheck.Style.PropertyName
import StyleCheck.Style.Reading
import StyleCheck.Style.Registry
import StyleCheck.Style.Resolver
import StyleCheck.Style.Scanner
import StyleCheck.Style.Stylesheet
import StyleCheck.Style.Written
import StyleCheck.Text.Alphabetic
import StyleCheck.Text.Bytes
import StyleCheck.Text.CodePointSet
import StyleCheck.Text.Hexadecimal
import StyleCheck.Text.Letters
import StyleCheck.Text.Quoted
import StyleCheck.Text.Space
import StyleCheck.Text.Unprintable
