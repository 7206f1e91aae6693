import Transclude.Text.Blank
import Transclude.Text.Bytes
import Transclude.Number.Binary64
import Transclude.Number.Decimal
import Transclude.Value.Basic
import Transclude.Value.Printer
import Transclude.Value.Lookup
import Transclude.Value.Reader
import Transclude.Text.Split
import Transclude.Namespace
import Transclude.Location
import Transclude.Interpolation
import Transclude.Toml.Basic
import Transclude.Toml.Scalar
import Transclude.Toml.Document
import Transclude.Config
import Transclude.Condition.Token
import Transclude.Condition.Error
import Transclude.Condition.Scan
import Transclude.Condition.Basic
import Transclude.Condition.Parse
import Transclude.Condition.Evaluate
import Transclude.Markup.Node
import Transclude.Markup.Error
import Transclude.Markup.Entity
import Transclude.Markup.Attribute
import Transclude.Markup.Event
import Transclude.Markup.Tree
import Transclude.Text.Ranges
import Transclude.Text.Mark
import Transclude.Text.Ignorable
import Transclude.Text.Unprintable
import Transclude.Text.Debug
import Transclude.Text.Width
import Transclude.Warning
import Transclude.Document
import Transclude.Registry
import Transclude.Output.Element
import Transclude.Output.Html
import Transclude.Owner
import Transclude.Script.Basic
import Transclude.Production.Outcome
import Transclude.Production.Producer
import Transclude.Text.Sort
import Transclude.Render
import Transclude.Diagnostic
import Transclude.Environment
import Transclude.Import.Fetch
import Transclude.Import.Report
import Transclude.Import.Progress
import Transclude.FileTree
import Transclude.CommandLine.Options
import Transclude.CommandLine.Run
import Transclude.Main
import Transclude.Proofs.Quotation
import Transclude.Proofs.Substitution
import Transclude.Proofs.Breakout
import Transclude.Proofs.Placeholder
import Transclude.Proofs.Grammar
import Transclude.Proofs.Parsing
import Transclude.Proofs.Escape
import Transclude.Proofs.ReadBack
import Transclude.Proofs.Contents
import Transclude.Proofs.Limit
import Transclude.Proofs.Page
import Transclude.Proofs.Progress
import Transclude.Proofs.Session
import Transclude.Proofs.Join
import Transclude.Proofs.Safety
import Transclude.Proofs.Elements
import Transclude.Proofs.Union
import Transclude.Proofs.References
import Transclude.Proofs.Ending
import Transclude.Proofs.Accounting
import Transclude.Proofs.Order
import Transclude.Proofs.Again
import Transclude.Proofs.Collapse
import Transclude.Proofs.Reserved
import Transclude.Proofs.Comparison
import Transclude.Proofs.Rounding
import Transclude.Proofs.Shortest
import Transclude.Proofs.Numeral
import Transclude.Proofs.Scalar
import Transclude.Proofs.Removal
import Transclude.Proofs.Place
import Transclude.Proofs.Negation
import Transclude.Proofs.Descent
import Transclude.Proofs.Occurrence
import Transclude.Proofs.Coherence
import Transclude.Proofs.Integer
import Transclude.Proofs.Separation
import Transclude.Proofs.Outline
import Transclude.Proofs.Nesting
import Transclude.Proofs.Settling
import Transclude.Proofs.Literal
import Transclude.Proofs.Provenance
import Transclude.Proofs.Finishing
import Transclude.Proofs.Indentation
import Transclude.Proofs.Lexeme
import Transclude.Proofs.Excerpt
import Transclude.Proofs.Overflow
import Transclude.Proofs.Inside
import Transclude.Proofs.Dispatch
