import FormulaMarkup.CommandLine.Arguments
import FormulaMarkup.CommandLine.Run
import FormulaMarkup.Config.Basic
import FormulaMarkup.Config.Datum
import FormulaMarkup.Config.Decode
import FormulaMarkup.Config.Key
import FormulaMarkup.ConfigFile
import FormulaMarkup.Convert
import FormulaMarkup.Decimal.Read
import FormulaMarkup.Decimal.Shortest
import FormulaMarkup.Decimal.Text
import FormulaMarkup.Formula.Atom
import FormulaMarkup.Formula.Command
import FormulaMarkup.Formula.Diagnostic
import FormulaMarkup.Formula.Expression
import FormulaMarkup.Formula.LayOut
import FormulaMarkup.Formula.Reader
import FormulaMarkup.Formula.Reading
import FormulaMarkup.Formula.Scripts
import FormulaMarkup.Formula.Stop
import FormulaMarkup.Formula.Table
import FormulaMarkup.Main
import FormulaMarkup.Markup.Element
import FormulaMarkup.Markup.Presentation
import FormulaMarkup.Node
import FormulaMarkup.Options
import FormulaMarkup.Proofs.CommandLine.Arguments
import FormulaMarkup.Proofs.CommandLine.Precedence
import FormulaMarkup.Proofs.Counter.Agreement
import FormulaMarkup.Proofs.Counter.Nesting
import FormulaMarkup.Proofs.Decimal.Finite
import FormulaMarkup.Proofs.Embedding.Acceptance
import FormulaMarkup.Proofs.Embedding.Calls
import FormulaMarkup.Proofs.Embedding.Options
import FormulaMarkup.Proofs.Embedding.RoundTrip
import FormulaMarkup.Proofs.Formula.Conservation
import FormulaMarkup.Proofs.Formula.DataModel
import FormulaMarkup.Proofs.Formula.Ends
import FormulaMarkup.Proofs.Formula.EnvironmentEnds
import FormulaMarkup.Proofs.Formula.Independence
import FormulaMarkup.Proofs.Formula.Names
import FormulaMarkup.Proofs.Formula.Steps
import FormulaMarkup.Proofs.Formula.Trees
import FormulaMarkup.Proofs.Invariance.Blanks
import FormulaMarkup.Proofs.Invariance.Closers
import FormulaMarkup.Proofs.Isolation.Brackets
import FormulaMarkup.Proofs.Isolation.Content
import FormulaMarkup.Proofs.Isolation.Delimiters
import FormulaMarkup.Proofs.Isolation.Lockstep
import FormulaMarkup.Proofs.Isolation.ScriptRuns
import FormulaMarkup.Proofs.Isolation.Tables
import FormulaMarkup.Proofs.Limit.BraceDepth
import FormulaMarkup.Proofs.Limit.Fallback
import FormulaMarkup.Proofs.Limit.Locality
import FormulaMarkup.Proofs.Markup.Annotation
import FormulaMarkup.Proofs.Markup.Attributes
import FormulaMarkup.Proofs.Markup.Correspondence
import FormulaMarkup.Proofs.Markup.Dependence
import FormulaMarkup.Proofs.Markup.ElementText
import FormulaMarkup.Proofs.Markup.FiniteNumbers
import FormulaMarkup.Proofs.Markup.Indentation
import FormulaMarkup.Proofs.Markup.Parameters
import FormulaMarkup.Proofs.Markup.Reader
import FormulaMarkup.Proofs.Markup.TagSearch
import FormulaMarkup.Proofs.Markup.Texts
import FormulaMarkup.Proofs.Markup.Verbatim
import FormulaMarkup.Proofs.Markup.WellFormed
import FormulaMarkup.Proofs.Node
import FormulaMarkup.Proofs.Notation.Atoms
import FormulaMarkup.Proofs.Notation.Parse
import FormulaMarkup.Proofs.Notation.Reading
import FormulaMarkup.Proofs.Notation.Runs
import FormulaMarkup.Proofs.Notation.Syntax
import FormulaMarkup.Proofs.Notation.Tokens
import FormulaMarkup.Proofs.Source.ByteCursor
import FormulaMarkup.Proofs.Source.Groups
import FormulaMarkup.Proofs.Source.Operations
import FormulaMarkup.Proofs.Source.Tokens
import FormulaMarkup.Proofs.Text.Bytes
import FormulaMarkup.Proofs.Text.Characters
import FormulaMarkup.Proofs.Text.EscapeRuns
import FormulaMarkup.Report
import FormulaMarkup.Source.Cursor
import FormulaMarkup.Source.Environment
import FormulaMarkup.Source.Scan
import FormulaMarkup.Source.Symbol
import FormulaMarkup.Text.Blank
import FormulaMarkup.Text.Escape
import FormulaMarkup.Text.Quoted
import FormulaMarkup.Text.Unprintable
import FormulaMarkup.Text.Width
import FormulaMarkup.Toml.Definitions
import FormulaMarkup.Toml.Document
import FormulaMarkup.Toml.Token
