import Signum.Text.Bytes
import Signum.Text.CodePoint
import Signum.Text.Letter
import Signum.Text.Printable
import Signum.Text.Blank
import Signum.Text.Quoted
import Signum.Text.Cluster
import Signum.Number.Binary64
import Signum.Number.Decimal
import Signum.Number.Reading
import Signum.Sign.Atom
import Signum.Sign.Operators
import Signum.Analysis.Environment
import Signum.Syntax.Span
import Signum.Syntax.Tree
import Signum.Failure
import Signum.Syntax.Token
import Signum.Syntax.Lexer
import Signum.Syntax.Parser
import Signum.Syntax.Format
import Signum.Syntax.Walk
import Signum.Check.Scopes
import Signum.Check.Checker
import Signum.Analysis.Interpreter
import Signum.Run.Value
import Signum.Run.Store
import Signum.Run.Input
import Signum.Run.Interpreter
import Signum.Diagnostic
import Signum.Output.Outline
import Signum.Output.Dump
import Signum.Workspace.LogLevel
import Signum.Text.Punctuation
import Signum.Markdown.Entity
import Signum.Markdown.Tree
import Signum.Markdown.Character
import Signum.Markdown.Html
import Signum.Markdown.Tag
import Signum.Markdown.Target
import Signum.Markdown.Mention
import Signum.Markdown.Emphasis
import Signum.Markdown.Inlines
import Signum.Markdown.Line
import Signum.Markdown.Blocks
import Signum.Documentation
import Signum.Report.Recording
import Signum.Report.Basic
import Signum.Report.Summary
import Signum.Report.Page
import Signum.Yaml.Node
import Signum.Yaml.Reader
import Signum.Workspace.Path
import Signum.Workspace.Files
import Signum.Workspace.Manifest
import Signum.Workspace.Basic
import Signum.Command.Flags
import Signum.Command.Invocation
import Signum.Command.Host
import Signum.Command.Ending
import Signum.Command.Perform
import Signum.Main
import Signum.Proofs.Check.Accepted
import Signum.Proofs.Analysis.Effects
import Signum.Proofs.Analysis.Joining
import Signum.Proofs.Analysis.Safety
import Signum.Proofs.Analysis.Settling
import Signum.Proofs.Check.Recorded
import Signum.Proofs.Check.Exact
import Signum.Proofs.Coverage.Events
import Signum.Proofs.Coverage.Expressions
import Signum.Proofs.Coverage.Programs
import Signum.Proofs.Syntax.RoundTrip
import Signum.Proofs.Analysis.Monotone
import Signum.Proofs.Analysis.LeastFixpoint
import Signum.Proofs.Analysis.StopRule
import Signum.Proofs.Scoping.Agreement
import Signum.Proofs.Syntax.Layout
import Signum.Proofs.Analysis.Failing
import Signum.Proofs.Shape
import Signum.Proofs.Analysis.Operations
import Signum.Proofs.Analysis.UpperBounds
import Signum.Proofs.Syntax.Offending
import Signum.Proofs.Syntax.Nesting
import Signum.Proofs.Diagnostics
import Signum.Proofs.Analysis.Reads
import Signum.Proofs.Report.Story
import Signum.Proofs.Scoping.Depths
import Signum.Proofs.Syntax.Parentheses
import Signum.Proofs.Number.Rounding
import Signum.Proofs.Number.Shortest
import Signum.Proofs.Number.Spelling
import Signum.Proofs.Number.Printed
import Signum.Proofs.Text.Mentions
import Signum.Proofs.Report.Publishing
import Signum.Proofs.Documentation.Splitting
import Signum.Proofs.Sign.Precision
import Signum.Proofs.Analysis.Refinement
import Signum.Proofs.Analysis.Views
import Signum.Proofs.Syntax.Progress
