import QLanguage.CommandLine.Options
import QLanguage.CommandLine.Run
import QLanguage.Decimal.Binary64
import QLanguage.Decimal.Layout
import QLanguage.Decimal.Numeral
import QLanguage.Decimal.Shortest
import QLanguage.Diagnostic
import QLanguage.Evaluation.Arena
import QLanguage.Evaluation.Environment
import QLanguage.Evaluation.Error
import QLanguage.Evaluation.Machine
import QLanguage.Files
import QLanguage.Main
import QLanguage.Prompt.Input
import QLanguage.Prompt.Shell
import QLanguage.Proofs.Colours.CommandLines
import QLanguage.Proofs.Colours.Escapes
import QLanguage.Proofs.Colours.Presentation
import QLanguage.Proofs.Colours.Programs
import QLanguage.Proofs.Colours.Reports
import QLanguage.Proofs.Colours.Sessions
import QLanguage.Proofs.CommandLine.Attribution
import QLanguage.Proofs.CommandLine.Files
import QLanguage.Proofs.CommandLine.Independence
import QLanguage.Proofs.Cutting.Gaps
import QLanguage.Proofs.Cutting.Joining
import QLanguage.Proofs.Cutting.Languages
import QLanguage.Proofs.Cutting.Lexers
import QLanguage.Proofs.Cutting.Scanning
import QLanguage.Proofs.Cutting.Tiling
import QLanguage.Proofs.Cutting.Values
import QLanguage.Proofs.Debug.Printable
import QLanguage.Proofs.Debug.Unambiguous
import QLanguage.Proofs.Evaluation.Again
import QLanguage.Proofs.Evaluation.Aliases
import QLanguage.Proofs.Evaluation.Arena
import QLanguage.Proofs.Evaluation.Demands
import QLanguage.Proofs.Evaluation.Dispatch
import QLanguage.Proofs.Evaluation.Frame
import QLanguage.Proofs.Evaluation.Loading
import QLanguage.Proofs.Evaluation.Logged
import QLanguage.Proofs.Evaluation.Once
import QLanguage.Proofs.Evaluation.Order
import QLanguage.Proofs.Evaluation.Output
import QLanguage.Proofs.Evaluation.Parallel
import QLanguage.Proofs.Evaluation.Pieces
import QLanguage.Proofs.Evaluation.Record
import QLanguage.Proofs.Evaluation.Runs
import QLanguage.Proofs.Evaluation.Scopes
import QLanguage.Proofs.Evaluation.Unreachable
import QLanguage.Proofs.Evaluation.Values
import QLanguage.Proofs.Evaluation.Visits
import QLanguage.Proofs.Grammar
import QLanguage.Proofs.Lexing
import QLanguage.Proofs.Prompt.Brackets
import QLanguage.Proofs.Prompt.Commands
import QLanguage.Proofs.Prompt.Continuation
import QLanguage.Proofs.Prompt.Effects
import QLanguage.Proofs.Prompt.Stripping
import QLanguage.Proofs.Prompt.Survival
import QLanguage.Proofs.Reading.Complete
import QLanguage.Proofs.Reading.Composition
import QLanguage.Proofs.Reading.Cursor
import QLanguage.Proofs.Reading.Ending
import QLanguage.Proofs.Reading.Enough
import QLanguage.Proofs.Reading.FirstFault
import QLanguage.Proofs.Reading.Gaps
import QLanguage.Proofs.Reading.Leaves
import QLanguage.Proofs.Reading.Levels
import QLanguage.Proofs.Reading.Lookahead
import QLanguage.Proofs.Reading.Loops
import QLanguage.Proofs.Reading.Module
import QLanguage.Proofs.Reading.Named
import QLanguage.Proofs.Reading.Parallel
import QLanguage.Proofs.Reading.Places
import QLanguage.Proofs.Reading.Recovery
import QLanguage.Proofs.Reading.Sound
import QLanguage.Proofs.Reading.SourceOrder
import QLanguage.Proofs.Reading.Viable
import QLanguage.Proofs.Report.Handling
import QLanguage.Proofs.Report.Location
import QLanguage.Proofs.Report.Messages
import QLanguage.Proofs.Report.Quotation
import QLanguage.Proofs.RoundTrip
import QLanguage.Proofs.Rounding
import QLanguage.Proofs.Session.Classification
import QLanguage.Proofs.Session.Faulty
import QLanguage.Proofs.Session.Lines
import QLanguage.Proofs.Session.Runs
import QLanguage.Proofs.Spelling
import QLanguage.Proofs.Steps
import QLanguage.Proofs.Tables
import QLanguage.Proofs.Templates
import QLanguage.Proofs.WellFormed
import QLanguage.Reading.Expression
import QLanguage.Reading.Module
import QLanguage.Report.Fault
import QLanguage.Report.Location
import QLanguage.Report.Reporter
import QLanguage.Session.Basic
import QLanguage.Session.Line
import QLanguage.Session.Program
import QLanguage.Step
import QLanguage.Table
import QLanguage.Text.Blank
import QLanguage.Text.CharClass
import QLanguage.Text.Digit
import QLanguage.Text.Format
import QLanguage.Text.Identifier
import QLanguage.Text.Item
import QLanguage.Text.Joined
import QLanguage.Text.Lines
import QLanguage.Text.Paint
import QLanguage.Text.Printable
import QLanguage.Text.Quoted
import QLanguage.Text.Template
import QLanguage.Token.Basic
import QLanguage.Token.Cursor
import QLanguage.Token.Cut
import QLanguage.Token.Scanner
import QLanguage.Tree.Basic
import QLanguage.Tree.Debug
import QLanguage.Tree.Source
