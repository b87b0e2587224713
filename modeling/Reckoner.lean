import Reckoner.Binary64.Arithmetic
import Reckoner.Binary64.Basic
import Reckoner.Binary64.Decimal
import Reckoner.Calculator
import Reckoner.Calendar
import Reckoner.Command.Arguments
import Reckoner.Command.Basic
import Reckoner.Command.Run
import Reckoner.Command.Transcript
import Reckoner.Context
import Reckoner.Directory
import Reckoner.Event
import Reckoner.Fault
import Reckoner.Formats
import Reckoner.Formats.Standard
import Reckoner.FunctionTable
import Reckoner.Item.Bracket
import Reckoner.Item.Literal
import Reckoner.Item.Run
import Reckoner.Item.Sign
import Reckoner.Journal
import Reckoner.Json.Basic
import Reckoner.Json.OfValue
import Reckoner.Json.Read
import Reckoner.Json.Write
import Reckoner.Main
import Reckoner.Node.Compute
import Reckoner.Node.Parse
import Reckoner.Node.Render
import Reckoner.Number
import Reckoner.Numeral
import Reckoner.Numeral.Loose
import Reckoner.Numeral.Whole
import Reckoner.Operator
import Reckoner.Project
import Reckoner.Redaction
import Reckoner.Reference
import Reckoner.Settings
import Reckoner.Text.Basic
import Reckoner.Text.Blank
import Reckoner.Text.Digit
import Reckoner.Text.Inspect
import Reckoner.Text.Lines
import Reckoner.Text.Printable
import Reckoner.Text.Printed
import Reckoner.Text.Quoted
import Reckoner.Text.Utf8
import Reckoner.Text.Utf8.Strict
import Reckoner.Token.Basic
import Reckoner.Token.Scan
import Reckoner.Value.Apply
import Reckoner.Value.Basic
import Reckoner.Value.Equality
import Reckoner.Value.Inspect
import Reckoner.Yaml.Assembly
import Reckoner.Yaml.Cursor
import Reckoner.Yaml.Directive
import Reckoner.Yaml.Document
import Reckoner.Yaml.Fault
import Reckoner.Yaml.Lexeme
import Reckoner.Yaml.Resolve
import Reckoner.Yaml.Scalar
import Reckoner.Yaml.Tree
import Reckoner.Proofs.Binary64.Overflow
import Reckoner.Proofs.Binary64.Rounding
import Reckoner.Proofs.Bracket.Balanced
import Reckoner.Proofs.Bracket.Flatten
import Reckoner.Proofs.Bracket.Frame
import Reckoner.Proofs.Bracket.OuterComma
import Reckoner.Proofs.Bracket.Pairing
import Reckoner.Proofs.Bracket.Placement
import Reckoner.Proofs.Bracket.Reading
import Reckoner.Proofs.Bracket.Renamed
import Reckoner.Proofs.Bracket.Reported
import Reckoner.Proofs.Bracket.Rewriting
import Reckoner.Proofs.Bracket.Standing
import Reckoner.Proofs.Bracket.Unpaired
import Reckoner.Proofs.Bracket.Verdict
import Reckoner.Proofs.Calculator.Answers
import Reckoner.Proofs.Calculator.Bracketed
import Reckoner.Proofs.Calculator.OwnNames
import Reckoner.Proofs.Event.Line
import Reckoner.Proofs.Event.Owed
import Reckoner.Proofs.Event.Plain
import Reckoner.Proofs.Formats
import Reckoner.Proofs.Formats.Standard
import Reckoner.Proofs.FunctionTable
import Reckoner.Proofs.FunctionTable.Suffix
import Reckoner.Proofs.Item.Literal
import Reckoner.Proofs.Item.Placement
import Reckoner.Proofs.Item.Renamed
import Reckoner.Proofs.Item.Sign
import Reckoner.Proofs.Item.Spelling
import Reckoner.Proofs.Journal.Append
import Reckoner.Proofs.Journal.History
import Reckoner.Proofs.Journal.Reading
import Reckoner.Proofs.Journal.Tail
import Reckoner.Proofs.Json.Atom
import Reckoner.Proofs.Json.Canonical
import Reckoner.Proofs.Json.OfValue
import Reckoner.Proofs.Json.Quoted
import Reckoner.Proofs.Json.RoundTrip
import Reckoner.Proofs.Json.Step
import Reckoner.Proofs.Json.Torn
import Reckoner.Proofs.Node.Acceptance
import Reckoner.Proofs.Node.Application
import Reckoner.Proofs.Node.Formed
import Reckoner.Proofs.Node.Grouping
import Reckoner.Proofs.Node.Identical
import Reckoner.Proofs.Node.Literal
import Reckoner.Proofs.Node.Meaning
import Reckoner.Proofs.Node.Operands
import Reckoner.Proofs.Node.Operation
import Reckoner.Proofs.Node.Overlong
import Reckoner.Proofs.Node.Renamed
import Reckoner.Proofs.Node.Reread
import Reckoner.Proofs.Node.Respaced
import Reckoner.Proofs.Node.Respelled
import Reckoner.Proofs.Node.RoundTrip
import Reckoner.Proofs.Node.Sequence
import Reckoner.Proofs.Node.Sound
import Reckoner.Proofs.Node.Spelling
import Reckoner.Proofs.Node.Stage
import Reckoner.Proofs.Node.Values
import Reckoner.Proofs.Node.Writable
import Reckoner.Proofs.Number.Spelling
import Reckoner.Proofs.Numeral.Digits
import Reckoner.Proofs.Numeral.Layout
import Reckoner.Proofs.Numeral.Positional
import Reckoner.Proofs.Operator.Exact
import Reckoner.Proofs.Operator.Overlong
import Reckoner.Proofs.Operator.Quotient
import Reckoner.Proofs.Operator.Refusal
import Reckoner.Proofs.Operator.Symbols
import Reckoner.Proofs.Outcome
import Reckoner.Proofs.Redaction.Levels
import Reckoner.Proofs.Redaction.Secrets
import Reckoner.Proofs.Reference.Binding
import Reckoner.Proofs.Reference.Bracketed
import Reckoner.Proofs.Reference.Image
import Reckoner.Proofs.Reference.Lexemes
import Reckoner.Proofs.Reference.Numbering
import Reckoner.Proofs.Reference.Origin
import Reckoner.Proofs.Run.Flatten
import Reckoner.Proofs.Run.Reducible
import Reckoner.Proofs.Run.Reduction
import Reckoner.Proofs.Run.Segment
import Reckoner.Proofs.Run.Segmented
import Reckoner.Proofs.Run.Separated
import Reckoner.Proofs.Run.TreeShape
import Reckoner.Proofs.Session.History
import Reckoner.Proofs.Session.Independence
import Reckoner.Proofs.Session.Opening
import Reckoner.Proofs.Session.Run
import Reckoner.Proofs.Settings
import Reckoner.Proofs.Text.Hex
import Reckoner.Proofs.Text.Lines
import Reckoner.Proofs.Text.Listed
import Reckoner.Proofs.Text.Order
import Reckoner.Proofs.Text.Quoted
import Reckoner.Proofs.Text.Utf8
import Reckoner.Proofs.Text.Utf8.Strict
import Reckoner.Proofs.Token.Append
import Reckoner.Proofs.Token.Behind
import Reckoner.Proofs.Token.Language
import Reckoner.Proofs.Token.Lexeme
import Reckoner.Proofs.Token.Segmentation
import Reckoner.Proofs.Token.Spacing
import Reckoner.Proofs.Token.Word
import Reckoner.Proofs.Value.Sound
import Reckoner.Proofs.Value.Spelling
