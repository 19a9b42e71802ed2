import LineEditor.Arguments
import LineEditor.Buffer
import LineEditor.Command
import LineEditor.Config.Basic
import LineEditor.Config.Load
import LineEditor.Config.Notation
import LineEditor.Directory
import LineEditor.Event
import LineEditor.Highlight
import LineEditor.Json.Choice
import LineEditor.Json.Library
import LineEditor.Json.Notation
import LineEditor.Json.Number
import LineEditor.Json.Quoted
import LineEditor.Json.Reader
import LineEditor.Json.Record
import LineEditor.Json.Skip
import LineEditor.Json.Standard
import LineEditor.Json.Values
import LineEditor.Key
import LineEditor.Line
import LineEditor.Main
import LineEditor.Memo
import LineEditor.Number.Decimal
import LineEditor.Number.Notation
import LineEditor.Number.Rounding
import LineEditor.Number.Shortest
import LineEditor.Number.Single
import LineEditor.Observer
import LineEditor.Page.Render
import LineEditor.Page.Wrap
import LineEditor.Proofs.Attachment
import LineEditor.Proofs.Cells
import LineEditor.Proofs.ConfigGrammar
import LineEditor.Proofs.ConfigText
import LineEditor.Proofs.DecimalText
import LineEditor.Proofs.Digits
import LineEditor.Proofs.Document
import LineEditor.Proofs.DoubleReading
import LineEditor.Proofs.Edits
import LineEditor.Proofs.Escapes
import LineEditor.Proofs.Estimates
import LineEditor.Proofs.Exactness
import LineEditor.Proofs.Freshness
import LineEditor.Proofs.Grouping
import LineEditor.Proofs.Gutter
import LineEditor.Proofs.Host
import LineEditor.Proofs.JsonGrammar
import LineEditor.Proofs.JsonLaws
import LineEditor.Proofs.JsonObjects
import LineEditor.Proofs.JsonPassing
import LineEditor.Proofs.JsonReading
import LineEditor.Proofs.JsonRecords
import LineEditor.Proofs.JsonStandard
import LineEditor.Proofs.JsonWriting
import LineEditor.Proofs.KeyNames
import LineEditor.Proofs.Layout
import LineEditor.Proofs.LookBack
import LineEditor.Proofs.Lookahead
import LineEditor.Proofs.MeasuredRows
import LineEditor.Proofs.Munch
import LineEditor.Proofs.Nearest
import LineEditor.Proofs.NearestReading
import LineEditor.Proofs.Neighbours
import LineEditor.Proofs.NumberText
import LineEditor.Proofs.NumericGrammar
import LineEditor.Proofs.Overrides
import LineEditor.Proofs.PartialConfig
import LineEditor.Proofs.Partition
import LineEditor.Proofs.Pieces
import LineEditor.Proofs.PlainPage
import LineEditor.Proofs.ReadBack
import LineEditor.Proofs.Recall
import LineEditor.Proofs.Repaint
import LineEditor.Proofs.Restart
import LineEditor.Proofs.RoundTrip
import LineEditor.Proofs.Rounding
import LineEditor.Proofs.RowNumbers
import LineEditor.Proofs.ScaledReading
import LineEditor.Proofs.Scan
import LineEditor.Proofs.Schedule
import LineEditor.Proofs.Shortest
import LineEditor.Proofs.ShortestDecimal
import LineEditor.Proofs.StringLiterals
import LineEditor.Proofs.TakingBack
import LineEditor.Proofs.Thrift
import LineEditor.Proofs.Utf8
import LineEditor.Proofs.Wrapping
import LineEditor.Rows
import LineEditor.Segment
import LineEditor.Session
import LineEditor.Tag
import LineEditor.Text.Basic
import LineEditor.Text.Blank
import LineEditor.Text.Bytes
import LineEditor.Text.Combining
import LineEditor.Text.Numeral
import LineEditor.Text.Printable
import LineEditor.Text.Quoted
import LineEditor.Theme
import LineEditor.Token.Basic
import LineEditor.Token.Lexeme
import LineEditor.Token.Literal
import LineEditor.Token.Number
import LineEditor.Token.Operator
import LineEditor.Token.Role
import LineEditor.Token.Scan
import LineEditor.Vocabulary
import LineEditor.Window
import LineEditor.Words
