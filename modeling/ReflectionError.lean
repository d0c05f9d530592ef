import ReflectionError.CommandLine.Arguments
import ReflectionError.CommandLine.Parser
import ReflectionError.CommandLine.Run
import ReflectionError.Decimal.Integer
import ReflectionError.Decimal.Shortest
import ReflectionError.Except
import ReflectionError.Json.Error
import ReflectionError.Json.Parser
import ReflectionError.Json.Record
import ReflectionError.Json.Token
import ReflectionError.Json.Value
import ReflectionError.Main
import ReflectionError.Options
import ReflectionError.Reply.Basic
import ReflectionError.Reply.Decode
import ReflectionError.Reply.Encode
import ReflectionError.Reply.Json
import ReflectionError.Reply.Stream
import ReflectionError.Report
import ReflectionError.Session
import ReflectionError.Settings
import ReflectionError.Status
import ReflectionError.Text.Hex
import ReflectionError.Text.Printable
import ReflectionError.Text.Utf8
import ReflectionError.Wire.Cursor
import ReflectionError.Wire.Field
import ReflectionError.Wire.Key
import ReflectionError.Wire.Reader
import ReflectionError.Wire.Varint
import ReflectionError.Proofs.Wire.Cursor
import ReflectionError.Proofs.Wire.Grammar
import ReflectionError.Proofs.Wire.Group
import ReflectionError.Proofs.Wire.Shift
import ReflectionError.Proofs.Wire.Split
import ReflectionError.Proofs.Reply.Fields
import ReflectionError.Proofs.Reply.Unknown
import ReflectionError.Proofs.Text.Utf8
import ReflectionError.Proofs.Reply.RoundTrip
import ReflectionError.Proofs.Session
import ReflectionError.Proofs.Reply.Merge
import ReflectionError.Proofs.Reply.Frames
import ReflectionError.Proofs.Reply.Canonical
import ReflectionError.Proofs.Wire.Cut
import ReflectionError.Proofs.Reply.Relax
import ReflectionError.Proofs.Reply.Sink
import ReflectionError.Proofs.Reply.Truncation
import ReflectionError.Proofs.Decimal.Integer
import ReflectionError.Proofs.Json.Token
import ReflectionError.Proofs.Json.Scalar
import ReflectionError.Proofs.Json.RoundTrip
import ReflectionError.Proofs.Reply.Json
import ReflectionError.Proofs.Reply.Stream
import ReflectionError.Proofs.Text.Hex
import ReflectionError.Proofs.Status
import ReflectionError.Proofs.Report.Wording
import ReflectionError.Proofs.Report
import ReflectionError.Proofs.CommandLine.Flags
import ReflectionError.Proofs.CommandLine.Pipeline
import ReflectionError.Proofs.Wire.Failure
import ReflectionError.Proofs.Reply.Failure
import ReflectionError.Proofs.Report.Listing
import ReflectionError.Proofs.Text.Printed
import ReflectionError.Proofs.Wire.Key
import ReflectionError.Proofs.Report.Agreement
import ReflectionError.Proofs.Wire.Codec
import ReflectionError.Proofs.Wire.Nesting
import ReflectionError.Proofs.Reply.Growth
import ReflectionError.Proofs.Reply.Members
import ReflectionError.Proofs.Reply.Items
import ReflectionError.Proofs.Json.Pretty
import ReflectionError.Proofs.Report.Separation
import ReflectionError.Proofs.Report.FieldLines
import ReflectionError.Proofs.Json.Stack
import ReflectionError.Proofs.Json.Skip
import ReflectionError.Proofs.Json.Lookup
import ReflectionError.Proofs.Json.Members
import ReflectionError.Proofs.Json.Filling
import ReflectionError.Proofs.Json.Literal
import ReflectionError.Proofs.Settings
import ReflectionError.Proofs.CommandLine.Code
import ReflectionError.Proofs.CommandLine.Run
import ReflectionError.Proofs.CommandLine.Operand
import ReflectionError.Proofs.Reply.Status
import ReflectionError.Proofs.CommandLine.Outcome
import ReflectionError.Proofs.Wire.Descent
import ReflectionError.Proofs.Wire.Machine
import ReflectionError.Proofs.Wire.Loop
import ReflectionError.Proofs.Wire.Reader
import ReflectionError.Proofs.Reply.Resources
import ReflectionError.Proofs.Wire.Local
