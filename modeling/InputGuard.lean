import InputGuard.Config.Codec
import InputGuard.Main
import InputGuard.Rule.Codec
import InputGuard.Toml.Writer
import InputGuard.Vtl.Reader
import InputGuard.Proofs.Vtl.Piece
import InputGuard.Proofs.Vtl.Literal
import InputGuard.Proofs.Vtl.Statement
import InputGuard.Proofs.Snippet.Template
import InputGuard.Proofs.Vtl.View
import InputGuard.Proofs.Rule.Resolve
import InputGuard.Proofs.Rule.Complete
import InputGuard.Proofs.Rule.Documented
import InputGuard.Proofs.Rule.Inversion
import InputGuard.Proofs.Config.Check
import InputGuard.Proofs.Config.Valid
import InputGuard.Proofs.Snippet.Confinement
import InputGuard.Proofs.Resolver.Edit
import InputGuard.Proofs.Run.Effect
import InputGuard.Proofs.Run.ClosedForm
import InputGuard.Proofs.Run.Reading
import InputGuard.Proofs.Text.Fill
import InputGuard.Proofs.Text.Parts
import InputGuard.Proofs.Text.Split
import InputGuard.Proofs.Resolver.Target
import InputGuard.Proofs.Run.Targets
import InputGuard.Proofs.Run.Reorder
import InputGuard.Proofs.Schema.Place
import InputGuard.Proofs.Run.Failure
import InputGuard.Proofs.Number.Rounding
import InputGuard.Proofs.Number.Neighbourhood
import InputGuard.Proofs.Number.Decimal
import InputGuard.Proofs.Number.Shortest
import InputGuard.Proofs.Number.Integer
import InputGuard.Proofs.Number.Canonical
import InputGuard.Proofs.Snippet.Value
import InputGuard.Proofs.Snippet.Stack
import InputGuard.Proofs.OrderedMap
import InputGuard.Proofs.Rule.Extraction
import InputGuard.Proofs.Snippet.Relevance
import InputGuard.Proofs.Vtl.Occurrence
import InputGuard.Proofs.Vtl.Effect
import InputGuard.Proofs.Snippet.Effect
import InputGuard.Proofs.Json.Token
import InputGuard.Proofs.Json.Parser
import InputGuard.Proofs.Json.Decode
import InputGuard.Proofs.Json.OrderedMap
import InputGuard.Proofs.Text.Blank
import InputGuard.Proofs.Schema.TypeRef
import InputGuard.Proofs.Schema.ValueCodec
import InputGuard.Proofs.Schema.Codec
import InputGuard.Proofs.Text.Hexadecimal
import InputGuard.Proofs.Json.LaidOut
import InputGuard.Proofs.Json.Members
import InputGuard.Proofs.Schema.Layout
import InputGuard.Proofs.Toml.Written
import InputGuard.Proofs.Config.Override
import InputGuard.Proofs.Run.Log
import InputGuard.Proofs.CommandLine.Options
import InputGuard.Proofs.Run.Augmented
import InputGuard.Proofs.CommandLine.Directory
import InputGuard.Proofs.CommandLine.Apply
import InputGuard.Proofs.CommandLine.Emission
import InputGuard.Proofs.Snippet.Integer
import InputGuard.Proofs.CommandLine.Snippet
import InputGuard.Proofs.Number.Nearest
import InputGuard.Proofs.Number.Notation
import InputGuard.Proofs.Number.Reading
import InputGuard.Proofs.Snippet.Float
import InputGuard.Proofs.CommandLine.Summary
import InputGuard.Proofs.CommandLine.Configuration
import InputGuard.Proofs.CommandLine.Failure
