import HttpFile.Ansi
import HttpFile.Body.Format
import HttpFile.Body.Placeholder
import HttpFile.Canonical
import HttpFile.Check
import HttpFile.Command.Arguments
import HttpFile.Command.Reply
import HttpFile.Command.Run
import HttpFile.Config
import HttpFile.Convert
import HttpFile.Difference
import HttpFile.Document.Basic
import HttpFile.Document.Extract
import HttpFile.Document.Render
import HttpFile.Files.Path
import HttpFile.Files.Tree
import HttpFile.Files.Walk
import HttpFile.GraphQL.Ast
import HttpFile.GraphQL.Parser
import HttpFile.GraphQL.Printer
import HttpFile.GraphQL.Token
import HttpFile.Json.Reader
import HttpFile.Json.Writer
import HttpFile.Log
import HttpFile.Main
import HttpFile.Number.Binary64
import HttpFile.Number.Numeral
import HttpFile.Number.Shortest
import HttpFile.Source.Bruno.Convert
import HttpFile.Source.Bruno.Request
import HttpFile.Source.Bruno.Section
import HttpFile.Source.Detect
import HttpFile.Source.Failure
import HttpFile.Source.OpenApi.Convert
import HttpFile.Source.OpenApi.Example
import HttpFile.Source.OpenApi.Operation
import HttpFile.Source.OpenApi.Reference
import HttpFile.Source.OpenApi.Server
import HttpFile.Source.OpenApi.Swagger
import HttpFile.Source.Postman.Convert
import HttpFile.Source.Postman.Request
import HttpFile.Source.Shape
import HttpFile.Syntax.Context
import HttpFile.Syntax.Terminal
import HttpFile.Syntax.Token
import HttpFile.Syntax.Tree
import HttpFile.Text.Base64
import HttpFile.Text.Basic
import HttpFile.Text.Casing
import HttpFile.Text.Lines
import HttpFile.Text.Numeral
import HttpFile.Text.Quoted
import HttpFile.Text.Surrogate
import HttpFile.Text.Utf8
import HttpFile.Unicode.Blank
import HttpFile.Unicode.Casing
import HttpFile.Unicode.Decimal
import HttpFile.Unicode.Printable
import HttpFile.Unicode.Ranges
import HttpFile.Unicode.Word
import HttpFile.Url
import HttpFile.Value.Basic
import HttpFile.Value.Calendar
import HttpFile.Value.Display
import HttpFile.Yaml.Failure
import HttpFile.Yaml.Glyph
import HttpFile.Yaml.Layout
import HttpFile.Yaml.Lexeme
import HttpFile.Yaml.Load
import HttpFile.Yaml.Merge
import HttpFile.Yaml.Node
import HttpFile.Yaml.Scalar
import HttpFile.Yaml.Tag
import HttpFile.Yaml.Token
import HttpFile.Proofs.Body.Lines
import HttpFile.Proofs.Document.Calm
import HttpFile.Proofs.Document.Canonical
import HttpFile.Proofs.Document.RoundTrip
import HttpFile.Proofs.Document.Preserved
import HttpFile.Proofs.Document.Sections
import HttpFile.Proofs.Files.Collect
import HttpFile.Proofs.Check
import HttpFile.Proofs.Convert
import HttpFile.Proofs.Document.Bare
import HttpFile.Proofs.Convert.Changes
import HttpFile.Proofs.Source.Fanout
import HttpFile.Proofs.Source.Identifiers
import HttpFile.Proofs.Source.Preorder
import HttpFile.Proofs.Command.Agreement
import HttpFile.Proofs.Body.FormatJson
import HttpFile.Proofs.Body.Markers
import HttpFile.Proofs.Body.Split
import HttpFile.Proofs.Source.Query
import HttpFile.Proofs.GraphQL.Printed
import HttpFile.Proofs.Body.FormatQuery
import HttpFile.Proofs.Source.Example
import HttpFile.Proofs.Source.Form
import HttpFile.Proofs.Source.HeaderParameter
import HttpFile.Proofs.Source.BodyParameter
import HttpFile.Proofs.Url.Unfolded
import HttpFile.Proofs.Document.FreeText
import HttpFile.Proofs.Source.Headers
import HttpFile.Proofs.Source.Folders
import HttpFile.Proofs.Source.Reference
import HttpFile.Proofs.Source.Sections
import HttpFile.Proofs.Difference.Display
import HttpFile.Proofs.Files.Once
import HttpFile.Proofs.Syntax.Tiling
import HttpFile.Proofs.Config
