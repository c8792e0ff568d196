import ApiBindings.Client.Bindings
import ApiBindings.Client.Generate
import ApiBindings.Client.Header
import ApiBindings.CommandLine.Arguments
import ApiBindings.CommandLine.Run
import ApiBindings.CommandLine.Word
import ApiBindings.Config.Basic
import ApiBindings.Config.File
import ApiBindings.Declaration.Component
import ApiBindings.Declaration.Session
import ApiBindings.Declaration.Statement
import ApiBindings.Document.Access
import ApiBindings.Document.Display
import ApiBindings.Document.Lax
import ApiBindings.Document.Load
import ApiBindings.Document.Order
import ApiBindings.Document.Pointer
import ApiBindings.Document.Sharing
import ApiBindings.Document.Value
import ApiBindings.Document.Walk
import ApiBindings.Extension
import ApiBindings.Fault
import ApiBindings.Files.Path
import ApiBindings.Files.Tree
import ApiBindings.Hook.Basic
import ApiBindings.Hook.Mutation
import ApiBindings.Hook.Query
import ApiBindings.Json.Lexeme
import ApiBindings.Json.Problem
import ApiBindings.Json.Reader
import ApiBindings.Lint.Check
import ApiBindings.Lint.Report
import ApiBindings.Log
import ApiBindings.Main
import ApiBindings.Naming.DocComment
import ApiBindings.Naming.Identifier
import ApiBindings.Naming.PascalCase
import ApiBindings.Naming.PathTemplate
import ApiBindings.Numeric.Binary64
import ApiBindings.Numeric.Binary64.Shortest
import ApiBindings.Numeric.Calendar
import ApiBindings.Numeric.Written
import ApiBindings.Operation.Bind
import ApiBindings.Operation.Metadata
import ApiBindings.Operation.Parameter
import ApiBindings.Operation.Types
import ApiBindings.Proofs.Client.Exports
import ApiBindings.Proofs.Declaration.Registered
import ApiBindings.Proofs.Declaration.Run
import ApiBindings.Proofs.Hook.Address
import ApiBindings.Proofs.Hook.Names
import ApiBindings.Proofs.Naming.Template
import ApiBindings.Proofs.Operation.Bind
import ApiBindings.Proofs.Schema.Datum
import ApiBindings.Proofs.Schema.Resolve
import ApiBindings.Proofs.Schema.Soundness
import ApiBindings.Proofs.Schema.Validity
import ApiBindings.Proofs.Success
import ApiBindings.Proofs.TypeText.Grammar
import ApiBindings.Proofs.TypeText.Precedence
import ApiBindings.Proofs.TypeText.Reader
import ApiBindings.Proofs.TypeText.Scan
import ApiBindings.Proofs.TypeText.Token
import ApiBindings.Proofs.TypeText.Tree
import ApiBindings.Schema.Content
import ApiBindings.Schema.Discriminator
import ApiBindings.Schema.Reference
import ApiBindings.Schema.Resolve
import ApiBindings.Source
import ApiBindings.Text.Basic
import ApiBindings.Text.Digit
import ApiBindings.Text.Literal
import ApiBindings.Text.Printable
import ApiBindings.Text.Quoted
import ApiBindings.Text.Space
import ApiBindings.Text.Split
import ApiBindings.Text.Surrogate
import ApiBindings.Text.Uppercase
import ApiBindings.Text.WordChar
import ApiBindings.Toml.Bare
import ApiBindings.Toml.Header
import ApiBindings.Toml.Layout
import ApiBindings.Toml.Line
import ApiBindings.Toml.Quoted
import ApiBindings.Toml.Reader
import ApiBindings.Toml.Table
import ApiBindings.Toml.Writer
import ApiBindings.TypeExpr.Alternatives
import ApiBindings.TypeExpr.Basic
import ApiBindings.TypeExpr.Render
import ApiBindings.Yaml.BlockText
import ApiBindings.Yaml.Glyph
import ApiBindings.Yaml.Node
import ApiBindings.Yaml.Node.Composed
import ApiBindings.Yaml.Node.Document
import ApiBindings.Yaml.PlainText
import ApiBindings.Yaml.Property
import ApiBindings.Yaml.QuotedText
import ApiBindings.Yaml.Reader
import ApiBindings.Yaml.Scalar
import ApiBindings.Yaml.Tag
import ApiBindings.Yaml.Token
import ApiBindings.Yaml.Token.Lexer
import ApiBindings.Yaml.Token.Lexing
import ApiBindings.Proofs.Failure
import ApiBindings.Proofs.Schema.Faults
import ApiBindings.Proofs.Operation.Faults
import ApiBindings.Proofs.Operation.Session
import ApiBindings.Proofs.Client.Calls
import ApiBindings.Proofs.Client.Enumeration
import ApiBindings.Proofs.Declaration.Alike
import ApiBindings.Proofs.Operation.Options
import ApiBindings.Proofs.Client.Options
import ApiBindings.Proofs.TypeExpr.Names
import ApiBindings.Proofs.Schema.References
import ApiBindings.Proofs.Document.Unlabelled
import ApiBindings.Proofs.Schema.Narrowing
import ApiBindings.Proofs.Operation.References
import ApiBindings.Proofs.Client.References
import ApiBindings.Proofs.Document.Json
import ApiBindings.Proofs.Document.Throughout
import ApiBindings.Proofs.Schema.Tagging
import ApiBindings.Proofs.Numeric.Canonical
import ApiBindings.Proofs.Document.Keys
import ApiBindings.Proofs.Schema.TagValues
import ApiBindings.Proofs.Operation.Parameters
import ApiBindings.Proofs.Declaration.Faults
import ApiBindings.Proofs.Lint.Silent
import ApiBindings.Proofs.Client.Throughout
import ApiBindings.Proofs.Client.Lint
import ApiBindings.Proofs.Document.Unshared
import ApiBindings.Proofs.Document.Labels
import ApiBindings.Proofs.Schema.Unshared
import ApiBindings.Proofs.Declaration.Unshared
import ApiBindings.Proofs.Operation.Unshared
import ApiBindings.Proofs.Schema.Sharing
import ApiBindings.Proofs.Client.Unshared
import ApiBindings.Proofs.Document.Clear
import ApiBindings.Proofs.Declaration.Interface
import ApiBindings.Proofs.Schema.Frame
import ApiBindings.Proofs.Schema.TagTypes
import ApiBindings.Proofs.Files.Tree
import ApiBindings.Proofs.CommandLine.Targets
import ApiBindings.Proofs.Schema.Repetition
import ApiBindings.Proofs.Document.Tree
import ApiBindings.Proofs.Schema.Locations
import ApiBindings.Proofs.Schema.Rearranged
import ApiBindings.Proofs.Schema.Following
import ApiBindings.Proofs.Schema.Order
import ApiBindings.Proofs.Operation.Merge
import ApiBindings.Proofs.Naming.Unmarked
import ApiBindings.Proofs.Naming.Words
import ApiBindings.Proofs.TypeExpr.Parts
import ApiBindings.Proofs.TypeExpr.Unmarked
import ApiBindings.Proofs.Schema.Unmarked
import ApiBindings.Proofs.Declaration.Unmarked
import ApiBindings.Proofs.Hook.Markers
import ApiBindings.Proofs.Operation.Unmarked
import ApiBindings.Proofs.Operation.Shown
import ApiBindings.Proofs.Client.Helpers
import ApiBindings.Proofs.Text.Marker
import ApiBindings.Proofs.Text.Occurrence
import ApiBindings.Proofs.Naming.Placeholders
import ApiBindings.Proofs.Operation.Route
import ApiBindings.Proofs.Operation.Synthetic
import ApiBindings.Proofs.Hook.Arguments
import ApiBindings.Proofs.Operation.Identifier
import ApiBindings.Proofs.Schema.Media
import ApiBindings.Proofs.Naming.PropertyKey
import ApiBindings.Proofs.Naming.TypeName
import ApiBindings.Proofs.Operation.TypeName
import ApiBindings.Proofs.Text.Pieces
import ApiBindings.Proofs.Text.Rewritten
import ApiBindings.Proofs.Text.Comment
import ApiBindings.Proofs.Naming.DocComment
import ApiBindings.Proofs.TypeExpr.Described
import ApiBindings.Proofs.Hook.Described
import ApiBindings.Proofs.Document.Preorder
import ApiBindings.Proofs.Document.Evaluation
import ApiBindings.Proofs.Text.Literal
import ApiBindings.Proofs.Lint.Findings
import ApiBindings.Proofs.Lint.Declared
import ApiBindings.Proofs.Operation.Fallback
import ApiBindings.Proofs.Client.Undeclared
import ApiBindings.Proofs.TypeExpr.Nulls
import ApiBindings.Proofs.Schema.Nulls
import ApiBindings.Proofs.Schema.Doubled
import ApiBindings.Proofs.Toml.Writer
import ApiBindings.Proofs.Toml.Escapes
import ApiBindings.Proofs.Toml.Layout
import ApiBindings.Proofs.Toml.Reader
import ApiBindings.Proofs.Config.Saved
