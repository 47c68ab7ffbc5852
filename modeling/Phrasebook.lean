import Phrasebook.Cache.Answers
import Phrasebook.Cache.Memo
import Phrasebook.Cache.Recent
import Phrasebook.Catalog
import Phrasebook.Command.Basic
import Phrasebook.Command.Check
import Phrasebook.Command.Keys
import Phrasebook.Command.Option
import Phrasebook.Command.Outcome
import Phrasebook.Command.Resolve
import Phrasebook.Command.Run
import Phrasebook.Condition.Basic
import Phrasebook.Condition.Eval
import Phrasebook.Condition.Fault
import Phrasebook.Condition.Reader
import Phrasebook.Engine.Basic
import Phrasebook.Engine.Resolve
import Phrasebook.Escape
import Phrasebook.Failure
import Phrasebook.Json.Basic
import Phrasebook.Json.Number
import Phrasebook.Json.Reader
import Phrasebook.Json.Stored
import Phrasebook.Json.Writer
import Phrasebook.Key
import Phrasebook.Lint
import Phrasebook.Main
import Phrasebook.Nested
import Phrasebook.Number.Binary64
import Phrasebook.Number.Layout
import Phrasebook.Number.Reading
import Phrasebook.Number.Shortest
import Phrasebook.Number.Width
import Phrasebook.Params
import Phrasebook.Proofs.Cache.Capacity
import Phrasebook.Proofs.Cache.Contents
import Phrasebook.Proofs.Cache.Eviction
import Phrasebook.Proofs.Cache.Memo
import Phrasebook.Proofs.Cache.Recency
import Phrasebook.Proofs.Cache.Selection
import Phrasebook.Proofs.Cache.Shards
import Phrasebook.Proofs.Command.Listing
import Phrasebook.Proofs.Condition.Compiling
import Phrasebook.Proofs.Condition.Cutting
import Phrasebook.Proofs.Condition.Evaluation
import Phrasebook.Proofs.Condition.Grammar
import Phrasebook.Proofs.Condition.Lexeme
import Phrasebook.Proofs.Condition.Mending
import Phrasebook.Proofs.Condition.Nesting
import Phrasebook.Proofs.Condition.Parameters
import Phrasebook.Proofs.Condition.Reading
import Phrasebook.Proofs.Condition.Recognition
import Phrasebook.Proofs.Condition.Shape
import Phrasebook.Proofs.Condition.Structural
import Phrasebook.Proofs.Condition.Token
import Phrasebook.Proofs.Condition.Tokenizer
import Phrasebook.Proofs.Condition.WellFormed
import Phrasebook.Proofs.Condition.Writing
import Phrasebook.Proofs.Engine.Alarms
import Phrasebook.Proofs.Engine.Change
import Phrasebook.Proofs.Engine.Checked
import Phrasebook.Proofs.Engine.Commuting
import Phrasebook.Proofs.Engine.Extending
import Phrasebook.Proofs.Engine.Fallback
import Phrasebook.Proofs.Engine.History
import Phrasebook.Proofs.Engine.Interleaving
import Phrasebook.Proofs.Engine.Listing
import Phrasebook.Proofs.Engine.Order
import Phrasebook.Proofs.Engine.Parameters
import Phrasebook.Proofs.Engine.Paths
import Phrasebook.Proofs.Engine.Plain
import Phrasebook.Proofs.Engine.Run
import Phrasebook.Proofs.Engine.Transparency
import Phrasebook.Proofs.Engine.Writes
import Phrasebook.Proofs.Json.Ingestion
import Phrasebook.Proofs.Json.Ranges
import Phrasebook.Proofs.Key.Joining
import Phrasebook.Proofs.Key.Splitting
import Phrasebook.Proofs.Lint.Alarms
import Phrasebook.Proofs.Lint.Defects
import Phrasebook.Proofs.Lint.Prediction
import Phrasebook.Proofs.Number.Finite
import Phrasebook.Proofs.Table.Bindings
import Phrasebook.Proofs.Table.Distinct
import Phrasebook.Proofs.Table.Parameters
import Phrasebook.Proofs.Template.Malformed
import Phrasebook.Proofs.Template.Markup
import Phrasebook.Proofs.Template.Stray
import Phrasebook.Proofs.Template.Writing
import Phrasebook.Proofs.Text.Characters
import Phrasebook.Proofs.Text.Edits
import Phrasebook.Proofs.Tree.Children
import Phrasebook.Proofs.Tree.Entries
import Phrasebook.Proofs.Tree.Finding
import Phrasebook.Proofs.Tree.Idempotence
import Phrasebook.Proofs.Tree.Indexing
import Phrasebook.Proofs.Tree.Listing
import Phrasebook.Proofs.Tree.Misfits
import Phrasebook.Proofs.Tree.Overlaying
import Phrasebook.Proofs.Tree.Recipes
import Phrasebook.Proofs.Tree.Repeats
import Phrasebook.Proofs.Tree.Storing
import Phrasebook.Proofs.Tree.Suggestions
import Phrasebook.Proofs.Tree.Writing
import Phrasebook.Source.Format
import Phrasebook.Source.Load
import Phrasebook.Source.Path
import Phrasebook.Table
import Phrasebook.Template.Basic
import Phrasebook.Template.Render
import Phrasebook.Text.Alphabetic
import Phrasebook.Text.Blank
import Phrasebook.Text.Bytes
import Phrasebook.Text.Columns
import Phrasebook.Text.Distance
import Phrasebook.Text.Grid
import Phrasebook.Text.Name
import Phrasebook.Text.Numeric
import Phrasebook.Text.Ranges
import Phrasebook.Text.Split
import Phrasebook.Text.Take
import Phrasebook.Toml.Basic
import Phrasebook.Toml.Document
import Phrasebook.Toml.Scalar
import Phrasebook.Toml.Statement
import Phrasebook.Toml.Text
import Phrasebook.Tree.Basic
import Phrasebook.Tree.Build
import Phrasebook.Tree.Indexed
import Phrasebook.Tree.Path
import Phrasebook.Tree.Suggest
import Phrasebook.Value
import Phrasebook.Yaml.Anchor
import Phrasebook.Yaml.Basic
import Phrasebook.Yaml.Document
import Phrasebook.Yaml.Node
import Phrasebook.Yaml.Outline
import Phrasebook.Yaml.Plain
import Phrasebook.Yaml.Scalar
import Phrasebook.Yaml.Token
