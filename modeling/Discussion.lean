import Discussion.Tree.Basic
import Discussion.Tree.Walk
import Discussion.Tree.Preorder
import Discussion.Tree.Shape
import Discussion.Tree.Path
import Discussion.Tree.Drawing
import Discussion.Arena.Basic
import Discussion.Arena.PostOrder
import Discussion.Arena.ToForest
import Discussion.Threading.Basic
import Discussion.Threading.Build
import Discussion.Text.CodeSet
import Discussion.Text.Alphanumeric
import Discussion.Text.Extending
import Discussion.Text.Printable
import Discussion.Text.Blank
import Discussion.Text.Quoted
import Discussion.Text.Shown
import Discussion.Text.Styled
import Discussion.Text.Digits
import Discussion.Data.Basic
import Discussion.Json.Failure
import Discussion.Json.Number
import Discussion.Json.Literal
import Discussion.Json.Reader
import Discussion.Decimal.Shortest
import Discussion.Json.Skip
import Discussion.Json.Shaped
import Discussion.Json.Writer
import Discussion.Toml.Value
import Discussion.Toml.Literal
import Discussion.Toml.Scalar
import Discussion.Toml.Reader
import Discussion.Toml.Writer
import Discussion.Post.Basic
import Discussion.Post.Data
import Discussion.Post.Document
import Discussion.Tree.Data
import Discussion.Threading.Message
import Discussion.Files.Path
import Discussion.Files.Environment
import Discussion.Files.Expansion
import Discussion.Files.System
import Discussion.Files.Directory
import Discussion.Settings.Format
import Discussion.Settings.Basic
import Discussion.Settings.Text
import Discussion.Settings.Load
import Discussion.Error
import Discussion.Report
import Discussion.Workspace
import Discussion.Command.Line
import Discussion.Command.Run
import Discussion.Main
import Discussion.Proofs.Tree.Nodes
import Discussion.Proofs.Tree.Growth
import Discussion.Proofs.Tree.Levels
import Discussion.Proofs.Tree.Assembly
import Discussion.Proofs.Tree.Listing
import Discussion.Proofs.Tree.Measures
import Discussion.Proofs.Arena.Links
import Discussion.Proofs.Arena.Unfolding
import Discussion.Proofs.Arena.Insertion
import Discussion.Proofs.Arena.Harvest
import Discussion.Proofs.Text.Runs
import Discussion.Proofs.Json.Numerals
import Discussion.Proofs.Json.Texts
import Discussion.Proofs.Json.RoundTrip
import Discussion.Proofs.Data.Members
import Discussion.Proofs.Post.Decoding
import Discussion.Proofs.Toml.Texts
import Discussion.Proofs.Toml.Tables
import Discussion.Proofs.Threading.Lineage
import Discussion.Proofs.Threading.Plan
import Discussion.Proofs.Threading.Weaving
import Discussion.Proofs.Threading.Outcome
import Discussion.Proofs.Threading.Turns
import Discussion.Proofs.Threading.RoundTrip
import Discussion.Proofs.Threading.Permutation
import Discussion.Proofs.Threading.Address
import Discussion.Proofs.Threading.Arrival
import Discussion.Proofs.Threading.Deletion
import Discussion.Proofs.Threading.Interleaving
import Discussion.Proofs.Threading.Counting
import Discussion.Proofs.Files.Loading
import Discussion.Proofs.Files.Expansion
import Discussion.Proofs.Post.Encodings
import Discussion.Proofs.Report.Stats
import Discussion.Proofs.Report.Export
import Discussion.Proofs.Report.Bounds
import Discussion.Proofs.Report.Indentation
import Discussion.Proofs.Threading.Renaming
import Discussion.Proofs.Settings.Values
import Discussion.Proofs.Settings.Layers
import Discussion.Proofs.Settings.Saving
import Discussion.Proofs.Command.Exit
import Discussion.Proofs.Arena.Traversal
import Discussion.Proofs.Tree.Segments
import Discussion.Proofs.Tree.Steps
import Discussion.Proofs.Tree.Comparison
import Discussion.Proofs.Tree.Relabelling
import Discussion.Proofs.Tree.Drawing
import Discussion.Proofs.Command.Summaries
import Discussion.Proofs.Post.Absence
import Discussion.Proofs.Json.Nulls
import Discussion.Proofs.Settings.Decoding
import Discussion.Proofs.Command.Listings
import Discussion.Proofs.Command.Widths
