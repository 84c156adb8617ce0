import MapStyle.About
import MapStyle.Cascade
import MapStyle.Color
import MapStyle.Comparison
import MapStyle.Decimal.Layout
import MapStyle.Decimal.Reading
import MapStyle.Decimal.Shortest
import MapStyle.Diagnostic.Basic
import MapStyle.Diagnostic.Decoding
import MapStyle.Evaluation
import MapStyle.FileSystem
import MapStyle.Filter.Expression
import MapStyle.FontSet
import MapStyle.Json.Basic
import MapStyle.Json.Decoding
import MapStyle.Json.Meaning
import MapStyle.Json.Source
import MapStyle.Memos
import MapStyle.Named
import MapStyle.Node.Basic
import MapStyle.Node.Equality
import MapStyle.Node.Kind
import MapStyle.Node.Rendering
import MapStyle.Pass
import MapStyle.Path
import MapStyle.Rule.Checking
import MapStyle.Schema.Basic
import MapStyle.Schema.Closest
import MapStyle.Schema.Decoding
import MapStyle.Schema.Validity
import MapStyle.Session
import MapStyle.Settings.Basic
import MapStyle.Settings.Discovery
import MapStyle.Specificity
import MapStyle.StyleError
import MapStyle.Stylesheet.Basic
import MapStyle.Stylesheet.Scope
import MapStyle.Text.Bytes
import MapStyle.Text.Characters
import MapStyle.Text.Escape
import MapStyle.Text.Pieces
import MapStyle.Toml.Basic
import MapStyle.Toml.Reader
import MapStyle.Toml.Scalar
import MapStyle.Zoom
import MapStyle.Proofs.Acceptance
import MapStyle.Proofs.Binding
import MapStyle.Proofs.Blotting
import MapStyle.Proofs.Building
import MapStyle.Proofs.Circularity
import MapStyle.Proofs.Closed
import MapStyle.Proofs.Colors
import MapStyle.Proofs.Conditions
import MapStyle.Proofs.Course
import MapStyle.Proofs.Cycles
import MapStyle.Proofs.Discovery
import MapStyle.Proofs.Documents
import MapStyle.Proofs.Edits
import MapStyle.Proofs.Escaping
import MapStyle.Proofs.Failures
import MapStyle.Proofs.FontStacks
import MapStyle.Proofs.Forms
import MapStyle.Proofs.Frames
import MapStyle.Proofs.Growth
import MapStyle.Proofs.Identity
import MapStyle.Proofs.Inlining
import MapStyle.Proofs.Instancing
import MapStyle.Proofs.Invariant
import MapStyle.Proofs.Keeping
import MapStyle.Proofs.Links
import MapStyle.Proofs.Listing
import MapStyle.Proofs.Literals
import MapStyle.Proofs.Locations
import MapStyle.Proofs.NormalForm
import MapStyle.Proofs.Order
import MapStyle.Proofs.Outline
import MapStyle.Proofs.Parts
import MapStyle.Proofs.Passages
import MapStyle.Proofs.Placing
import MapStyle.Proofs.Quiet
import MapStyle.Proofs.Quoting
import MapStyle.Proofs.Ranking
import MapStyle.Proofs.Registration
import MapStyle.Proofs.Reports
import MapStyle.Proofs.Requests
import MapStyle.Proofs.Resolution
import MapStyle.Proofs.Shadowing
import MapStyle.Proofs.Simulation
import MapStyle.Proofs.Stack
import MapStyle.Proofs.Substitution
import MapStyle.Proofs.Suggestions
import MapStyle.Proofs.Surroundings
import MapStyle.Proofs.Termination
import MapStyle.Proofs.Verdicts
import MapStyle.Proofs.Windows
import MapStyle.Proofs.Writing
