import IdlLinker.Command.Arguments
import IdlLinker.Command.Invocation
import IdlLinker.Command.Report
import IdlLinker.Command.Run
import IdlLinker.Decimal.Binary
import IdlLinker.Decimal.Layout
import IdlLinker.Decimal.Scaling
import IdlLinker.Decimal.Shortest
import IdlLinker.Directory
import IdlLinker.Files
import IdlLinker.Fixtures
import IdlLinker.Glob.Pattern
import IdlLinker.Glob.Search
import IdlLinker.Graph.Declaration
import IdlLinker.Graph.Load
import IdlLinker.Graph.Shapes
import IdlLinker.Json.Fault
import IdlLinker.Json.Scanner
import IdlLinker.Json.Shape
import IdlLinker.Json.Shape.Reader
import IdlLinker.Json.Shape.Writer
import IdlLinker.Json.Skip
import IdlLinker.Json.Value
import IdlLinker.Link.Assemble
import IdlLinker.Link.Error
import IdlLinker.Link.File
import IdlLinker.Link.Imports
import IdlLinker.Link.Requirement
import IdlLinker.Link.Walk
import IdlLinker.Literal
import IdlLinker.Log.Event
import IdlLinker.Log.Filter
import IdlLinker.Main
import IdlLinker.Module.Agreement
import IdlLinker.Module.Arena
import IdlLinker.Module.Basic
import IdlLinker.Module.Document
import IdlLinker.Module.Kind
import IdlLinker.Numbered
import IdlLinker.Path
import IdlLinker.Proofs.Closure
import IdlLinker.Proofs.Command.AllOrNothing
import IdlLinker.Proofs.Command.Merging
import IdlLinker.Proofs.Command.Untouched
import IdlLinker.Proofs.Command.Verdict
import IdlLinker.Proofs.Command.Workers
import IdlLinker.Proofs.Construction.Calls
import IdlLinker.Proofs.Construction.Follows
import IdlLinker.Proofs.Construction.Mirrors
import IdlLinker.Proofs.Construction.Nodes
import IdlLinker.Proofs.Construction.Numbers
import IdlLinker.Proofs.Construction.Outcome
import IdlLinker.Proofs.Construction.Parts
import IdlLinker.Proofs.Construction.Resolve
import IdlLinker.Proofs.Construction.Site
import IdlLinker.Proofs.Containers
import IdlLinker.Proofs.Decimal.Rounding
import IdlLinker.Proofs.Defect
import IdlLinker.Proofs.Descriptions
import IdlLinker.Proofs.DirectImports
import IdlLinker.Proofs.Documents
import IdlLinker.Proofs.Effort
import IdlLinker.Proofs.Faithful
import IdlLinker.Proofs.Image
import IdlLinker.Proofs.Importers
import IdlLinker.Proofs.Imports
import IdlLinker.Proofs.Json.Fits
import IdlLinker.Proofs.Json.Floating
import IdlLinker.Proofs.Json.Grammar
import IdlLinker.Proofs.Json.Printing
import IdlLinker.Proofs.Json.Recover
import IdlLinker.Proofs.Json.Shown
import IdlLinker.Proofs.Json.Taken
import IdlLinker.Proofs.Levels
import IdlLinker.Proofs.Loading
import IdlLinker.Proofs.Locality
import IdlLinker.Proofs.Numbering
import IdlLinker.Proofs.Opacity
import IdlLinker.Proofs.Order
import IdlLinker.Proofs.Ordinals
import IdlLinker.Proofs.Ownership
import IdlLinker.Proofs.Path.NormalForm
import IdlLinker.Proofs.Path.Route
import IdlLinker.Proofs.Path.Text
import IdlLinker.Proofs.Path.WorkingDirectory
import IdlLinker.Proofs.Preorder
import IdlLinker.Proofs.Reach
import IdlLinker.Proofs.Recovery
import IdlLinker.Proofs.Redeclare
import IdlLinker.Proofs.References
import IdlLinker.Proofs.Relocation
import IdlLinker.Proofs.Remainder
import IdlLinker.Proofs.Renaming
import IdlLinker.Proofs.Renumbering
import IdlLinker.Proofs.Requirement
import IdlLinker.Proofs.Run
import IdlLinker.Proofs.Selection
import IdlLinker.Proofs.Settle
import IdlLinker.Proofs.Sharing
import IdlLinker.Proofs.Stray
import IdlLinker.Proofs.Table
import IdlLinker.Proofs.Warrant
import IdlLinker.Proofs.WellFormed
import IdlLinker.Session
import IdlLinker.Table
import IdlLinker.Text.Glyph
import IdlLinker.Text.Written
