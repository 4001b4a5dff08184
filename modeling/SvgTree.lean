import SvgTree.Attribute.Basic
import SvgTree.Attribute.Collection
import SvgTree.Attribute.OfValue
import SvgTree.Command.Arguments
import SvgTree.Command.Json
import SvgTree.Command.Outcome
import SvgTree.Command.Pipeline
import SvgTree.Command.Query
import SvgTree.Fault
import SvgTree.Main
import SvgTree.Markup.Declaration
import SvgTree.Markup.Document
import SvgTree.Markup.Element
import SvgTree.Markup.Encoding
import SvgTree.Markup.Letters
import SvgTree.Markup.Name
import SvgTree.Markup.Namespace
import SvgTree.Markup.Problem
import SvgTree.Markup.Prolog
import SvgTree.Markup.Source
import SvgTree.Markup.Token
import SvgTree.Number.Binary64
import SvgTree.Number.Shortest
import SvgTree.Rule.File
import SvgTree.Rule.Plugin
import SvgTree.Rule.Raster
import SvgTree.Rule.Report
import SvgTree.Rule.Requested
import SvgTree.Rule.Run
import SvgTree.Rule.Step
import SvgTree.Selector.Basic
import SvgTree.Selector.Query
import SvgTree.Text.Blank
import SvgTree.Text.Cased
import SvgTree.Text.Lower
import SvgTree.Text.Printable
import SvgTree.Text.Quoted
import SvgTree.Text.Ranges
import SvgTree.Text.Utf8
import SvgTree.Tree.Blueprint
import SvgTree.Tree.Build
import SvgTree.Tree.Export
import SvgTree.Tree.Forest
import SvgTree.Tree.Splice
import SvgTree.Tree.Walk
import SvgTree.Value.Basic
import SvgTree.Value.Date
import SvgTree.Value.Display
import SvgTree.Yaml.Cursor
import SvgTree.Yaml.Document
import SvgTree.Yaml.Kind
import SvgTree.Yaml.Label
import SvgTree.Yaml.Node
import SvgTree.Yaml.Scalar
import SvgTree.Yaml.Token
import SvgTree.Proofs.Tree.Lineage
import SvgTree.Proofs.Tree.Rehang
import SvgTree.Proofs.Tree.Finds
import SvgTree.Proofs.Tree.Building
import SvgTree.Proofs.Tree.Attach
import SvgTree.Proofs.Tree.Splicing
import SvgTree.Proofs.Rule.Shape
import SvgTree.Proofs.Reachable
import SvgTree.Proofs.Tree.Loops
import SvgTree.Proofs.Tree.FailedSplice
import SvgTree.Proofs.Tree.Insertions
import SvgTree.Proofs.Tree.SpliceEffect
import SvgTree.Proofs.Tree.Order
import SvgTree.Proofs.Selector.Matching
import SvgTree.Proofs.Attribute.Insert
import SvgTree.Proofs.Rule.Reading
import SvgTree.Proofs.Rule.Refusal
import SvgTree.Proofs.Rule.FailedStep
import SvgTree.Proofs.Kept
import SvgTree.Proofs.Tree.Links
import SvgTree.Proofs.Tree.Construction
import SvgTree.Proofs.Tree.Export
import SvgTree.Proofs.Tree.RoundTrip
import SvgTree.Proofs.Text.Strip
import SvgTree.Proofs.Selector.Cuts
import SvgTree.Proofs.Selector.Grammar
import SvgTree.Proofs.Selector.Parsing
import SvgTree.Proofs.Selector.Union
import SvgTree.Proofs.Tree.NormalForm
import SvgTree.Proofs.Tree.NormalExport
import SvgTree.Proofs.Attribute.Naming
import SvgTree.Proofs.Attribute.History
import SvgTree.Proofs.Selector.Support
import SvgTree.Proofs.Tree.Places
import SvgTree.Proofs.Selector.ExportedQuery
import SvgTree.Proofs.Rule.Trimmed
import SvgTree.Proofs.Rule.Plugins
import SvgTree.Proofs.Rule.Running
import SvgTree.Proofs.Rule.Composing
import SvgTree.Proofs.Rule.Detaching
import SvgTree.Proofs.Rule.Editing
import SvgTree.Proofs.Tree.Outermost
import SvgTree.Proofs.Rule.Pruning
import SvgTree.Proofs.Rule.Searching
import SvgTree.Proofs.Attribute.Differing
import SvgTree.Proofs.Rule.Amending
import SvgTree.Proofs.Rule.Removing
import SvgTree.Proofs.Rule.Bounds
import SvgTree.Proofs.Rule.Counting
import SvgTree.Proofs.Tree.RawTree
import SvgTree.Proofs.Tree.Begun
import SvgTree.Proofs.Tree.Growing
import SvgTree.Proofs.Tree.WaysToBuild
import SvgTree.Proofs.Markup.Name
import SvgTree.Proofs.Markup.Content
import SvgTree.Proofs.Markup.Drafting
import SvgTree.Proofs.Markup.Entries
import SvgTree.Proofs.Tree.ShiftedSplice
import SvgTree.Proofs.Rule.Repeating
import SvgTree.Proofs.Rule.Setting
import SvgTree.Proofs.Rule.Renaming
import SvgTree.Proofs.Tree.FailedConstruction
import SvgTree.Proofs.Tree.Gathering
import SvgTree.Proofs.Tree.Adopting
import SvgTree.Proofs.Tree.Undoing
import SvgTree.Proofs.Tree.Turns
import SvgTree.Proofs.Tree.DetachingVisits
import SvgTree.Proofs.Rule.RasterReferences
import SvgTree.Proofs.Text.Spelling
import SvgTree.Proofs.Text.Pieces
import SvgTree.Proofs.Rule.Requesting
