import StyleMixins.Call.Binding
import StyleMixins.Call.Invocation
import StyleMixins.Element.Printer
import StyleMixins.Error
import StyleMixins.Expansion.Run
import StyleMixins.Files.Glob
import StyleMixins.Files.Host
import StyleMixins.Host
import StyleMixins.LineDiff
import StyleMixins.Loading
import StyleMixins.Main
import StyleMixins.Mixin.Harvest
import StyleMixins.Options.File
import StyleMixins.Pipeline
import StyleMixins.Record.Fragment
import StyleMixins.Record.Json
import StyleMixins.Record.Store
import StyleMixins.Sheet.Parse
import StyleMixins.Sheet.Store
import StyleMixins.Substitution
import StyleMixins.Tree.Checked
import StyleMixins.Yaml.Resolve
import StyleMixins.Proofs.Call.Binding
import StyleMixins.Proofs.Call.CallText
import StyleMixins.Proofs.Call.Name
import StyleMixins.Proofs.Call.Segments
import StyleMixins.Proofs.Call.Separators
import StyleMixins.Proofs.Call.Signature
import StyleMixins.Proofs.Entries
import StyleMixins.Proofs.Expansion.CallSite
import StyleMixins.Proofs.Expansion.DepthLimit
import StyleMixins.Proofs.Expansion.Descent
import StyleMixins.Proofs.Expansion.DocumentCalls
import StyleMixins.Proofs.Expansion.Failures
import StyleMixins.Proofs.Expansion.Filling
import StyleMixins.Proofs.Expansion.Guards
import StyleMixins.Proofs.Expansion.InPlace
import StyleMixins.Proofs.Expansion.Instances
import StyleMixins.Proofs.Expansion.LockStep
import StyleMixins.Proofs.Expansion.NoOps
import StyleMixins.Proofs.Expansion.OneCall
import StyleMixins.Proofs.Expansion.Order
import StyleMixins.Proofs.Expansion.Placement
import StyleMixins.Proofs.Expansion.Provenance
import StyleMixins.Proofs.Expansion.Ranks
import StyleMixins.Proofs.Expansion.Recording
import StyleMixins.Proofs.Expansion.Reference
import StyleMixins.Proofs.Expansion.Replacement
import StyleMixins.Proofs.Expansion.Runs
import StyleMixins.Proofs.Expansion.Settling
import StyleMixins.Proofs.Expansion.Stack
import StyleMixins.Proofs.Expansion.Untouched
import StyleMixins.Proofs.Expansion.Upkeep
import StyleMixins.Proofs.Expansion.WorkList
import StyleMixins.Proofs.Forest.Basic
import StyleMixins.Proofs.Forest.Edit
import StyleMixins.Proofs.Forest.Fill
import StyleMixins.Proofs.Forest.FirstCall
import StyleMixins.Proofs.Forest.Texts
import StyleMixins.Proofs.Loading
import StyleMixins.Proofs.Mixin.Blocks
import StyleMixins.Proofs.Mixin.Harvest
import StyleMixins.Proofs.Pipeline.ErrorPlaces
import StyleMixins.Proofs.Pipeline.Precedence
import StyleMixins.Proofs.Pipeline.Tracing
import StyleMixins.Proofs.Record.AtCall
import StyleMixins.Proofs.Record.Depiction
import StyleMixins.Proofs.Record.Store
import StyleMixins.Proofs.Sheet.Bare
import StyleMixins.Proofs.Sheet.Comments
import StyleMixins.Proofs.Sheet.Cursors
import StyleMixins.Proofs.Sheet.Ink
import StyleMixins.Proofs.Sheet.NormalForm
import StyleMixins.Proofs.Sheet.OnePass
import StyleMixins.Proofs.Sheet.Places
import StyleMixins.Proofs.Sheet.Printable
import StyleMixins.Proofs.Sheet.Readers
import StyleMixins.Proofs.Sheet.Readings
import StyleMixins.Proofs.Sheet.Retrace
import StyleMixins.Proofs.Sheet.RoundTrip
import StyleMixins.Proofs.Sheet.Segments
import StyleMixins.Proofs.Sheet.Spans
import StyleMixins.Proofs.Substitution.References
import StyleMixins.Proofs.Substitution.Replacing
import StyleMixins.Proofs.Substitution.Subtree
import StyleMixins.Proofs.Text.Trim
import StyleMixins.Proofs.Tree.Acyclic
import StyleMixins.Proofs.Tree.Changes
import StyleMixins.Proofs.Tree.Copies
import StyleMixins.Proofs.Tree.Copying
import StyleMixins.Proofs.Tree.Graft
import StyleMixins.Proofs.Tree.Insertion
import StyleMixins.Proofs.Tree.Layout
import StyleMixins.Proofs.Tree.Links
import StyleMixins.Proofs.Tree.Moves
import StyleMixins.Proofs.Tree.Planting
import StyleMixins.Proofs.Tree.Rewording
import StyleMixins.Proofs.Tree.Traversals
import StyleMixins.Proofs.Tree.Upkeep
import StyleMixins.Proofs.Tree.Walks
