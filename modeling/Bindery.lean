import Bindery.Json.Reader
import Bindery.Main
import Bindery.Proofs.Graph.Forest
import Bindery.Proofs.Graph.Walk
import Bindery.Proofs.Graph.Change
import Bindery.Proofs.Graph.Place
import Bindery.Proofs.Flags
import Bindery.Proofs.Graph.Kinds
import Bindery.Proofs.Pipeline.Logic
import Bindery.Proofs.Pipeline.Selector
import Bindery.Proofs.Graph.Preservation
import Bindery.Proofs.Pipeline.Rule
import Bindery.Proofs.Pipeline.Trim
import Bindery.Proofs.Pipeline.Attach
import Bindery.Proofs.Pipeline.Frame
import Bindery.Proofs.Pipeline.Move
import Bindery.Proofs.Pipeline.Trace
import Bindery.Proofs.Graph.Layout
import Bindery.Proofs.Graph.Plant
import Bindery.Proofs.Dump.Load
import Bindery.Proofs.Pipeline.Invariant
import Bindery.Proofs.Command.Run
import Bindery.Proofs.Pipeline.Home
import Bindery.Proofs.Pipeline.Conservation
import Bindery.Proofs.Pipeline.Marks
import Bindery.Proofs.Pipeline.Stage
import Bindery.Proofs.Pipeline.Standard
import Bindery.Proofs.Dump.Reads
import Bindery.Proofs.Dump.Words
import Bindery.Proofs.Dump.Spelling
import Bindery.Proofs.Dump.Types
import Bindery.Proofs.Dump.Takes
import Bindery.Proofs.Dump.Items
import Bindery.Proofs.Dump.Entries
import Bindery.Proofs.Dump.Blocks
import Bindery.Proofs.Dump.Contents
import Bindery.Proofs.Dump.RoundTrip
import Bindery.Proofs.Pipeline.Phase
import Bindery.Proofs.Graph.View
import Bindery.Proofs.Pipeline.Copy
import Bindery.Proofs.Dump.Alike
import Bindery.Proofs.Command.Generated
import Bindery.Proofs.Pipeline.Marking
import Bindery.Proofs.Json.Record
import Bindery.Proofs.FlagNames
import Bindery.Proofs.Graph.Stored
import Bindery.Proofs.Text.Occurrence
import Bindery.Proofs.Text.LineEnds
import Bindery.Proofs.Patch.Replacement
import Bindery.Proofs.Patch.Decoration
import Bindery.Proofs.Patch.Directives
import Bindery.Proofs.Patch.Idempotence
import Bindery.Proofs.Command.Cleanup
import Bindery.Proofs.Log.History
import Bindery.Proofs.Log.Session
import Bindery.Proofs.Pipeline.Count
import Bindery.Proofs.Pipeline.Renaming
import Bindery.Proofs.Pipeline.Report
import Bindery.Proofs.Summary
import Bindery.Proofs.Pipeline.Books
import Bindery.Proofs.Graph.Hoisting
import Bindery.Proofs.Pipeline.Consolidation
import Bindery.Proofs.Pipeline.Attachment
import Bindery.Proofs.Pipeline.ItemNames
import Bindery.Proofs.Pipeline.Hoisting
import Bindery.Proofs.Pipeline.Adoption
import Bindery.Proofs.Pipeline.Normalization
import Bindery.Proofs.Text.Raw
import Bindery.Proofs.File.Name
import Bindery.Proofs.File.Change
import Bindery.Proofs.Command.OutputPath
import Bindery.Proofs.Command.Effects
import Bindery.Proofs.Command.Artifacts
import Bindery.Proofs.Command.Modes
import Bindery.Proofs.Graph.Stack
import Bindery.Proofs.Graph.Building
import Bindery.Proofs.Graph.Liveness
import Bindery.Proofs.Pipeline.Resolution
import Bindery.Proofs.Dump.Order
import Bindery.Proofs.Graph.Outline
import Bindery.Proofs.Graph.Listing
import Bindery.Proofs.CommandLine.Argument
import Bindery.Proofs.Text.Lines
import Bindery.Proofs.Page
import Bindery.Proofs.Text.Joint
import Bindery.Proofs.Text.Quotation
import Bindery.Proofs.Patch.Settled
import Bindery.Proofs.Dump.Yields
import Bindery.Proofs.Dump.Formed
import Bindery.Proofs.Dump.Unambiguous
import Bindery.Proofs.Dump.Written
import Bindery.Proofs.Dump.Resolved
