import StyleFlip.Directive.Form
import StyleFlip.Directive.Mark
import StyleFlip.Document.Basic
import StyleFlip.Document.Double
import StyleFlip.Document.Json
import StyleFlip.Document.Toml.Entries
import StyleFlip.Document.Toml.Moment
import StyleFlip.Document.Toml.Parser
import StyleFlip.Document.Toml.Quoted
import StyleFlip.Document.Toml.Scalar
import StyleFlip.Engine.Basic
import StyleFlip.Engine.Comments
import StyleFlip.Engine.Declarations
import StyleFlip.Engine.Pattern
import StyleFlip.Engine.Plugin
import StyleFlip.Engine.Registry
import StyleFlip.Engine.Run
import StyleFlip.Engine.Scene
import StyleFlip.Engine.Walk
import StyleFlip.Options.Basic
import StyleFlip.Options.Decode
import StyleFlip.Options.Discovery
import StyleFlip.Scripted
import StyleFlip.Sheet.Basic
import StyleFlip.Sheet.Declaration
import StyleFlip.Sheet.Item
import StyleFlip.Sheet.Parser
import StyleFlip.Sheet.Segment
import StyleFlip.Standard.Basic
import StyleFlip.Standard.Control
import StyleFlip.Standard.Row
import StyleFlip.Standard.Rules
import StyleFlip.Standard.Value
import StyleFlip.StringMap
import StyleFlip.Swap
import StyleFlip.Text.Basic
import StyleFlip.Text.Comment
import StyleFlip.Text.Fold
import StyleFlip.Text.Lower
import StyleFlip.Text.Quoted
import StyleFlip.Text.Ranges
import StyleFlip.Text.Word
import StyleFlip.Proofs.Layout
import StyleFlip.Proofs.RoundTrip
import StyleFlip.Proofs.Traversal
import StyleFlip.Proofs.Moments
import StyleFlip.Proofs.DirectiveFree
import StyleFlip.Proofs.AutoRename
import StyleFlip.Proofs.Locality
import StyleFlip.Proofs.IgnoreScope
import StyleFlip.Proofs.Closing
import StyleFlip.Proofs.Course
import StyleFlip.Proofs.Edits
import StyleFlip.Proofs.StrictRename
import StyleFlip.Proofs.Stripping
import StyleFlip.Proofs.ValueMarks
import StyleFlip.Proofs.RenameTwice
import StyleFlip.Proofs.Twins
import StyleFlip.Proofs.Cleaning
import StyleFlip.Proofs.Trail
import StyleFlip.Proofs.IgnoreBlock
import StyleFlip.Proofs.OptionsBlocks
import StyleFlip.Proofs.Counting
import StyleFlip.Proofs.Balance
import StyleFlip.Proofs.Reuse
import StyleFlip.Proofs.Rereading
import StyleFlip.Proofs.Pruning
import StyleFlip.Proofs.Rewriting
import StyleFlip.Proofs.Detaching
import StyleFlip.Proofs.Inert
import StyleFlip.Proofs.Links
import StyleFlip.Proofs.RawNodes
import StyleFlip.Proofs.Rows
import StyleFlip.Proofs.Corners
import StyleFlip.Proofs.Placeholders
import StyleFlip.Proofs.Restoring
import StyleFlip.Proofs.ValueComments
import StyleFlip.Proofs.EdgeComments
import StyleFlip.Proofs.Swaps
import StyleFlip.Proofs.WordMaps
import StyleFlip.Proofs.Keywords
import StyleFlip.Proofs.ClosingForms
import StyleFlip.Proofs.Marks
import StyleFlip.Proofs.MarkedValues
import StyleFlip.Proofs.FlipCounts
import StyleFlip.Proofs.MarkedRuns
import StyleFlip.Proofs.WrittenForms
import StyleFlip.Proofs.GateWalk
import StyleFlip.Proofs.Lexemes
import StyleFlip.Proofs.Sources
import StyleFlip.Proofs.Fields
import StyleFlip.Proofs.Bytes
import StyleFlip.Proofs.Slices
import StyleFlip.Proofs.Faults
import StyleFlip.Proofs.Grafting
import StyleFlip.Proofs.Numbering
import StyleFlip.Proofs.Dispatch
import StyleFlip.Proofs.JsonTexts
import StyleFlip.Proofs.Spans
import StyleFlip.Proofs.EntryDocuments
import StyleFlip.Proofs.OptionDocuments
