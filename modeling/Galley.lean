import Galley.Text.Basic
import Galley.Text.CodePoint
import Galley.Text.Decimal
import Galley.Text.LetterCase
import Galley.Text.Utf8
import Galley.Number.Binary64
import Galley.Number.Shortest
import Galley.Number.Numeral
import Galley.Json.Basic
import Galley.Json.Reader
import Galley.Json.Writer
import Galley.Ordering
import Galley.Edit
import Galley.LineTable
import Galley.Fence
import Galley.Directive
import Galley.Markdown.Link
import Galley.Markdown.Html
import Galley.Markdown.Line
import Galley.Markdown.Block
import Galley.Markdown.Start
import Galley.Markdown.Leaf
import Galley.Markdown.Definition
import Galley.Markdown.Container
import Galley.Markdown.Inline
import Galley.Markdown.Document
import Galley.Anchor
import Galley.Diagram
import Galley.Preprocess
import Galley.Sha256
import Galley.Diagram.Key
import Galley.Diagram.Document
import Galley.Diagram.Message
import Galley.Diagram.Picture
import Galley.Text.Printable
import Galley.Json.Display
import Galley.SourceMap.Query
import Galley.SourceMap.Basic
import Galley.SourceMap.Load
import Galley.Path
import Galley.FileTree
import Galley.Settings
import Galley.Compiler
import Galley.Workspace
import Galley.Diagram.Compile
import Galley.Cache
import Galley.Assets
import Galley.Build
import Galley.CommandLine.Grammar
import Galley.CommandLine
import Galley.Main
import Galley.Proofs.Ordering
import Galley.Proofs.Splice
import Galley.Proofs.Weave
import Galley.Proofs.LineTable
import Galley.Proofs.Markdown.Spans
import Galley.Proofs.Markdown.Notes
import Galley.Proofs.Markdown.Openings
import Galley.Proofs.Markdown.FirstLines
import Galley.Proofs.Pieces
import Galley.Proofs.Fences
import Galley.Proofs.Numerals
import Galley.Proofs.Directives
import Galley.Proofs.Arguments
import Galley.Proofs.Replacing
import Galley.Proofs.Comments
import Galley.Proofs.Anchors
import Galley.Proofs.Labels
import Galley.Proofs.Passes
import Galley.Proofs.Files
import Galley.Proofs.Steps
import Galley.Proofs.Scratch
import Galley.Proofs.EntryNames
import Galley.Proofs.Rendering
import Galley.Proofs.Resolving
import Galley.Proofs.Pictures
import Galley.Proofs.CacheRuns
import Galley.Proofs.Transparency
import Galley.Proofs.Placing
import Galley.Proofs.Isolation
import Galley.Proofs.Utf8
import Galley.Proofs.Preparing
import Galley.Proofs.Extraction
import Galley.Proofs.Costs
import Galley.Proofs.Pruning
import Galley.Proofs.Accounts
import Galley.Proofs.Markdown.Order
import Galley.Proofs.Tables
import Galley.Proofs.Walks
import Galley.Proofs.Merging
import Galley.Proofs.Rounding
import Galley.Proofs.Faults
import Galley.Proofs.Reading
import Galley.Proofs.Loading
import Galley.Proofs.Bodies
import Galley.Proofs.Words
import Galley.Proofs.Options
import Galley.Proofs.Magnitudes
import Galley.Proofs.Decimals
import Galley.Proofs.Layouts
import Galley.Proofs.Tokens
import Galley.Proofs.Writing
import Galley.Proofs.RoundTrip
import Galley.Proofs.Storing
import Galley.Proofs.Grammar
import Galley.Proofs.Publishing
import Galley.Proofs.Hoisting
import Galley.Proofs.Cleanup
import Galley.Proofs.InfoStrings
import Galley.Proofs.Messages
import Galley.Proofs.Endings
import Galley.Proofs.Assembly
import Galley.Proofs.Positions
import Galley.Proofs.Scales
import Galley.Proofs.Lookup
import Galley.Proofs.LabelledBlocks
