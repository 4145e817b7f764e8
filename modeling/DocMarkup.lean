import DocMarkup.Compiler
import DocMarkup.CopyExpansion
import DocMarkup.Render.Linked
import DocMarkup.SectionLabel
import DocMarkup.Proofs.Scanner.Lexeme
import DocMarkup.Proofs.Scanner.Progress
import DocMarkup.Proofs.Parser.Reading
import DocMarkup.Proofs.Doc.Grammar
import DocMarkup.Proofs.Parser.Frames
import DocMarkup.Proofs.Parser.Turn
import DocMarkup.Proofs.Parser.Paragraph
import DocMarkup.Proofs.Parser.Resource
import DocMarkup.Proofs.Parser.Inline
import DocMarkup.Proofs.Parser.Block
import DocMarkup.Proofs.Parser.Markup
import DocMarkup.Proofs.Parser.Step
import DocMarkup.Proofs.Parser.Run
import DocMarkup.Proofs.Parser.Termination
import DocMarkup.Proofs.Doc.Grid
import DocMarkup.Proofs.Parser.Soundness
import DocMarkup.Proofs.Parser.Conformance
import DocMarkup.Proofs.Doc.Balance
import DocMarkup.Proofs.Doc.Linking
import DocMarkup.Proofs.Render.Hiding
import DocMarkup.Proofs.Compiler
import DocMarkup.Proofs.Scanner.Extent
import DocMarkup.Proofs.Scanner.Tiling
import DocMarkup.Proofs.Parser.Spans
import DocMarkup.Proofs.Parser.StyleSteps
import DocMarkup.Proofs.Parser.StyleTurns
import DocMarkup.Proofs.Parser.Nesting
import DocMarkup.Proofs.Parser.StyleAccount
import DocMarkup.Proofs.Doc.Runs
import DocMarkup.Proofs.Parser.Growth
import DocMarkup.Proofs.Parser.Runs
import DocMarkup.Proofs.Parser.Sections
import DocMarkup.Proofs.Render.Inert
import DocMarkup.Proofs.Parser.Elements
import DocMarkup.Proofs.Html.Tags
import DocMarkup.Proofs.Html.Escape
import DocMarkup.Proofs.Html.Elements
import DocMarkup.Proofs.Render.ElementTags
import DocMarkup.Proofs.Render.Elements
import DocMarkup.Proofs.Scanner.Words
import DocMarkup.Proofs.Scanner.Signs
import DocMarkup.Proofs.Parser.RunningText
import DocMarkup.Proofs.Parser.RawBlocks
import DocMarkup.Proofs.Parser.Escapes
import DocMarkup.Proofs.Parser.Prose
import DocMarkup.Proofs.Render.Prose
import DocMarkup.Proofs.Parser.Counting
import DocMarkup.Proofs.Parser.Comments
import DocMarkup.Proofs.Parser.StartLine
import DocMarkup.Proofs.Parser.Lines
import DocMarkup.Proofs.Parser.Places
import DocMarkup.Proofs.Parser.Tracing
import DocMarkup.Proofs.Parser.Headings
import DocMarkup.Proofs.Parser.Positions
import DocMarkup.Proofs.Doc.Slots
import DocMarkup.Proofs.Alias.Places
import DocMarkup.Proofs.Alias.Nesting
import DocMarkup.Proofs.Alias.Commands
import DocMarkup.Proofs.Doc.Faults
import DocMarkup.Proofs.Doc.Copies
import DocMarkup.Proofs.CopyExpansion
import DocMarkup.Proofs.Render.Steps
import DocMarkup.Proofs.Render.DiagramNames
import DocMarkup.Proofs.Diagrams
import DocMarkup.Proofs.Html.Markup
import DocMarkup.Proofs.Html.Sealed
import DocMarkup.Proofs.Render.Markup
import DocMarkup.Proofs.Injection
import DocMarkup.Proofs.LineEnds
import DocMarkup.Proofs.RepeatedExpansion
import DocMarkup.Proofs.Parser.Preformatted
import DocMarkup.Proofs.Parser.InlineStyles
import DocMarkup.Proofs.Parser.AutoLists
import DocMarkup.Proofs.IncludeBuffer
import DocMarkup.Proofs.Scanner.Comments
import DocMarkup.Proofs.Parser.PlainText
import DocMarkup.Proofs.Parser.NormalForm
import DocMarkup.Proofs.Alias.Unchanged
import DocMarkup.Proofs.Alias.Arguments
import DocMarkup.Proofs.Scanner.Terminators
import DocMarkup.Proofs.Text.Snippets
import DocMarkup.Proofs.Number.Rounding
import DocMarkup.Proofs.Doc.Columns
import DocMarkup.Proofs.Doc.Trees
import DocMarkup.Proofs.Doc.Contents
import DocMarkup.Proofs.Doc.TableGrid
import DocMarkup.Proofs.Doc.LinkedCopies
import DocMarkup.Proofs.Text.CodePoints
import DocMarkup.Proofs.Html.IndexAnchor
import DocMarkup.Proofs.Html.Unescape
import DocMarkup.Proofs.Html.Code
import DocMarkup.Proofs.Entity.Numbers
import DocMarkup.Proofs.Settings
import DocMarkup.Proofs.Parser.InHand
import DocMarkup.Proofs.Scanner.Arguments
import DocMarkup.Proofs.Scanner.Boundaries
