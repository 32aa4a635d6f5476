import GlyphTrim.ClassName.Resolution
import GlyphTrim.ClassName.Template
import GlyphTrim.ClassName.Usage
import GlyphTrim.CommandLine.Program
import GlyphTrim.CommandLine.Reader
import GlyphTrim.CommandLine.Similar
import GlyphTrim.CommandLine.Spec
import GlyphTrim.Config.Basic
import GlyphTrim.Config.Decode
import GlyphTrim.Config.Load
import GlyphTrim.Config.Violation
import GlyphTrim.Css.Scan
import GlyphTrim.Css.Sheet
import GlyphTrim.Css.Token
import GlyphTrim.Disk.Basic
import GlyphTrim.Disk.Changes
import GlyphTrim.Disk.Fault
import GlyphTrim.Disk.Tree
import GlyphTrim.Font.Block
import GlyphTrim.Font.CharMap
import GlyphTrim.Font.Face
import GlyphTrim.Glyph.Codepoint
import GlyphTrim.Glyph.Index
import GlyphTrim.Glyph.Plan
import GlyphTrim.Glyph.Pruned
import GlyphTrim.Issue.Finding
import GlyphTrim.Issue.Gap
import GlyphTrim.Json.Fault
import GlyphTrim.Json.Printer
import GlyphTrim.Json.Reader
import GlyphTrim.Json.Value
import GlyphTrim.Main
import GlyphTrim.Name.Map
import GlyphTrim.Number.Binary64
import GlyphTrim.Path
import GlyphTrim.Proofs.ClassName.Context
import GlyphTrim.Proofs.ClassName.Evaluation
import GlyphTrim.Proofs.ClassName.Exactness
import GlyphTrim.Proofs.ClassName.Grammar
import GlyphTrim.Proofs.ClassName.Hole
import GlyphTrim.Proofs.ClassName.Partition
import GlyphTrim.Proofs.ClassName.Resolution
import GlyphTrim.Proofs.ClassName.Seams
import GlyphTrim.Proofs.ClassName.Template
import GlyphTrim.Proofs.ClassName.Token
import GlyphTrim.Proofs.ClassName.Usage
import GlyphTrim.Proofs.ClassName.Wrapping
import GlyphTrim.Proofs.Config.Load
import GlyphTrim.Proofs.Config.Shape
import GlyphTrim.Proofs.Css.Assembly
import GlyphTrim.Proofs.Css.Balance
import GlyphTrim.Proofs.Css.Block
import GlyphTrim.Proofs.Css.Comment
import GlyphTrim.Proofs.Css.Cutting
import GlyphTrim.Proofs.Css.Ending
import GlyphTrim.Proofs.Css.Entries
import GlyphTrim.Proofs.Css.Filler
import GlyphTrim.Proofs.Css.LastToken
import GlyphTrim.Proofs.Css.Layout
import GlyphTrim.Proofs.Css.Lines
import GlyphTrim.Proofs.Css.Machine
import GlyphTrim.Proofs.Css.Margin
import GlyphTrim.Proofs.Css.Midst
import GlyphTrim.Proofs.Css.Nodes
import GlyphTrim.Proofs.Css.Outline
import GlyphTrim.Proofs.Css.Places
import GlyphTrim.Proofs.Css.Progress
import GlyphTrim.Proofs.Css.Reading
import GlyphTrim.Proofs.Css.Rejection
import GlyphTrim.Proofs.Css.Scan
import GlyphTrim.Proofs.Css.SelectorList
import GlyphTrim.Proofs.Css.Slash
import GlyphTrim.Proofs.Css.Slice
import GlyphTrim.Proofs.Css.Source
import GlyphTrim.Proofs.Css.Statement
import GlyphTrim.Proofs.Css.Tiling
import GlyphTrim.Proofs.Css.Token
import GlyphTrim.Proofs.Disk.Change
import GlyphTrim.Proofs.Disk.Following
import GlyphTrim.Proofs.Disk.Names
import GlyphTrim.Proofs.Disk.Normal
import GlyphTrim.Proofs.Disk.Place
import GlyphTrim.Proofs.Disk.View
import GlyphTrim.Proofs.Glyph.Cascade
import GlyphTrim.Proofs.Glyph.Codepoint
import GlyphTrim.Proofs.Glyph.Commented
import GlyphTrim.Proofs.Glyph.Content
import GlyphTrim.Proofs.Glyph.Escapes
import GlyphTrim.Proofs.Glyph.Growth
import GlyphTrim.Proofs.Glyph.Index
import GlyphTrim.Proofs.Glyph.Plan
import GlyphTrim.Proofs.Glyph.Pruned
import GlyphTrim.Proofs.Glyph.Ranges
import GlyphTrim.Proofs.Glyph.Sections
import GlyphTrim.Proofs.Glyph.Selection
import GlyphTrim.Proofs.Glyph.Selectors
import GlyphTrim.Proofs.Name.Map
import GlyphTrim.Proofs.Path.Name
import GlyphTrim.Proofs.Path.Normal
import GlyphTrim.Proofs.Path.Route
import GlyphTrim.Proofs.Path.Stable
import GlyphTrim.Proofs.Report.Caret
import GlyphTrim.Proofs.Report.Warnings
import GlyphTrim.Proofs.Run.Artifacts
import GlyphTrim.Proofs.Run.Emit
import GlyphTrim.Proofs.Run.Inputs
import GlyphTrim.Proofs.Run.Rearranged
import GlyphTrim.Proofs.Scan.Exclusion
import GlyphTrim.Proofs.Scan.Found
import GlyphTrim.Proofs.Scan.Merge
import GlyphTrim.Proofs.Scan.Walk
import GlyphTrim.Proofs.Survey
import GlyphTrim.Proofs.Text.Hex
import GlyphTrim.Proofs.Text.PlacedWords
import GlyphTrim.Proofs.Text.Position
import GlyphTrim.Proofs.Text.Token
import GlyphTrim.Proofs.Text.Trim
import GlyphTrim.Proofs.Text.Width
import GlyphTrim.Proofs.Text.Words
import GlyphTrim.Proofs.Tsx.Bare
import GlyphTrim.Proofs.Tsx.Pieces
import GlyphTrim.Report.Summary
import GlyphTrim.Report.Warnings
import GlyphTrim.Run.Command
import GlyphTrim.Run.Emit
import GlyphTrim.Run.Fault
import GlyphTrim.Run.Project
import GlyphTrim.Run.Subset
import GlyphTrim.Scan.Report
import GlyphTrim.Scan.Walk
import GlyphTrim.Text.Ascii
import GlyphTrim.Text.Blank
import GlyphTrim.Text.Identifier
import GlyphTrim.Text.Position
import GlyphTrim.Text.Quoted
import GlyphTrim.Text.Utf8
import GlyphTrim.Text.Width
import GlyphTrim.Tsx.Entity
import GlyphTrim.Tsx.Fault
import GlyphTrim.Tsx.Grammar.Arrow
import GlyphTrim.Tsx.Grammar.Basic
import GlyphTrim.Tsx.Grammar.Class
import GlyphTrim.Tsx.Grammar.Declaration
import GlyphTrim.Tsx.Grammar.Element
import GlyphTrim.Tsx.Grammar.Function
import GlyphTrim.Tsx.Grammar.Literal
import GlyphTrim.Tsx.Grammar.Operand
import GlyphTrim.Tsx.Grammar.Operator
import GlyphTrim.Tsx.Grammar.Pattern
import GlyphTrim.Tsx.Grammar.Statement
import GlyphTrim.Tsx.Grammar.Target
import GlyphTrim.Tsx.Grammar.Transfer
import GlyphTrim.Tsx.Grammar.Type
import GlyphTrim.Tsx.Lexer
import GlyphTrim.Tsx.Module
import GlyphTrim.Tsx.Syntax
import GlyphTrim.Tsx.Token
