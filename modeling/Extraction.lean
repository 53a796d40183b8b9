import Extraction.CommandLine.Arguments
import Extraction.CommandLine.Range
import Extraction.CommandLine.Run
import Extraction.CommandLine.Usage
import Extraction.Config.Basic
import Extraction.Config.Layers
import Extraction.Config.Toml
import Extraction.Error
import Extraction.FileSystem
import Extraction.FileTree
import Extraction.Host
import Extraction.Host.File
import Extraction.Host.Memory
import Extraction.Host.Session
import Extraction.Json
import Extraction.Main
import Extraction.Naming
import Extraction.Path
import Extraction.Plan
import Extraction.Plan.Json
import Extraction.Proofs.Reading
import Extraction.Proofs.FirstCloseLayout
import Extraction.Proofs.Boundaries
import Extraction.Proofs.ScanResult
import Extraction.Proofs.CheckedRewire
import Extraction.Proofs.Preservation
import Extraction.Proofs.Rewritten
import Extraction.Proofs.FirstCloseRepeat
import Extraction.Proofs.Nesting
import Extraction.Proofs.Search
import Extraction.Selection
import Extraction.Source.Anchor
import Extraction.Source.Balanced
import Extraction.Source.Block
import Extraction.Source.FirstClose
import Extraction.Source.Mode
import Extraction.Source.Rewire
import Extraction.Source.Scan
import Extraction.Source.Token
import Extraction.Synthesis
import Extraction.Template.Engine
import Extraction.Template.Lexeme
import Extraction.Template.Parser
import Extraction.Template.Render
import Extraction.Text.Blank
import Extraction.Text.Byte
import Extraction.Text.Bytes
import Extraction.Text.Case
import Extraction.Text.CaseTable
import Extraction.Toml.Document
import Extraction.Toml.Scalar
import Extraction.Toml.Text
import Extraction.Toml.Value
import Extraction.Toml.Writer
import Extraction.Proofs.Walk
import Extraction.Proofs.TemplateTexts
import Extraction.Proofs.Layout
import Extraction.Proofs.TrueBlock
import Extraction.Proofs.Trimming
import Extraction.Proofs.Entries
import Extraction.Proofs.ImportLine
import Extraction.Proofs.Prepend
import Extraction.Proofs.TokenKinds
import Extraction.Proofs.Anchors
import Extraction.Proofs.Insert
import Extraction.Proofs.InsertTokens
import Extraction.Proofs.AnchorPieces
import Extraction.Proofs.Repeat
import Extraction.Proofs.MemoryRun
import Extraction.Proofs.SlugNames
import Extraction.Proofs.RepeatedRuns
import Extraction.Proofs.HostRun
import Extraction.Proofs.Planning
import Extraction.Proofs.FileRun
import Extraction.Proofs.JsonText
import Extraction.Proofs.ReadsOnly
import Extraction.Proofs.TreeEdits
import Extraction.Proofs.CommandRun
import Extraction.Proofs.DryRun
import Extraction.Proofs.Endings
import Extraction.Proofs.WriteOnce
import Extraction.Proofs.FailedCommand
import Extraction.Proofs.LiteralEdit
import Extraction.Proofs.Tokenization
import Extraction.Proofs.CodeCursor
import Extraction.Proofs.CursorScan
import Extraction.Proofs.PlainBlocks
import Extraction.Proofs.LastLine
import Extraction.Proofs.BuiltinTemplate
import Extraction.Proofs.Paths
import Extraction.Proofs.ArtifactNames
import Extraction.Proofs.Settings
import Extraction.Proofs.Workspace
import Extraction.Proofs.LayeredConfig
import Extraction.Proofs.TomlLines
import Extraction.Proofs.PrintedConfig
import Extraction.Proofs.FileSessions
import Extraction.Proofs.EntryKeys
import Extraction.Proofs.FirstCloseReading
import Extraction.Proofs.TextBehind
import Extraction.Proofs.LineBreaks
import Extraction.Proofs.CheckedPlan
import Extraction.Proofs.PlanAnswers
import Extraction.Proofs.PascalCase
import Extraction.Proofs.SuffixOnce
import Extraction.Proofs.LineSelection
import Extraction.Proofs.RangeTexts
import Extraction.Proofs.Offsets
import Extraction.Proofs.PlainTemplates
import Extraction.Proofs.SynthesizedText
import Extraction.Proofs.AnchorCursor
import Extraction.Proofs.AnchorPlace
