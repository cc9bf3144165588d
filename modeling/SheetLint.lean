import SheetLint.Arguments
import SheetLint.Check
import SheetLint.Config
import SheetLint.Config.Comment
import SheetLint.Describe
import SheetLint.Diagnostic
import SheetLint.Event
import SheetLint.Exclusions
import SheetLint.Fault
import SheetLint.Folder
import SheetLint.Glob
import SheetLint.Glob.Expression
import SheetLint.Glob.Reader
import SheetLint.Json.Number
import SheetLint.Json.Reader
import SheetLint.Json.Writer
import SheetLint.Keyed
import SheetLint.Linter
import SheetLint.Main
import SheetLint.Path
import SheetLint.Pattern
import SheetLint.Pattern.Marked
import SheetLint.Plan
import SheetLint.Probe
import SheetLint.Program
import SheetLint.Report
import SheetLint.Resource
import SheetLint.Resource.Local
import SheetLint.Resource.PathTest
import SheetLint.Resource.Reference
import SheetLint.Resource.Scope
import SheetLint.Resource.Url
import SheetLint.Rule
import SheetLint.RuleSet
import SheetLint.Run
import SheetLint.Source
import SheetLint.Stylesheet
import SheetLint.Stylesheet.Item
import SheetLint.Stylesheet.Skip
import SheetLint.Stylesheet.Value
import SheetLint.Summary
import SheetLint.Text.Ascii
import SheetLint.Text.Blank
import SheetLint.Text.Cut
import SheetLint.Text.Extender
import SheetLint.Text.Printable
import SheetLint.Text.Runs
import SheetLint.Text.Utf8
import SheetLint.Token
import SheetLint.Token.Grammar
import SheetLint.Token.Lexer
import SheetLint.Token.Target
import SheetLint.Proofs.Reading
import SheetLint.Proofs.Nesting
import SheetLint.Proofs.Isolation
import SheetLint.Proofs.Position
import SheetLint.Proofs.TokenOrder
import SheetLint.Proofs.SourceOrder
import SheetLint.Proofs.Dispatch
import SheetLint.Proofs.ResourceRun
import SheetLint.Proofs.Coverage
import SheetLint.Proofs.Layout
import SheetLint.Proofs.Diagnostics
import SheetLint.Proofs.Braces
import SheetLint.Proofs.BlockEnds
import SheetLint.Proofs.SheetGrammar
import SheetLint.Proofs.Acceptance
import SheetLint.Proofs.Matching
import SheetLint.Proofs.Readings
import SheetLint.Proofs.LongestMatch
import SheetLint.Proofs.Independence
import SheetLint.Proofs.Timeline
import SheetLint.Proofs.Probing
import SheetLint.Proofs.Scheduling
import SheetLint.Proofs.UrlParts
import SheetLint.Proofs.EventOrder
import SheetLint.Proofs.Gaps
import SheetLint.Proofs.QuotedTargets
import SheetLint.Proofs.BareTargets
import SheetLint.Proofs.Segments
import SheetLint.Proofs.ValueParts
import SheetLint.Proofs.OutsideGroups
import SheetLint.Proofs.ImportantMarks
import SheetLint.Proofs.Resumption
import SheetLint.Proofs.UnclosedBlocks
import SheetLint.Proofs.UrlBlanks
import SheetLint.Proofs.PathTests
import SheetLint.Proofs.Counting
import SheetLint.Proofs.RuleLevels
import SheetLint.Proofs.Origins
import SheetLint.Proofs.MachineLines
import SheetLint.Proofs.Snippets
import SheetLint.Proofs.CommentedConfigs
import SheetLint.Proofs.Discovery
import SheetLint.Proofs.Registration
import SheetLint.Proofs.Cursor
import SheetLint.Proofs.Loops
import SheetLint.Proofs.Progress
import SheetLint.Proofs.Skipping
import SheetLint.Proofs.ImportQueries
