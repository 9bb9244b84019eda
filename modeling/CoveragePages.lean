import CoveragePages.Binary64.Basic
import CoveragePages.CommandLine.Arguments
import CoveragePages.CommandLine.Run
import CoveragePages.Coverage.Classes
import CoveragePages.Coverage.Limits
import CoveragePages.Decimal.Fixed
import CoveragePages.Decimal.Literal
import CoveragePages.Decimal.Shortest
import CoveragePages.Dict
import CoveragePages.Failure
import CoveragePages.Files.Disk
import CoveragePages.Files.Path
import CoveragePages.Files.Store
import CoveragePages.Files.Walk
import CoveragePages.Glob.Basic
import CoveragePages.Glob.Means
import CoveragePages.Glob.Pattern
import CoveragePages.Glob.Reader
import CoveragePages.Glob.Written
import CoveragePages.Header
import CoveragePages.Json.Basic
import CoveragePages.Json.Decode
import CoveragePages.Json.Printer
import CoveragePages.Json.Refusal
import CoveragePages.Json.Scan
import CoveragePages.Json.Tree
import CoveragePages.Main
import CoveragePages.Markup.Escape
import CoveragePages.Markup.Page
import CoveragePages.Markup.Style
import CoveragePages.Markup.Template
import CoveragePages.Page
import CoveragePages.Plan.Apply
import CoveragePages.Plan.Basic
import CoveragePages.Proofs.Binary64.Rounding
import CoveragePages.Proofs.Coverage.Bounds
import CoveragePages.Proofs.Coverage.Classes
import CoveragePages.Proofs.Coverage.Correspondence
import CoveragePages.Proofs.Coverage.Percent
import CoveragePages.Proofs.Coverage.Ratio
import CoveragePages.Proofs.Dict
import CoveragePages.Proofs.Files.Below
import CoveragePages.Proofs.Files.Changes
import CoveragePages.Proofs.Files.Directories
import CoveragePages.Proofs.Files.Faults
import CoveragePages.Proofs.Files.Locate
import CoveragePages.Proofs.Files.Path
import CoveragePages.Proofs.Files.Process
import CoveragePages.Proofs.Files.Walk
import CoveragePages.Proofs.Json.Grammar
import CoveragePages.Proofs.Json.Printing
import CoveragePages.Proofs.Json.Reading
import CoveragePages.Proofs.Json.Shape
import CoveragePages.Proofs.Json.Strict
import CoveragePages.Proofs.Json.Token
import CoveragePages.Proofs.Markup.Count
import CoveragePages.Proofs.Markup.Data
import CoveragePages.Proofs.Markup.Document
import CoveragePages.Proofs.Markup.Escape
import CoveragePages.Proofs.Markup.Fragment
import CoveragePages.Proofs.Markup.Row
import CoveragePages.Proofs.Markup.ScriptData
import CoveragePages.Proofs.Markup.ScriptEnd
import CoveragePages.Proofs.Markup.SortScript
import CoveragePages.Proofs.Markup.Template
import CoveragePages.Proofs.Page.Encodings
import CoveragePages.Proofs.Page.Recognition
import CoveragePages.Proofs.Page.Statements
import CoveragePages.Proofs.Plan.Application
import CoveragePages.Proofs.Plan.Calls
import CoveragePages.Proofs.Plan.Repetition
import CoveragePages.Proofs.Report.Builds
import CoveragePages.Proofs.Report.Interleaving
import CoveragePages.Proofs.Report.Loading
import CoveragePages.Proofs.Report.Outputs
import CoveragePages.Proofs.Report.Precedence
import CoveragePages.Proofs.Report.Rendering
import CoveragePages.Proofs.Report.Replacement
import CoveragePages.Proofs.Report.Site
import CoveragePages.Proofs.Report.Stages
import CoveragePages.Proofs.Script.Accepted
import CoveragePages.Proofs.Script.Literals
import CoveragePages.Proofs.Script.Lockstep
import CoveragePages.Proofs.Script.Positions
import CoveragePages.Proofs.Script.Reader
import CoveragePages.Proofs.Script.Rounds
import CoveragePages.Proofs.Script.Scan
import CoveragePages.Proofs.Script.Trailing
import CoveragePages.Proofs.Script.Value
import CoveragePages.Proofs.Script.Written
import CoveragePages.Proofs.Settings.Accepted
import CoveragePages.Proofs.Settings.Written
import CoveragePages.Proofs.Surface.Agreement
import CoveragePages.Proofs.Surface.Filling
import CoveragePages.Proofs.Surface.LastCall
import CoveragePages.Proofs.Surface.Registers
import CoveragePages.Proofs.Text.Blank
import CoveragePages.Proofs.Text.Bytes
import CoveragePages.Proofs.Text.Occurrences
import CoveragePages.Proofs.Text.Search
import CoveragePages.Records.Basic
import CoveragePages.Records.Rows
import CoveragePages.Report.Load
import CoveragePages.Report.Publish
import CoveragePages.Script.Reader
import CoveragePages.Script.Scan
import CoveragePages.Settings
import CoveragePages.Sorting
import CoveragePages.Surface.Basic
import CoveragePages.Surface.Recorder
import CoveragePages.Text.Blank
import CoveragePages.Text.Bytes
import CoveragePages.Text.Printable
import CoveragePages.Text.Quoted
import CoveragePages.Text.Search
