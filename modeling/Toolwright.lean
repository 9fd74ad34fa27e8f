import Toolwright.Archive.Fetcher
import Toolwright.Archive.Synchronizer
import Toolwright.CommandLine.Argument
import Toolwright.CommandLine.Basic
import Toolwright.CommandLine.Message
import Toolwright.Css.Match
import Toolwright.Css.Parser
import Toolwright.Css.Selector
import Toolwright.Css.Token
import Toolwright.Decimal.Notation
import Toolwright.Decimal.Shortest
import Toolwright.Description.Basic
import Toolwright.Description.Canonical
import Toolwright.Description.Reader
import Toolwright.Description.Reference
import Toolwright.Discovery
import Toolwright.Duration
import Toolwright.Failure
import Toolwright.Files.Fault
import Toolwright.Files.Path
import Toolwright.Files.Tree
import Toolwright.Hash
import Toolwright.Html.Basic
import Toolwright.Html.Doctype
import Toolwright.Html.Draft.Body
import Toolwright.Html.Draft.Foreign
import Toolwright.Html.Draft.Formatting
import Toolwright.Html.Draft.Rules
import Toolwright.Html.Draft.State
import Toolwright.Html.Draft.Table
import Toolwright.Html.Draft.Tree
import Toolwright.Html.Entity
import Toolwright.Html.Parse
import Toolwright.Html.Reference
import Toolwright.Html.Spot
import Toolwright.Html.Token
import Toolwright.Json.Basic
import Toolwright.Json.Fault
import Toolwright.Json.Reader
import Toolwright.Json.Record
import Toolwright.Json.Writer
import Toolwright.Loading
import Toolwright.Main
import Toolwright.Program
import Toolwright.Proofs.Description.Depth
import Toolwright.Proofs.Description.Normal
import Toolwright.Proofs.Description.RoundTrip
import Toolwright.Proofs.Files.Directory
import Toolwright.Proofs.Files.Walk
import Toolwright.Proofs.Files.Write
import Toolwright.Proofs.Json.Depth
import Toolwright.Proofs.Json.Gives
import Toolwright.Proofs.Json.Record
import Toolwright.Proofs.Json.RoundTrip
import Toolwright.Proofs.Json.Scalar
import Toolwright.Proofs.Loading.Again
import Toolwright.Proofs.Loading.Defect
import Toolwright.Proofs.Loading.Reload
import Toolwright.Proofs.Saving
import Toolwright.Proofs.Wrapper.ReadOnly
import Toolwright.Proofs.Wrapper.Tidied
import Toolwright.Proofs.Wrapper.Vocabulary
import Toolwright.Rendering
import Toolwright.Run
import Toolwright.Saving
import Toolwright.Selector.Extract
import Toolwright.Selector.PathCss
import Toolwright.Selector.XPath
import Toolwright.Settings.Basic
import Toolwright.Settings.Load
import Toolwright.Settings.LogFilter
import Toolwright.Settings.Reader
import Toolwright.Text.Blank
import Toolwright.Text.Lines
import Toolwright.Text.Literal
import Toolwright.Text.Part
import Toolwright.Text.Printable
import Toolwright.Text.Similarity
import Toolwright.Text.Utf8
import Toolwright.Url.Address
import Toolwright.Url.Host
import Toolwright.Url.Percent
import Toolwright.Wrapper.Casing
import Toolwright.Wrapper.Default
import Toolwright.Wrapper.Item
import Toolwright.Wrapper.Layout
import Toolwright.Wrapper.TypeShape
import Toolwright.Wrapper.Variant
import Toolwright.Yaml.Cursor
import Toolwright.Yaml.Document
import Toolwright.Yaml.Fault
import Toolwright.Yaml.Meaning
import Toolwright.Yaml.Scalar
import Toolwright.Yaml.Tag
import Toolwright.Yaml.Token
import Toolwright.Proofs.Archive.Isolation
import Toolwright.Archive.Overlap
import Toolwright.Proofs.Archive.Overlap
import Toolwright.Proofs.Selector.Grammar
import Toolwright.Proofs.Selector.Reader
import Toolwright.Proofs.Selector.Tokens
import Toolwright.Proofs.Selector.Pieces
import Toolwright.Proofs.Selector.Compiled
import Toolwright.Proofs.Html.Spot
import Toolwright.Proofs.Css.Match
import Toolwright.Proofs.Selector.Reading
import Toolwright.Proofs.Selector.Finding
import Toolwright.Proofs.Discovery
import Toolwright.Proofs.Files.Beside
import Toolwright.Proofs.Files.Name
import Toolwright.Proofs.Files.Parent
import Toolwright.Proofs.Files.Places
import Toolwright.Proofs.Files.Blocked
import Toolwright.Proofs.Files.Level
import Toolwright.Proofs.Run.Product
import Toolwright.Proofs.Run.Step
import Toolwright.Proofs.Run.Course
import Toolwright.Proofs.Run.Frame
import Toolwright.Proofs.Run.Apart
import Toolwright.Proofs.Run.DryRun
import Toolwright.Proofs.Run.Settled
import Toolwright.Proofs.Run.Again
import Toolwright.Proofs.Run.Twice
import Toolwright.Proofs.Run.Turn
import Toolwright.Proofs.Run.Report
import Toolwright.Proofs.Files.Aim
import Toolwright.Proofs.Files.Laying
import Toolwright.Proofs.Files.Overlay
import Toolwright.Proofs.Run.Alone
import Toolwright.Proofs.Run.Marks
import Toolwright.Proofs.Run.Separate
import Toolwright.Proofs.Run.Among
import Toolwright.Proofs.Run.Isolated
import Toolwright.Proofs.Text.Part
import Toolwright.Proofs.Loading.Wiring
import Toolwright.Proofs.Wrapper.Casing
import Toolwright.Proofs.Wrapper.Declaration
import Toolwright.Proofs.Wrapper.Identifier
import Toolwright.Proofs.Wrapper.Keyword
import Toolwright.Proofs.Wrapper.Member
import Toolwright.Proofs.Wrapper.Distinct
import Toolwright.Proofs.Wrapper.Settings
import Toolwright.Proofs.Text.Lines
import Toolwright.Proofs.Wrapper.Preamble
import Toolwright.Proofs.Loading.Owners
import Toolwright.Proofs.Saving.WriteBack
import Toolwright.Proofs.Json.Numbers
import Toolwright.Proofs.Json.Pointer
import Toolwright.Proofs.Description.Numbers
import Toolwright.Proofs.Description.Layout
import Toolwright.Proofs.Description.Site
import Toolwright.Proofs.Json.Wording
import Toolwright.Proofs.Description.Wording
import Toolwright.Proofs.Decimal.Rounding
import Toolwright.Proofs.Decimal.Interval
import Toolwright.Proofs.Decimal.Digits
import Toolwright.Proofs.Decimal.Shortest
import Toolwright.Proofs.Json.Scaled
import Toolwright.Proofs.Json.Real
import Toolwright.Proofs.Description.Emission
import Toolwright.Proofs.Selector.Strength
import Toolwright.Proofs.Selector.Translation
import Toolwright.Proofs.Loading.Valid
import Toolwright.Proofs.Text.Literal
import Toolwright.Proofs.Wrapper.Variant
import Toolwright.Proofs.Wrapper.TypeShape
import Toolwright.Proofs.Wrapper.Line
import Toolwright.Proofs.Wrapper.Shown
import Toolwright.Proofs.Wrapper.ClassText
import Toolwright.Proofs.Wrapper.Meaning
import Toolwright.Proofs.Wrapper.Default
import Toolwright.Proofs.Wrapper.Method
import Toolwright.Proofs.Wrapper.Statement
import Toolwright.Proofs.Wrapper.Argument
import Toolwright.Files.Glob
import Toolwright.Proofs.Wrapper.Recased
import Toolwright.Proofs.Wrapper.Container
import Toolwright.Proofs.Selector.Scanner
import Toolwright.Proofs.Files.Glob
import Toolwright.Proofs.Files.Expansion
import Toolwright.Proofs.Discovery.Exact
import Toolwright.Proofs.Wrapper.Naming
import Toolwright.Proofs.Text.Sealed
