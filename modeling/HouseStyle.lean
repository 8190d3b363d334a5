import HouseStyle.Text.Utf8
import HouseStyle.Text.Case
import HouseStyle.Text.Quoted
import HouseStyle.Text.Lines
import HouseStyle.Token.Lexer
import HouseStyle.Value.Basic
import HouseStyle.Json.Reader
import HouseStyle.Json.Writer
import HouseStyle.Outline.Query
import HouseStyle.Finding.Place
import HouseStyle.Suppression
import HouseStyle.Rule.Registry
import HouseStyle.Edit.Report
import HouseStyle.Files.Glob
import HouseStyle.Engine
import HouseStyle.Report.Document
import HouseStyle.Report.Sarif
import HouseStyle.Report.Listing
import HouseStyle.Report.Format
import HouseStyle.Yaml.Reader
import HouseStyle.Config.File
import HouseStyle.Files.Discovery
import HouseStyle.Session
import HouseStyle.Cli.Option
import HouseStyle.Cli.Usage
import HouseStyle.Cli.Invocation
import HouseStyle.Config.Template
import HouseStyle.Styled.Table
import HouseStyle.Cli.Action
import HouseStyle.Cli.Execution
import HouseStyle.Main
import HouseStyle.Proofs.Engine.Rounds
import HouseStyle.Proofs.Token.Place
import HouseStyle.Proofs.Outline.Pairs
import HouseStyle.Proofs.Outline.Housed
import HouseStyle.Proofs.Outline.Forest
import HouseStyle.Proofs.Outline.Groups
import HouseStyle.Proofs.Outline.Coverage
import HouseStyle.Proofs.Engine.Nesting
import HouseStyle.Proofs.Engine.Suppressed
import HouseStyle.Proofs.Session.Threshold
import HouseStyle.Proofs.Report.Order
import HouseStyle.Proofs.Session.Schedule
import HouseStyle.Proofs.Engine.Independent
import HouseStyle.Proofs.Edit.Splice
import HouseStyle.Proofs.Session.Repeated
import HouseStyle.Proofs.Rule.Apart
import HouseStyle.Proofs.Session.FixedFile
import HouseStyle.Proofs.Files.Path
import HouseStyle.Proofs.Files.Place
import HouseStyle.Proofs.Files.Discovered
import HouseStyle.Proofs.Files.Complete
import HouseStyle.Proofs.Session.OnDisk
import HouseStyle.Proofs.Session.Bytes
import HouseStyle.Proofs.Token.Local
import HouseStyle.Proofs.Token.Nested
import HouseStyle.Proofs.Rule.Terminated
import HouseStyle.Proofs.Outline.Bindings
import HouseStyle.Proofs.Outline.Spaces
import HouseStyle.Proofs.Edit.Parens
import HouseStyle.Proofs.Outline.Parenthesized
import HouseStyle.Proofs.Outline.Unparenthesized
import HouseStyle.Proofs.Rule.Wrapping
import HouseStyle.Proofs.Outline.Within
import HouseStyle.Proofs.Rule.Crowded
import HouseStyle.Proofs.Rule.Grouped
import HouseStyle.Proofs.Rule.Normalized
import HouseStyle.Proofs.Rule.Shadowed
import HouseStyle.Proofs.Rule.Unwrapped
import HouseStyle.Proofs.Report.Shown
import HouseStyle.Proofs.Report.Formats
import HouseStyle.Proofs.Edit.Reordered
import HouseStyle.Proofs.Edit.Readable
import HouseStyle.Proofs.Report.Restored
import HouseStyle.Proofs.Config.RoundTrip
import HouseStyle.Proofs.Outline.Classified
import HouseStyle.Proofs.Rule.History
import HouseStyle.Proofs.Engine.Settled
