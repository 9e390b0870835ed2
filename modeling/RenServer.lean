import RenServer.Text.Lines
import RenServer.Text.Blank
import RenServer.Text.Digit
import RenServer.Text.Hex
import RenServer.Text.Numeral
import RenServer.Text.Cut
import RenServer.Text.Printable
import RenServer.Text.Quoted
import RenServer.Text.Utf8
import RenServer.Path
import RenServer.Uri.Host
import RenServer.Uri
import RenServer.Position
import RenServer.Report.Symbols
import RenServer.Report.Findings
import RenServer.Diagnostic
import RenServer.Snapshot
import RenServer.Snippet
import RenServer.Completion
import RenServer.Decimal
import RenServer.Double
import RenServer.Value
import RenServer.Settings
import RenServer.LogLevel
import RenServer.Toml.Scan
import RenServer.Toml.Number
import RenServer.Toml.Node
import RenServer.Toml.Document
import RenServer.Environment
import RenServer.CompilerChoice
import RenServer.Compile.Process
import RenServer.Compile.Engine
import RenServer.Server.State
import RenServer.Server.Analysis
import RenServer.Server.Requests
import RenServer.CommandLine
import RenServer.Main
import RenServer.Proofs.Compile.Turns
import RenServer.Proofs.Compile.Linked
import RenServer.Proofs.Compile.History
import RenServer.Proofs.Compile.Acts
import RenServer.Proofs.Compile.NewestWins
import RenServer.Proofs.Server.Steps
import RenServer.Proofs.Server.Superseded
import RenServer.Proofs.Server.Replay
import RenServer.Proofs.Compile.Processes
import RenServer.Proofs.Server.SingleFlight
import RenServer.Proofs.Snapshot.Document
import RenServer.Proofs.Server.Closed
import RenServer.Proofs.Text.ReadBack
import RenServer.Proofs.Report.Printed
import RenServer.Proofs.Report.Findings
import RenServer.Proofs.Report.Diagnosis
import RenServer.Proofs.Server.Endings
import RenServer.Proofs.Server.Spared
import RenServer.Proofs.Snapshot.ValidScopes
import RenServer.Proofs.Completion.Expansion
import RenServer.Proofs.Report.Grammar
import RenServer.Proofs.Server.Precedence
import RenServer.Proofs.Report.LineByLine
import RenServer.Proofs.Completion.Carried
import RenServer.Proofs.Report.Reconciled
import RenServer.Proofs.Text.Encoded
import RenServer.Proofs.Snapshot.EitherOrder
import RenServer.Proofs.Snapshot.Undo
import RenServer.Proofs.Completion.Intervals
import RenServer.Proofs.Report.Spellings
import RenServer.Proofs.Results
import RenServer.Proofs.Toml.Scanning
import RenServer.Proofs.Toml.Numbers
import RenServer.Proofs.Toml.Refused
import RenServer.Proofs.Choice.ProjectFile
