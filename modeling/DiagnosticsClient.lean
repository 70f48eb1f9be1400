import DiagnosticsClient.Async.Heap
import DiagnosticsClient.Async.Machine
import DiagnosticsClient.Child.Basic
import DiagnosticsClient.Child.Stream
import DiagnosticsClient.CommandLine.Options
import DiagnosticsClient.CommandLine.Run
import DiagnosticsClient.CommandLine.Similar
import DiagnosticsClient.CommandLine.Usage
import DiagnosticsClient.Digest.MD5
import DiagnosticsClient.Failure
import DiagnosticsClient.File.Access
import DiagnosticsClient.File.Octets
import DiagnosticsClient.File.Path
import DiagnosticsClient.File.Resolve
import DiagnosticsClient.File.Tree
import DiagnosticsClient.File.Walk
import DiagnosticsClient.Frame.Basic
import DiagnosticsClient.Frame.Decoder
import DiagnosticsClient.Frame.Encoder
import DiagnosticsClient.Json.Basic
import DiagnosticsClient.Json.Printer
import DiagnosticsClient.Json.Reader
import DiagnosticsClient.Log
import DiagnosticsClient.Main
import DiagnosticsClient.Message.Diagnostic
import DiagnosticsClient.Message.Envelope
import DiagnosticsClient.Message.Validation
import DiagnosticsClient.Number.Binary64
import DiagnosticsClient.Number.Reading
import DiagnosticsClient.Number.Seconds
import DiagnosticsClient.Number.Shortest
import DiagnosticsClient.Proofs.Async.Calls
import DiagnosticsClient.Proofs.Async.Effect
import DiagnosticsClient.Proofs.Async.Gather
import DiagnosticsClient.Proofs.Async.Groups
import DiagnosticsClient.Proofs.Async.Queues
import DiagnosticsClient.Proofs.Async.Reserve
import DiagnosticsClient.Proofs.Async.Thread
import DiagnosticsClient.Proofs.Async.Turn
import DiagnosticsClient.Proofs.CommandLine.Status
import DiagnosticsClient.Proofs.File.Letters
import DiagnosticsClient.Proofs.File.Ways
import DiagnosticsClient.Proofs.File.Writing
import DiagnosticsClient.Proofs.Frame.Chunks
import DiagnosticsClient.Proofs.Frame.Enclosed
import DiagnosticsClient.Proofs.Frame.Grammar
import DiagnosticsClient.Proofs.Frame.Header
import DiagnosticsClient.Proofs.Frame.Lines
import DiagnosticsClient.Proofs.Frame.Refusal
import DiagnosticsClient.Proofs.Frame.Stability
import DiagnosticsClient.Proofs.Json.Characters
import DiagnosticsClient.Proofs.Json.Numerals
import DiagnosticsClient.Proofs.Json.RoundTrip
import DiagnosticsClient.Proofs.Json.Strings
import DiagnosticsClient.Proofs.Message.Checks
import DiagnosticsClient.Proofs.Message.Dumps
import DiagnosticsClient.Proofs.Message.Rereading
import DiagnosticsClient.Proofs.Number.Rounding
import DiagnosticsClient.Proofs.Number.Shortest
import DiagnosticsClient.Proofs.Report.Colours
import DiagnosticsClient.Proofs.Report.Directions
import DiagnosticsClient.Proofs.Report.Fingerprints
import DiagnosticsClient.Proofs.Report.Listing
import DiagnosticsClient.Proofs.Report.Probing
import DiagnosticsClient.Proofs.Report.Repetitions
import DiagnosticsClient.Proofs.Report.Rows
import DiagnosticsClient.Proofs.Report.Totals
import DiagnosticsClient.Proofs.Session.Alarms
import DiagnosticsClient.Proofs.Session.Answers
import DiagnosticsClient.Proofs.Session.Apart
import DiagnosticsClient.Proofs.Session.Asides
import DiagnosticsClient.Proofs.Session.Bypasses
import DiagnosticsClient.Proofs.Session.Careers
import DiagnosticsClient.Proofs.Session.Checks
import DiagnosticsClient.Proofs.Session.Children
import DiagnosticsClient.Proofs.Session.Coherence
import DiagnosticsClient.Proofs.Session.Consumers
import DiagnosticsClient.Proofs.Session.Courses
import DiagnosticsClient.Proofs.Session.Deadlines
import DiagnosticsClient.Proofs.Session.Dealings
import DiagnosticsClient.Proofs.Session.Departures
import DiagnosticsClient.Proofs.Session.Desk
import DiagnosticsClient.Proofs.Session.Dismissals
import DiagnosticsClient.Proofs.Session.Doings
import DiagnosticsClient.Proofs.Session.Drives
import DiagnosticsClient.Proofs.Session.Exchanges
import DiagnosticsClient.Proofs.Session.Findings
import DiagnosticsClient.Proofs.Session.Frames
import DiagnosticsClient.Proofs.Session.Gathering
import DiagnosticsClient.Proofs.Session.Genuine
import DiagnosticsClient.Proofs.Session.Guards
import DiagnosticsClient.Proofs.Session.Handover
import DiagnosticsClient.Proofs.Session.Hearing
import DiagnosticsClient.Proofs.Session.Inquiry
import DiagnosticsClient.Proofs.Session.Introductions
import DiagnosticsClient.Proofs.Session.Invariants
import DiagnosticsClient.Proofs.Session.Lapses
import DiagnosticsClient.Proofs.Session.Lasting
import DiagnosticsClient.Proofs.Session.Launching
import DiagnosticsClient.Proofs.Session.Limits
import DiagnosticsClient.Proofs.Session.Listens
import DiagnosticsClient.Proofs.Session.Mediums
import DiagnosticsClient.Proofs.Session.Members
import DiagnosticsClient.Proofs.Session.Mild
import DiagnosticsClient.Proofs.Session.Minders
import DiagnosticsClient.Proofs.Session.Multicast
import DiagnosticsClient.Proofs.Session.Numbers
import DiagnosticsClient.Proofs.Session.Order
import DiagnosticsClient.Proofs.Session.Origins
import DiagnosticsClient.Proofs.Session.Paces
import DiagnosticsClient.Proofs.Session.Pairs
import DiagnosticsClient.Proofs.Session.Partings
import DiagnosticsClient.Proofs.Session.Readers
import DiagnosticsClient.Proofs.Session.Receipts
import DiagnosticsClient.Proofs.Session.Relays
import DiagnosticsClient.Proofs.Session.Releases
import DiagnosticsClient.Proofs.Session.Reports
import DiagnosticsClient.Proofs.Session.Rights
import DiagnosticsClient.Proofs.Session.Roles
import DiagnosticsClient.Proofs.Session.Runs
import DiagnosticsClient.Proofs.Session.Stations
import DiagnosticsClient.Proofs.Session.Tasks
import DiagnosticsClient.Proofs.Session.Tenures
import DiagnosticsClient.Proofs.Session.Threads
import DiagnosticsClient.Proofs.Session.Ticks
import DiagnosticsClient.Proofs.Session.Ties
import DiagnosticsClient.Proofs.Session.Timeouts
import DiagnosticsClient.Proofs.Session.Turns
import DiagnosticsClient.Proofs.Session.Undertakings
import DiagnosticsClient.Proofs.Session.Uses
import DiagnosticsClient.Proofs.Session.Wards
import DiagnosticsClient.Proofs.Text.Decimal
import DiagnosticsClient.Proofs.Text.Utf8
import DiagnosticsClient.Proofs.Transport.Complaints
import DiagnosticsClient.Proofs.Transport.Courses
import DiagnosticsClient.Proofs.Transport.Custody
import DiagnosticsClient.Proofs.Transport.Delivery
import DiagnosticsClient.Proofs.Transport.Draining
import DiagnosticsClient.Proofs.Transport.Duties
import DiagnosticsClient.Proofs.Transport.EndOfFile
import DiagnosticsClient.Proofs.Transport.ErrorOutput
import DiagnosticsClient.Proofs.Transport.Flow
import DiagnosticsClient.Proofs.Transport.Inflow
import DiagnosticsClient.Proofs.Transport.Orderly
import DiagnosticsClient.Proofs.Transport.Outflow
import DiagnosticsClient.Proofs.Transport.Outpour
import DiagnosticsClient.Proofs.Transport.Overdue
import DiagnosticsClient.Proofs.Transport.Passes
import DiagnosticsClient.Proofs.Transport.Postures
import DiagnosticsClient.Proofs.Transport.Progress
import DiagnosticsClient.Proofs.Transport.Reading
import DiagnosticsClient.Proofs.Transport.Runs
import DiagnosticsClient.Proofs.Transport.Signals
import DiagnosticsClient.Proofs.Transport.Steady
import DiagnosticsClient.Proofs.Transport.Trace
import DiagnosticsClient.Proofs.Transport.Waiting
import DiagnosticsClient.Report.Console
import DiagnosticsClient.Report.Issue
import DiagnosticsClient.Report.IssueFile
import DiagnosticsClient.Report.Record
import DiagnosticsClient.Report.Style
import DiagnosticsClient.Session.Asking
import DiagnosticsClient.Session.Check
import DiagnosticsClient.Session.Checking
import DiagnosticsClient.Session.Driving
import DiagnosticsClient.Session.Effects
import DiagnosticsClient.Session.Limit
import DiagnosticsClient.Session.Listening
import DiagnosticsClient.Session.Program
import DiagnosticsClient.Session.Routine
import DiagnosticsClient.Session.State
import DiagnosticsClient.Session.Stimulus
import DiagnosticsClient.Settings
import DiagnosticsClient.Settings.Lookup
import DiagnosticsClient.Source.Fragment
import DiagnosticsClient.Text.Basic
import DiagnosticsClient.Text.Blank
import DiagnosticsClient.Text.Charset
import DiagnosticsClient.Text.Extent
import DiagnosticsClient.Text.Printable
import DiagnosticsClient.Text.Quoted
