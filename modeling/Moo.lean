import Moo.Text.Class
import Moo.Text.Quoted
import Moo.Text.Line
import Moo.Number.Binary64
import Moo.Number.Shortest
import Moo.Number.Literal
import Moo.Digest
import Moo.Json.Text
import Moo.Json.Basic
import Moo.Json.Printer
import Moo.Json.Parser
import Moo.Command.Basic
import Moo.Command.Catalogue
import Moo.Source
import Moo.Fault
import Moo.Device.Basic
import Moo.Device.Buffer
import Moo.Device.Console
import Moo.Device.Layered
import Moo.Device.Provider
import Moo.Machine.Event
import Moo.Machine.Basic
import Moo.Machine.Step
import Moo.Machine.Snapshot
import Moo.Audience.Basic
import Moo.Audience.Dispatch
import Moo.Run.Options
import Moo.Run.Session
import Moo.Run.Receipt
import Moo.Run.Basic
import Moo.Json.Shown
import Moo.Schema.Pattern
import Moo.Schema.Basic
import Moo.Schema.Search
import Moo.Schema.Path
import Moo.Schema.Validator
import Moo.Schema.Check
import Moo.Run.ReceiptSchema
import Moo.Disk.Path
import Moo.Disk.Basic
import Moo.Run.File
import Moo.Cli.Arguments
import Moo.Cli.Platform
import Moo.Cli.Input
import Moo.Cli.Ending
import Moo.Cli.Settings
import Moo.Cli.Runner
import Moo.Cli.Checker
import Moo.Run.Stamp
import Moo.Main
import Moo.Proofs.Machine.Sound
import Moo.Proofs.Machine.Actions
import Moo.Proofs.Machine.Keeps
import Moo.Proofs.Device.Journal
import Moo.Proofs.Audience.Conduct
import Moo.Proofs.Audience.Requests
import Moo.Proofs.Machine.Turn
import Moo.Proofs.Machine.Stepping
import Moo.Proofs.Device.Output
import Moo.Proofs.Device.View
import Moo.Proofs.Number.Numeral
import Moo.Proofs.Number.Legible
import Moo.Proofs.Json.Value
import Moo.Proofs.Json.Shown
import Moo.Proofs.Schema.Pattern
import Moo.Proofs.Schema.Standard
import Moo.Proofs.Schema.Meaning
import Moo.Proofs.Schema.Search
import Moo.Proofs.Schema.Finding
import Moo.Proofs.Schema.Reference
import Moo.Proofs.Run.Session
import Moo.Proofs.Run.Basic
import Moo.Proofs.Run.Receipt
import Moo.Proofs.Run.View
import Moo.Proofs.Run.Direct
import Moo.Proofs.Run.Transparent
import Moo.Proofs.Text.Line
import Moo.Proofs.Device.Typed
import Moo.Proofs.Run.Interactive
import Moo.Proofs.Audience.Watching
import Moo.Proofs.Machine.Course
import Moo.Proofs.Command.Catalogue
import Moo.Proofs.Device.Reliable
import Moo.Proofs.Machine.Calls
import Moo.Proofs.Machine.Skips
import Moo.Proofs.Machine.Picture
import Moo.Proofs.Run.Picture
import Moo.Proofs.Machine.Chronicle
import Moo.Proofs.Machine.Refusal
import Moo.Proofs.Run.Shape
import Moo.Proofs.Run.Limit
import Moo.Proofs.Device.Refill
import Moo.Proofs.Machine.Failure
import Moo.Proofs.Machine.Appended
import Moo.Proofs.Run.Unread
import Moo.Proofs.Run.Described
import Moo.Proofs.Json.Sorted
import Moo.Proofs.Json.Spelling
import Moo.Proofs.Json.Document
import Moo.Proofs.Disk.Written
import Moo.Proofs.Run.Provided
import Moo.Proofs.Run.Plain
import Moo.Proofs.Run.Untraced
import Moo.Proofs.Cli.Checker
import Moo.Proofs.Cli.Settings
import Moo.Proofs.Cli.Runner
import Moo.Proofs.Cli.Agreement
import Moo.Proofs.Cli.Observation
import Moo.Proofs.Machine.Control
import Moo.Proofs.Machine.Loop
import Moo.Proofs.Audience.Diary
import Moo.Proofs.Audience.Final
import Moo.Proofs.Audience.Fatal
import Moo.Proofs.Machine.InPlace
import Moo.Proofs.Run.LoopFree
import Moo.Proofs.Machine.Layout
import Moo.Proofs.Machine.Ring
import Moo.Proofs.Machine.Rotation
import Moo.Proofs.Run.Widening
import Moo.Proofs.Command.Names
import Moo.Proofs.Command.Table
import Moo.Proofs.Source.Words
import Moo.Proofs.Source.Program
import Moo.Proofs.Machine.Arithmetic
import Moo.Proofs.Device.Reading
import Moo.Proofs.Number.Digits
import Moo.Proofs.Number.Literal
import Moo.Proofs.Number.Sign
import Moo.Proofs.Number.Rounding
import Moo.Proofs.Number.LeadingZeros
import Moo.Proofs.Machine.Outside
import Moo.Proofs.Machine.Loading
import Moo.Proofs.Run.Identifiers
import Moo.Proofs.Schema.Paths
import Moo.Proofs.Schema.Listed
import Moo.Proofs.Run.Problems
import Moo.Proofs.Device.Serving
import Moo.Proofs.Device.Overrides
import Moo.Proofs.Device.Nested
import Moo.Proofs.Run.Imprint
import Moo.Proofs.Run.LineEndings
import Moo.Proofs.Audience.Roll
import Moo.Proofs.Audience.Enrolled
import Moo.Proofs.Audience.Depth
import Moo.Proofs.Audience.Scheduled
