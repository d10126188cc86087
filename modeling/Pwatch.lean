import Pwatch.Arch
import Pwatch.Blocking
import Pwatch.Blocking.Capacity
import Pwatch.Blocking.Pool
import Pwatch.Blocking.Shared
import Pwatch.Broadcast
import Pwatch.Bytes
import Pwatch.Cli.Args
import Pwatch.Cli.End
import Pwatch.Cli.Process
import Pwatch.Driver
import Pwatch.Filter.Compose
import Pwatch.Filter.Correctness
import Pwatch.Filter.Grammar
import Pwatch.Filter.Lexer
import Pwatch.Filter.Lossless
import Pwatch.Filter.Parser
import Pwatch.Grammar.Cursor
import Pwatch.Grammar.Framing
import Pwatch.Grammar.Layout
import Pwatch.Grammar.MaximalMunch
import Pwatch.Grammar.SepBy
import Pwatch.Hit
import Pwatch.Maps.Answers
import Pwatch.Maps.Batch
import Pwatch.Maps.Cache
import Pwatch.Maps.CacheLaws
import Pwatch.Maps.Display
import Pwatch.Maps.Lookup
import Pwatch.Maps.Naming
import Pwatch.Maps.Parse
import Pwatch.Maps.Program
import Pwatch.Maps.Region
import Pwatch.Maps.Rollback
import Pwatch.Maps.Sequential
import Pwatch.Maps.Table
import Pwatch.Memory.Api
import Pwatch.Memory.Handlers
import Pwatch.Memory.Hex
import Pwatch.Memory.HexView
import Pwatch.Memory.Paging
import Pwatch.Memory.Request
import Pwatch.Memory.Response
import Pwatch.Memory.Statuses
import Pwatch.Perf.Concurrent
import Pwatch.Perf.Events
import Pwatch.Perf.Reader
import Pwatch.Perf.Record
import Pwatch.Ring
import Pwatch.Runs.Basic
import Pwatch.Runs.Parts
import Pwatch.Runs.Rank
import Pwatch.Server.Breakpoints
import Pwatch.Server.Creates
import Pwatch.Server.Deleted
import Pwatch.Server.Drain
import Pwatch.Server.FailedCreate
import Pwatch.Server.HitWorker
import Pwatch.Server.Lag
import Pwatch.Server.Ledger
import Pwatch.Server.Ownership
import Pwatch.Server.Pipeline
import Pwatch.Server.Processes
import Pwatch.Server.Progress
import Pwatch.Server.Provenance
import Pwatch.Server.RegistryLaws
import Pwatch.Server.Requests
import Pwatch.Server.Retention
import Pwatch.Server.Running
import Pwatch.Server.Stream
import Pwatch.Server.System
import Pwatch.Server.Threads
import Pwatch.Slices
import Pwatch.Text.Basic
import Pwatch.Text.Lossy
import Pwatch.Text.Number
import Pwatch.Text.Words
import Pwatch.Ui.Connection
import Pwatch.Ui.Draw
import Pwatch.Ui.Feed
import Pwatch.Ui.Frames
import Pwatch.Ui.Hits
import Pwatch.Ui.JsValue
import Pwatch.Ui.Page
import Pwatch.Ui.Site
import Pwatch.Ui.Whole
import Pwatch.Watch.Address
import Pwatch.Watch.FilterMeaning
import Pwatch.Watch.Lifecycle
import Pwatch.Watch.Sample
import Pwatch.Watch.Threads
import Pwatch.Watch.Watcher
import Pwatch.Word
