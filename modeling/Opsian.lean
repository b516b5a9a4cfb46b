import Opsian.Lib.Runs
import Opsian.Globals
import Opsian.Lib.Simulation
import Opsian.Lib.RingQueue
import Opsian.Queue.CircularQueue
import Opsian.Queue.Fifos
import Opsian.Lib.Paths
import Opsian.Lib.History
import Opsian.Lib.Varint
import Opsian.Protocol.Handler
import Opsian.Protocol.Framing
import Opsian.Protocol.ReadBound
import Opsian.Lib.Ring
import Opsian.Queue.InternalQueue
import Opsian.Queue.Safety
import Opsian.Lib.Table
import Opsian.Metrics.Listener
import Opsian.Metrics.RuntimeEvents
import Opsian.Metrics.Polls
import Opsian.Metrics.Pauses
import Opsian.Metrics.Loop
import Opsian.Metrics.DutyCycle
import Opsian.Metrics.Joining
import Opsian.Metrics.Ids
import Opsian.Metrics.Naming
import Opsian.Metrics.Delivery
import Opsian.Lib.Assoc
import Opsian.Symbols.Decode
import Opsian.Scanner.ProcScanner
import Opsian.Scanner.Scan
import Opsian.Scanner.Timers
import Opsian.Scanner.Rates
import Opsian.Scanner.Stop
import Opsian.Lib.Forest
import Opsian.Prometheus.Exporter
import Opsian.Prometheus.Conservation
import Opsian.Prometheus.Series
import Opsian.Writer.LogWriter
import Opsian.Queue.HandOver
import Opsian.Signals.SignalHandler
import Opsian.Signals.LinkableProfiler
import Opsian.Signals.ProcessRate
import Opsian.Writer.Agreement
import Opsian.Metrics.Constants
import Opsian.Metrics.Completion
import Opsian.Lib.PrefixTable
import Opsian.Metrics.CpuReader
import Opsian.Metrics.Prefixes
import Opsian.Collector.EventLoop
import Opsian.Collector.Transitions
import Opsian.Collector.Exclusion
import Opsian.Collector.Lifecycle
import Opsian.Collector.Handshake
import Opsian.Collector.Batches
import Opsian.Collector.Quiescence
import Opsian.Collector.Session
import Opsian.Collector.Permission
import Opsian.Collector.Stash
import Opsian.Collector.Shutdown
import Opsian.Collector.Watchdog
import Opsian.Collector.Connection
import Opsian.Fork.Reset
import Opsian.Queue.Owners
import Opsian.Queue.Refusal
import Opsian.Fork.Inherited
import Opsian.Writer.Messages
import Opsian.Writer.Envelopes
import Opsian.Writer.Announcements
import Opsian.Lib.CString
import Opsian.Startup.Arguments
import Opsian.Startup.Grammar
import Opsian.Queue.FrameCells
import Opsian.Lib.Pieces
import Opsian.Startup.Substitution
import Opsian.Startup.Setup
import Opsian.Prometheus.Paths
import Opsian.Lib.Utf8
import Opsian.Lib.TextFormat
import Opsian.Prometheus.Exposition
import Opsian.Symbols.Discipline
import Opsian.Writer.ThreadNames
import Opsian.Collector.Waits
import Opsian.Lib.Probing
import Opsian.Concurrent.ConcurrentMap
import Opsian.Concurrent.Refinement
import Opsian.Concurrent.Compaction
import Opsian.Concurrent.FiniteMap
import Opsian.Concurrent.Accesses
import Opsian.Concurrent.Placement
import Opsian.Concurrent.Readers
import Opsian.Concurrent.Misses
import Opsian.Lib.WireFormat
import Opsian.Writer.Encoding
import Opsian.Lib.Tally
import Opsian.Writer.Pipeline
import Opsian.Writer.Allocations
import Opsian.Writer.Notifications
import Opsian.Writer.InOrder
import Opsian.Concurrent.Answers
import Opsian.Metrics.Cursor
import Opsian.Queue.Progress
import Opsian.Collector.Heartbeats
import Opsian.Lib.Mixing
import Opsian.Concurrent.Hashing
import Opsian.Writer.Reconstruction
import Opsian.Queue.Accounting
import Opsian.Metrics.Readback
import Opsian.Lib.Words
import Opsian.Metrics.ProcFiles
import Opsian.Prometheus.Sampling
import Opsian.Signals.CallPath
import Opsian.Collector.Exit
import Opsian.Collector.Backoff
import Opsian.Metrics.Fate
import Opsian.Metrics.SwitchedOff
import Opsian.Protocol.Commands
