import Xupeng.Core.Bytes
import Xupeng.Core.Dictionary
import Xupeng.Core.Entries
import Xupeng.Core.Flag
import Xupeng.Core.History
import Xupeng.Core.Lockers
import Xupeng.Core.Numeral
import Xupeng.Core.Ordered
import Xupeng.Core.Program
import Xupeng.Core.Run
import Xupeng.Core.Sole
import Xupeng.Core.Splice
import Xupeng.Core.Tally
import Xupeng.Core.TopBits
import Xupeng.Core.Zigzag
import Xupeng.Models.Address.Correctness.Limits
import Xupeng.Models.Address.Correctness.Prefix
import Xupeng.Models.Address.Correctness.Splitting
import Xupeng.Models.Address.Correctness.Text
import Xupeng.Models.Address.Interpretation.Bits
import Xupeng.Models.Address.Interpretation.Groups
import Xupeng.Models.Address.Native.Prefix
import Xupeng.Models.Address.Native.Text
import Xupeng.Models.ByteArray.Correctness.Atomicity
import Xupeng.Models.ByteArray.Correctness.File
import Xupeng.Models.ByteArray.Correctness.Framing
import Xupeng.Models.ByteArray.Correctness.Invariant
import Xupeng.Models.ByteArray.Correctness.Positional
import Xupeng.Models.ByteArray.Correctness.Refinement
import Xupeng.Models.ByteArray.Correctness.Scatter
import Xupeng.Models.ByteArray.Correctness.SignedVarint
import Xupeng.Models.ByteArray.Correctness.Stream
import Xupeng.Models.ByteArray.Correctness.Strings
import Xupeng.Models.ByteArray.Correctness.Varint
import Xupeng.Models.ByteArray.Interpretation.Chunks
import Xupeng.Models.ByteArray.Interpretation.Flat
import Xupeng.Models.ByteArray.Interpretation.Preservation
import Xupeng.Models.ByteArray.Interpretation.Segments
import Xupeng.Models.ByteArray.Interpretation.Typed
import Xupeng.Models.ByteArray.Native.Codec
import Xupeng.Models.ByteArray.Native.Operation
import Xupeng.Models.ByteArray.Native.State
import Xupeng.Models.ByteArray.Native.Transfer
import Xupeng.Models.Config.Correctness.Adoption
import Xupeng.Models.Config.Correctness.Case
import Xupeng.Models.Config.Correctness.Containers
import Xupeng.Models.Config.Correctness.Listeners
import Xupeng.Models.Config.Correctness.Loading
import Xupeng.Models.Config.Correctness.Overlap
import Xupeng.Models.Config.Correctness.Registry
import Xupeng.Models.Config.Interpretation.Calls
import Xupeng.Models.Config.Interpretation.Places
import Xupeng.Models.FdManager.Correctness.Bounds
import Xupeng.Models.FdManager.Correctness.Sharing
import Xupeng.Models.FdManager.State
import Xupeng.Models.Fiber.State
import Xupeng.Models.Hook.Correctness.Blocking
import Xupeng.Models.Hook.Correctness.Connecting
import Xupeng.Models.Hook.Correctness.Nonblocking
import Xupeng.Models.Hook.Correctness.Recycling
import Xupeng.Models.Hook.Correctness.Sleeps
import Xupeng.Models.Hook.Correctness.Stranding
import Xupeng.Models.Hook.Correctness.Transparency
import Xupeng.Models.Hook.Correctness.UserFlags
import Xupeng.Models.Hook.Interpretation.Queue
import Xupeng.Models.Hook.Interpretation.Steps
import Xupeng.Models.Hook.Interpretation.Timeouts
import Xupeng.Models.Hook.Native.Functions
import Xupeng.Models.Hook.Native.Polling
import Xupeng.Models.Http.Correctness.Editing
import Xupeng.Models.Http.Correctness.Framing
import Xupeng.Models.Http.Correctness.Parameters
import Xupeng.Models.Http.Correctness.Serialisation
import Xupeng.Models.Http.Interpretation.Layout
import Xupeng.Models.Http.Interpretation.Segments
import Xupeng.Models.Http.Native.Define
import Xupeng.Models.Http.Native.Message
import Xupeng.Models.Http.Native.Params
import Xupeng.Models.IOManager.Correctness.Accounting
import Xupeng.Models.IOManager.Correctness.Alarms
import Xupeng.Models.IOManager.Correctness.Growth
import Xupeng.Models.IOManager.Correctness.Kernel
import Xupeng.Models.IOManager.Correctness.Poll
import Xupeng.Models.IOManager.Correctness.Shutdown
import Xupeng.Models.IOManager.Correctness.Trigger
import Xupeng.Models.IOManager.Correctness.Wakeups
import Xupeng.Models.IOManager.Interpretation.Debts
import Xupeng.Models.IOManager.Interpretation.Ledger
import Xupeng.Models.IOManager.Interpretation.Phases
import Xupeng.Models.IOManager.Interpretation.Requests
import Xupeng.Models.IOManager.Interpretation.Sections
import Xupeng.Models.IOManager.Interpretation.Steps
import Xupeng.Models.IOManager.Interpretation.Table
import Xupeng.Models.IOManager.Interpretation.Work
import Xupeng.Models.IOManager.Native.Context
import Xupeng.Models.IOManager.Native.Manager
import Xupeng.Models.IOManager.Native.Table
import Xupeng.Models.IOManager.Native.Threads
import Xupeng.Models.Kernel.State
import Xupeng.Models.Log.Correctness.Deadlock
import Xupeng.Models.Log.Correctness.Escape
import Xupeng.Models.Log.Correctness.Export
import Xupeng.Models.Log.Correctness.Grammar
import Xupeng.Models.Log.Correctness.Inheritance
import Xupeng.Models.Log.Correctness.Interference
import Xupeng.Models.Log.Correctness.Reconfiguration
import Xupeng.Models.Log.Correctness.Rendering
import Xupeng.Models.Log.Correctness.Serialisation
import Xupeng.Models.Log.Interpretation.Sequential
import Xupeng.Models.Mutex.Exclusion
import Xupeng.Models.Mutex.State
import Xupeng.Models.Scheduler.Correctness.Accounting
import Xupeng.Models.Scheduler.Correctness.Affinity
import Xupeng.Models.Scheduler.Correctness.Exclusion
import Xupeng.Models.Scheduler.Correctness.Reuse
import Xupeng.Models.Scheduler.Correctness.Stopping
import Xupeng.Models.Scheduler.Interpretation.Counting
import Xupeng.Models.Scheduler.Interpretation.Holding
import Xupeng.Models.Scheduler.Interpretation.Life
import Xupeng.Models.Scheduler.Interpretation.Queue
import Xupeng.Models.Scheduler.Interpretation.Running
import Xupeng.Models.Scheduler.Interpretation.Statements
import Xupeng.Models.Scheduler.Interpretation.Wakeups
import Xupeng.Models.Scheduler.Native.Run
import Xupeng.Models.Socket.Correctness.Cached
import Xupeng.Models.Socket.Correctness.Timeouts
import Xupeng.Models.Thread.Correctness.Ownership
import Xupeng.Models.Timer.Correctness.Answers
import Xupeng.Models.Timer.Correctness.Deadlines
import Xupeng.Models.Timer.Correctness.Delivery
import Xupeng.Models.Timer.Correctness.Expiry
import Xupeng.Models.Timer.Correctness.Invariant
import Xupeng.Models.Timer.Correctness.Wakeup
import Xupeng.Models.Timer.Interpretation.Clock
import Xupeng.Models.Timer.Interpretation.Operations
import Xupeng.Models.Timer.Interpretation.Set
import Xupeng.Models.Timer.Native.State
