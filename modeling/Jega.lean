import Jega.Trace.Rules
import Jega.Ring.Window
import Jega.Socket.Addrinfo
import Jega.Socket.Sendall
import Jega.Socket.Timeouts
import Jega.Heap.Sift
import Jega.Greenlet
import Jega.Loop.Model
import Jega.Loop.Queued
import Jega.Loop.Queue
import Jega.Loop.Heapq
import Jega.Loop.Scheduler
import Jega.Loop.Signals
import Jega.Loop.Steps
import Jega.Loop.Accounting
import Jega.Loop.Fifo
import Jega.Loop.Cancel
import Jega.Loop.Timetable
import Jega.Loop.Deadlines
import Jega.Trace.Refinement
import Jega.Loop.Refinement
import Jega.Channel.Model
import Jega.Channel.Steps
import Jega.Channel.Wakeup
import Jega.Channel.Integrity
import Jega.Locks.Semaphore
import Jega.Locks.Wakeup
import Jega.Locks.Permits
import Jega.Locks.Bounded
import Jega.Locks.Turn
import Jega.Locks.Timeouts
import Jega.Locks.Condition
import Jega.Locks.Notify
import Jega.Locks.RLock
import Jega.Locks.Restore
import Jega.Locks.Ownership
import Jega.Event.Model
import Jega.Event.Wakeup
import Jega.Event.Ended
import Jega.Event.History
import Jega.Event.Truth
import Jega.Io.Picoev
import Jega.Io.Trampoline
import Jega.Io.Contract
import Jega.Io.Registry
import Jega.Io.Counting
import Jega.Executor.Model
import Jega.Executor.Steps
import Jega.Executor.Invariant
import Jega.Executor.Completion
import Jega.Executor.Work
import Jega.Executor.Outcome
import Jega.Executor.Agreement
import Jega.Trace.History
import Jega.Executor.Callbacks
import Jega.Executor.Items
import Jega.Channel.Senders
import Jega.Io.Arguments
import Jega.Io.Readers
import Jega.Lookup.Model
import Jega.Lookup.LifeCycle
import Jega.Loop.Sleep
import Jega.Loop.Leaving
import Jega.Loop.Due
import Jega.Loop.Repeating
import Jega.Loop.Owned
import Jega.Futures.Base
import Jega.Futures.WorkItem
import Jega.Futures.Pool
import Jega.Futures.Protocol
import Jega.Futures.Timers
import Jega.Futures.KeepAlive
import Jega.Futures.Waiters
import Jega.Futures.Waiting
import Jega.Futures.Wakeup
import Jega.Local.Model
import Jega.Local.Isolation
import Jega.Io.Forked
import Jega.Futures.AsCompleted
import Jega.Futures.Generators
import Jega.Futures.Exact
import Jega.Futures.Completion
import Jega.Futures.Condition
import Jega.Futures.Contract
import Jega.Lookup.Interest
import Jega.Select.Model
import Jega.Select.Phases
import Jega.Select.Frame
import Jega.Select.Ready
import Jega.Executor.Submit
import Jega.Futures.FirstException
import Jega.Futures.Repeated
import Jega.Buffer.Model
import Jega.Buffer.Limits
import Jega.Bits.Bitmap
import Jega.Wheel.Slots
import Jega.Picoev.Model
import Jega.Picoev.Calls
import Jega.Picoev.Passes
import Jega.Picoev.Order
import Jega.Picoev.Bounds
import Jega.Picoev.Timeouts
import Jega.Picoev.Walk
import Jega.Picoev.Calm
import Jega.Picoev.Deadlines
import Jega.Picoev.Interest
import Jega.SelfPipe.Model
import Jega.SelfPipe.Wakeup
import Jega.Trace.Rank
import Jega.Futures.Shutdown
import Jega.Socket.Getaddrinfo
import Jega.Io.Private
import Jega.Stream.Model
import Jega.Stream.Transfer
import Jega.Tree.Parents
import Jega.Autostart.Model
import Jega.Autostart.Greenlets
import Jega.Autostart.Handover
import Jega.Reactor.Model
import Jega.Reactor.Handlers
import Jega.Reactor.Delivery
