import Rtems.Score.Types
import Rtems.ThreadQueue.Model
import Rtems.ThreadQueue.Blocking
import Rtems.ThreadQueue.Outcome
import Rtems.CoreMutex.Frame
import Rtems.CoreMutex.Invariant
import Rtems.CoreMutex.Priorities
import Rtems.CoreMutex.Mutex
import Rtems.CoreMutex.Inheritance
import Rtems.Objects.Model
import Rtems.Objects.Runs
import Rtems.Scheduler.BitMap
import Rtems.Scheduler.Model
import Rtems.Scheduler.ReadyQueues
import Rtems.Scheduler.Heir
import Rtems.Scheduler.Simple
import Rtems.Watchdog.Chain
import Rtems.Watchdog.Model
import Rtems.Watchdog.Ticks
import Rtems.Watchdog.Timing
import Rtems.Watchdog.Insertion
import Rtems.Lib.RedBlack
import Rtems.RBTree.Model
import Rtems.RBTree.Links
import Rtems.RBTree.Insert
import Rtems.RBTree.Next
import Rtems.RBTree.Extract
import Rtems.Lib.Runs
import Rtems.RBTree.Runs
import Rtems.RBTree.Iterate
import Rtems.ThreadQueue.Waiters
import Rtems.Core.Barrier
import Rtems.Core.Semaphore
import Rtems.Core.RWLock
import Rtems.Event.Model
import Rtems.RateMonotonic.Period
import Rtems.Event.Delivery
import Rtems.Core.MessageQueue
import Rtems.Core.MessageDelivery
import Rtems.FlashDisk.Model
import Rtems.FlashDisk.Queues
import Rtems.FlashDisk.Partition
import Rtems.Lib.LogStore
import Rtems.FlashDisk.Pages
import Rtems.FlashDisk.Contents
import Rtems.FlashDisk.Recycling
import Rtems.FlashDisk.ReadWrite
import Rtems.FlashDisk.Recovery
import Rtems.FlashDisk.History
import Rtems.Bdbuf.AvlNodes
import Rtems.Bdbuf.AvlLinks
import Rtems.Bdbuf.AvlTurns
import Rtems.Bdbuf.AvlOperations
import Rtems.Bdbuf.AvlRuns
import Rtems.Scheduler.Equivalence
import Rtems.ThreadQueue.Queues
import Rtems.ThreadQueue.Order
import Rtems.Scheduler.Edf
import Rtems.Scheduler.EdfOrder
import Rtems.Scheduler.Cbs
import Rtems.Region.Segments
import Rtems.Region.Served
import Rtems.Region.Runs
import Rtems.Lib.Tiling
import Rtems.Interrupt.Lists
import Rtems.Interrupt.Calls
import Rtems.Interrupt.Runs
import Rtems.Mqueue.Calls
import Rtems.Mqueue.Runs
import Rtems.Mqueue.Sending
import Rtems.Mqueue.SendRuns
import Rtems.Signals.Model
import Rtems.Signals.Queued
import Rtems.Signals.Runs
import Rtems.Signals.Acceptance
import Rtems.Signals.Distribution
import Rtems.PosixTimer.Model
import Rtems.PosixTimer.Runs
import Rtems.Condition.Model
import Rtems.Condition.Mutexes
import Rtems.Condition.Runs
import Rtems.Condition.Binding
import Rtems.PosixThread.Join
import Rtems.Malloc.Deferred
import Rtems.Lib.Acyclic
import Rtems.Life.Model
import Rtems.Life.Runs
import Rtems.Aio.Model
import Rtems.Lib.PointUpdate
import Rtems.Aio.Linked
import Rtems.Aio.Threads
import Rtems.Aio.Requests
import Rtems.Aio.Runs
import Rtems.Aio.Order
import Rtems.Core.RWLockExclusion
import Rtems.PartitionManager.Buffers
import Rtems.Lib.Ring
import Rtems.Termios.Model
import Rtems.Termios.Input
import Rtems.Termios.Canonical
import Rtems.Termios.Echo
import Rtems.Termios.FlowControl
import Rtems.Termios.Output
import Rtems.Termios.OutputRuns
import Rtems.Termios.Flush
import Rtems.Pwdgrp.Records
import Rtems.PosixKeys.Model
import Rtems.PosixKeys.Controls
import Rtems.PosixKeys.Pairs
import Rtems.PosixKeys.Runs
import Rtems.Lib.Crc
import Rtems.FlashDisk.Checksum
import Rtems.FlashDisk.NandDriver
import Rtems.FlashDisk.SegmentTable
import Rtems.FlashDisk.Faithful
import Rtems.FlashDisk.Accounting
import Rtems.FlashDisk.Discipline
import Rtems.Bdbuf.BlockSize
import Rtems.Bdbuf.Processing
import Rtems.Lib.Gregorian
import Rtems.Clock.Model
import Rtems.Clock.Calendar
import Rtems.Clock.RoundTrip
import Rtems.Lib.DoublyLinked
import Rtems.Lib.Word
import Rtems.Heap.Model
import Rtems.Heap.Statistics
import Rtems.Heap.Layout
import Rtems.Heap.Initialize
import Rtems.Heap.Split
import Rtems.Heap.Allocate
import Rtems.Heap.Free
import Rtems.Heap.Resize
import Rtems.Heap.Areas
import Rtems.Heap.Alignment
import Rtems.Heap.Exact
import Rtems.Heap.Information
import Rtems.Heap.Runs
import Rtems.Objects.Classes
import Rtems.Objects.Lookup
import Rtems.Objects.Iteration
import Rtems.Objects.ActiveCount
import Rtems.Objects.AutoShrink
import Rtems.Objects.Exhaustion
import Rtems.Clock.Counter
import Rtems.PosixTimer.Conversions
import Rtems.Printk.Formats
import Rtems.PosixKeys.Destructors
import Rtems.Heap.Callers
import Rtems.Tcp.Runs
