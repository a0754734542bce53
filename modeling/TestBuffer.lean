import TestBuffer.Common.Machine
import TestBuffer.Common.Threads
import TestBuffer.Common.Ring
import TestBuffer.Common.DropOldest
import TestBuffer.Common.Monitor
import TestBuffer.BoundedBuffer.Model
import TestBuffer.BoundedBuffer.Window
import TestBuffer.BoundedBuffer.Trailing
import TestBuffer.BoundedBuffer.WakeUp
import TestBuffer.Queue.Model
import TestBuffer.Queue.WakeUp
import TestBuffer.Queue.Fifo
import TestBuffer.SynchronisedQueue.Model
import TestBuffer.SynchronisedQueue.WakeUp
import TestBuffer.Common.Pool
import TestBuffer.Common.Token
import TestBuffer.Common.Outline
import TestBuffer.Common.Handover
import TestBuffer.Server.Chain
import TestBuffer.Lockfree.Balance
import TestBuffer.Common.Tally
import TestBuffer.Moody.Model
import TestBuffer.Moody.Count
import TestBuffer.Sync.Chain
import TestBuffer.Common.OwnRecord
import TestBuffer.Datagram
import TestBuffer.Common.Spsc
import TestBuffer.Contract
import TestBuffer.Queue.Drift
import TestBuffer.SynchronisedQueue.Delivery
import TestBuffer.SynchronisedQueue.Size
import TestBuffer.Common.Shutdown
import TestBuffer.Sync.Reader
import TestBuffer.Sync.Shutdown
import TestBuffer.Common.Circular
import TestBuffer.Common.Linked
import TestBuffer.Common.Object
import TestBuffer.ReaderWriterQueue.Model
import TestBuffer.ReaderWriterQueue.Block
import TestBuffer.ReaderWriterQueue.Spec
import TestBuffer.ReaderWriterQueue.Invariant
import TestBuffer.ReaderWriterQueue.Refine
import TestBuffer.Common.Bits
import TestBuffer.ReaderWriterQueue.Construct
import TestBuffer.ReaderWriterQueue.Fifo
import TestBuffer.ReaderWriterQueue.Progress
import TestBuffer.ReaderWriterQueue.History
import TestBuffer.ReaderWriterQueue.Slots
import TestBuffer.ReaderWriterQueue.Walk
import TestBuffer.ReaderWriterQueue.Size
import TestBuffer.LightweightSemaphore.Model
import TestBuffer.LightweightSemaphore.Refine
import TestBuffer.LightweightSemaphore.Wake
import TestBuffer.BlockingReaderWriterQueue.Model
import TestBuffer.BlockingReaderWriterQueue.Spec
import TestBuffer.BlockingReaderWriterQueue.Refine
import TestBuffer.BlockingReaderWriterQueue.Size
import TestBuffer.BlockingReaderWriterQueue.Calls
import TestBuffer.Moody.Calls
import TestBuffer.BlockingReaderWriterQueue.Wake
