import EventDispatcher.Lib.Transition
import EventDispatcher.Lib.Threads
import EventDispatcher.Lib.WaitSet
import EventDispatcher.Lib.EventCount
import EventDispatcher.Lib.CondVar
import EventDispatcher.Lib.BitFields
import EventDispatcher.Lib.Replay
import EventDispatcher.Queue.MutexQueue
import EventDispatcher.Queue.MutexQueueThreads
import EventDispatcher.Queue.MutexQueueWakeups
import EventDispatcher.Queue.MutexQueueRefinement
import EventDispatcher.Queue.ClosingProtocol
import EventDispatcher.Queue.LockFreeQueueClosed
import EventDispatcher.Queue.LockFreeQueueEpochs
import EventDispatcher.Queue.LockFreeQueueGates
import EventDispatcher.Queue.LockFreeQueueWakeups
import EventDispatcher.Queue.IndexRing
import EventDispatcher.Queue.IndexRingFifo
import EventDispatcher.Queue.LockFreeSequential
import EventDispatcher.Subscription.Tokens
import EventDispatcher.Dispatcher.PublishFor
import EventDispatcher.Dispatcher.Containment
import EventDispatcher.Dispatcher.ShutdownGuard
import EventDispatcher.Dispatcher.MailboxWakeups
import EventDispatcher.Dispatcher.Metrics
import EventDispatcher.Dispatcher.MailboxFifo
import EventDispatcher.Dispatcher.Registry
import EventDispatcher.Dispatcher.LifecycleProtocol
import EventDispatcher.Dispatcher.MailboxDrain
import EventDispatcher.Dispatcher.Silence
import EventDispatcher.Dispatcher.SelfUnsubscribe
import EventDispatcher.Queue.GateThreads
import EventDispatcher.Dispatcher.PublishCalls
import EventDispatcher.Dispatcher.DiscardAccounting
import EventDispatcher.Dispatcher.Deliveries
import EventDispatcher.Dispatcher.DrainDelivery
import EventDispatcher.Dispatcher.SingleWorker
import EventDispatcher.Dispatcher.SingleWorkerOrder
import EventDispatcher.Queue.RingThreads
import EventDispatcher.Queue.RingTickets
import EventDispatcher.Queue.RingPlaces
import EventDispatcher.Queue.RingOrder
import EventDispatcher.Queue.RingDistance
import EventDispatcher.Queue.RingThreshold
import EventDispatcher.Queue.RingLinearizable
import EventDispatcher.Dispatcher.WorkerBatches
import EventDispatcher.Dispatcher.CallerWakeups
import EventDispatcher.Execution.WorkerPool
