import EventDispatcher.Dispatcher.Dispatcher
import EventDispatcher.Queue.LockFreeQueue
import EventDispatcher.Queue.MutexQueueThreads

/-!
# The two queue policies of the dispatcher
-/

namespace EventDispatcher

variable (T E : Type) [DecidableEq T]

/-- `bounded_mutex_queue`. -/
def mutexPolicy (capacity : ℕ) : QueuePolicy T E where
  Mem := MutexQueueMem T E
  Loc := MutexQueueLoc E
  Choice := MutexQueueChoice T E
  mem₀ := ⟨MutexQueue.empty capacity, ∅, ∅, fun _ => false⟩
  loc₀ := .outside none
  step := MutexQueueThreads.step
  call := .call
  requestStop := .requestStop
  idle
    | .outside _ => true
    | _ => false
  last
    | .outside last => last
    | _ => none
  contents m := m.ring.contents

/-- `bounded_lock_free_queue`. -/
def lockFreePolicy (capacity : ℕ) : QueuePolicy T E where
  Mem := LockFreeMem T E
  Loc := LockFreeLoc T E
  Choice := LockFreeChoice T E
  mem₀ := (LockFreeQueue.started T E capacity).mem
  loc₀ := .outside none
  step := LockFreeQueue.step
  call := .call
  requestStop := .requestStop
  idle
    | .outside _ => true
    | _ => false
  last
    | .outside last => last
    | _ => none
  contents m := m.store.contents

namespace Dispatcher

variable {T E}

/-- A schedule that lets `t` take `n` plain steps. -/
def advance {Q : QueuePolicy T (Publication E)} (t : T) (n : ℕ) :
    List (T × DispatcherChoice Q) :=
  List.replicate n (t, .go false none)

/-- One worker, one thread for an executor and a client. -/
def smallSetup : Setup (Fin 3) where
  workers := [0]
  executors := {2}
  batchSize := 1
  copyable := true
  workers_ne := by decide
  batch_ne := by decide
  disjoint := by decide

/-- The same with batches of two. -/
def smallBatches : Setup (Fin 3) := { smallSetup with batchSize := 2, batch_ne := by decide }

/-- The client subscribes with `options`; an executor gets the last thread. -/
def subscribing {Q : QueuePolicy (Fin 3) (Publication E)} (options : SubscriptionOptions) :
    List (Fin 3 × DispatcherChoice Q) :=
  List.flatten [[(1, .call (.subscribe true options))], advance 1 4, [(1, .go false (some 2))],
    advance 1 3]

/-- The client publishes `payload`, and the push finds the mutex queue open and not
full. -/
def publishing {capacity : ℕ} (payload : E) :
    List (Fin 3 × DispatcherChoice (mutexPolicy (Fin 3) (Publication E) capacity)) :=
  List.flatten [[(1, .call (.publish .tryPush payload false))], advance 1 2,
    [(1, .queue (.lock false)), (1, .queue (.notifyOne none))], advance 1 2]

/-- The worker pops one event from the mutex queue and takes `n` more steps with it. -/
def working {E : Type} {capacity : ℕ} (n : ℕ) :
    List (Fin 3 × DispatcherChoice (mutexPolicy (Fin 3) (Publication E) capacity)) :=
  List.flatten [advance 0 1, [(0, .queue (.lock false)), (0, .queue (.notifyOne none))],
    advance 0 n]

/-- Two workers, a client and one thread for an executor. -/
def pairSetup : Setup (Fin 4) where
  workers := [0, 1]
  executors := {3}
  batchSize := 1
  copyable := true
  workers_ne := by decide
  batch_ne := by decide
  disjoint := by decide

/-- The same with batches of two. -/
def pairBatches : Setup (Fin 4) := { pairSetup with batchSize := 2, batch_ne := by decide }

/-- One worker, three clients and one thread for an executor. -/
def crowdSetup : Setup (Fin 5) where
  workers := [0]
  executors := {4}
  batchSize := 1
  copyable := true
  workers_ne := by decide
  batch_ne := by decide
  disjoint := by decide

section Threads

variable {T E : Type} [DecidableEq T] {capacity : ℕ}

/-- Thread `t` publishes `payload`, and the push finds the mutex queue open and not full. -/
def publishingOn (t : T) (payload : E) :
    List (T × DispatcherChoice (mutexPolicy T (Publication E) capacity)) :=
  List.flatten [[(t, .call (.publish .tryPush payload false))], advance t 2,
    [(t, .queue (.lock false)), (t, .queue (.notifyOne none))], advance t 2]

/-- Worker `t` pops one event from the mutex queue and takes `n` more steps with it. -/
def workingOn (t : T) (n : ℕ) :
    List (T × DispatcherChoice (mutexPolicy T (Publication E) capacity)) :=
  List.flatten [advance t 1, [(t, .queue (.lock false)), (t, .queue (.notifyOne none))],
    advance t n]

/-- User code on thread `t` returns, and the thread takes `n` more steps. -/
def returningOn {Q : QueuePolicy T (Publication E)} (t : T) (n : ℕ) : List (T × DispatcherChoice Q) :=
  (t, .finish false) :: advance t n

/-- Thread `t` calls `shutdown(drain)` and closes the mutex queue; next it joins the workers. -/
def drainingOn (t : T) : List (T × DispatcherChoice (mutexPolicy T (Publication E) capacity)) :=
  List.flatten [[(t, .call (.shutdown .drain))], advance t 3,
    [(t, .queue (.lock false)), (t, .queue .notifyAll), (t, .queue .notifyAll)], advance t 1]

/-- Worker `t` finds the mutex queue closed and empty and returns. -/
def leavingOn (t : T) : List (T × DispatcherChoice (mutexPolicy T (Publication E) capacity)) :=
  List.flatten [advance t 1, [(t, .queue (.lock false))], advance t 1]

end Threads

end Dispatcher

end EventDispatcher
