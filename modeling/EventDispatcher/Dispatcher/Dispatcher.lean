import EventDispatcher.Lib.Threads
import EventDispatcher.Queue.Status
import EventDispatcher.Subscription.SubscriberState

/-!
# `dispatcher`

The whole dispatcher under any number of threads: the workers, the executors of the
isolated subscribers and the client threads, over any queue policy.  What a thread
is doing is a stack of frames.  User code runs when the stack of a client thread is
empty, inside a callback and inside the error handler, and may then call into the
dispatcher again, which pushes a frame.

One step is a critical section of `state_mutex_`, `mailbox_mutex_` or of
`shutdown` on `lifecycle_mutex_`, an atomic load, store or increment, a notification,
or a step of the queue policy.  `subscribe` holds `lifecycle_mutex_` and, like
`retire`, the writer mutex of the registry across the critical sections in which it
reads the other subscribers, so these two have an owner.

An error handler that is absent is one that returns at once.
-/

namespace EventDispatcher

open Transition

/-- A queue policy as the dispatcher uses it: its machine, how a call and a stop
request begin, when a thread is outside and what its last call returned.  `contents`
is only read by the history. -/
structure QueuePolicy (T E : Type) where
  Mem : Type
  Loc : Type
  Choice : Type
  mem₀ : Mem
  loc₀ : Loc
  step : T → Choice → Mem → Loc → Option (Mem × Loc)
  call : QueueOp E → Choice
  requestStop : T → Choice
  idle : Loc → Bool
  last : Loc → Option (QueueResult E)
  contents : Mem → List E

/-- An event and the number of the publication that brought it. -/
structure Publication (E : Type) where
  id : ℕ
  payload : E
  deriving DecidableEq

/-- `lifecycle_state`. -/
inductive LifecycleState
  | created
  | running
  | drainStopping
  | discardStopping
  | stopped
  deriving DecidableEq, Repr

/-- `shutdown_policy`. -/
inductive ShutdownPolicy
  | drain
  | discard
  deriving DecidableEq, Repr

/-- `dispatcher_config` as far as `make_state` accepts it, with the threads the
dispatcher will run on. -/
structure Setup (T : Type) where
  workers : List T
  /-- threads that do not run yet and may become executors -/
  executors : Finset T
  batchSize : ℕ
  /-- whether `Event` can be copied -/
  copyable : Bool
  workers_ne : workers ≠ []
  batch_ne : batchSize ≠ 0
  disjoint : ∀ t ∈ workers, t ∉ executors

/-- `registry_core`; a snapshot is the list of its subscribers. -/
structure Registry (T : Type) where
  current : List ℕ := []
  writer : Option T := none
  nextId : ℕ := 1

/-- `lifecycle`, `lifecycle_mutex_` and `lifecycle_changed_`. -/
structure Lifecycle (T : Type) where
  state : LifecycleState := .created
  mutex : Option T := none
  changed : Finset T := ∅

/-- `dispatcher_metrics`. -/
structure DispatcherMetrics where
  accepted : UInt64 := 0
  rejected : UInt64 := 0
  dropped : UInt64 := 0
  deriving DecidableEq

/-- The threads the dispatcher owns.  `entry` is the subscriber whose executor a
created thread will run, `publishing` the threads inside a push of theirs. -/
structure ThreadTable (T : Type) where
  unstarted : Finset T
  entry : T → Option ℕ
  finished : Finset T
  publishing : Finset T

/-- What has happened so far; no function of the source reads it. -/
structure History (T E : Type) where
  /-- the publications begun, which is also the number of the next one -/
  begun : ℕ := 0
  returned : List (ℕ × PushOutcome) := []
  /-- the subscribers whose `subscribe` had returned when the publication began -/
  due : ℕ → List ℕ := fun _ => []
  /-- the events in the order in which the queue accepted them -/
  accepted : List (Publication E) := []
  dequeued : List (T × Publication E) := []
  batches : List (T × List (Publication E)) := []
  destroyed : List (Publication E) := []
  /-- the callbacks entered: the subscriber and its event -/
  invocations : List (ℕ × Publication E) := []
  /-- the subscribers that a `subscribe` has put into the snapshot -/
  published : List ℕ := []
  subscriptions : List (Except String ℕ) := []
  /-- the subscribers deactivated before a `shutdown` returned normally -/
  unsubscribed : List ℕ := []
  shutdowns : List (Except String Unit) := []

/-- Everything the threads share. -/
structure DispatcherMem {T E : Type} (Q : QueuePolicy T (Publication E)) where
  queue : Q.Mem
  subs : ℕ → SubscriberState T (Publication E)
  registry : Registry T
  life : Lifecycle T
  metrics : DispatcherMetrics
  threads : ThreadTable T
  history : History T E

/-- `publish_with`. -/
inductive PublishPhase
  | check
  | call
  | pushing
  | count (status : QueueStatus)
  deriving DecidableEq

/-- `registry_core::retire`. -/
inductive RetirePhase
  | lockWriter
  | find
  | filter (todo kept : List ℕ)
  | unlock
  deriving DecidableEq

/-- `subscriber_state::unsubscribe`; `self` is `called_from_this_callback`. -/
inductive UnsubscribePhase
  | deactivate
  | retire (self : Bool) (phase : RetirePhase)
  | stop (self : Bool) (phase : StopPhase)
  | waitIdle
  | idleParked
  deriving DecidableEq

/-- `dispatcher::subscribe` and `registry_core::subscribe`. -/
inductive SubscribePhase
  | lockLifecycle
  | lockWriter
  | construct
  | filter (id : ℕ) (todo kept : List ℕ)
  | startExecutor (id : ℕ) (next : List ℕ)
  | store (id : ℕ) (next : List ℕ)
  | unlockWriter (result : Except String ℕ)
  | unlockLifecycle (result : Except String ℕ)

/-- `shutdown`. -/
inductive ShutdownPhase (T : Type)
  | guard
  | lockLifecycle
  | changedParked
  | callClose
  | closing
  | countDropped (discarded : ℕ)
  | loadSnapshot
  | stop (todo : List ℕ) (phase : StopPhase)
  | joinWorkers (todo : List T)
  | storeStopped
  | notifyChanged
  deriving DecidableEq

/-- `run` and `broadcast_batch`.  `event` is the event being broadcast, `events` come
after it, `subs` are the subscribers of the snapshot that `event` has not reached. -/
inductive WorkerPhase (E : Type)
  | callPop (batch : List (Publication E))
  | popping (batch : List (Publication E))
  | acquire (batch : List (Publication E))
  | next (snapshot subs : List ℕ) (event : Publication E) (events : List (Publication E))
  | invoke (snapshot subs : List ℕ) (event : Publication E) (events : List (Publication E))
      (i : ℕ) (phase : InvokePhase)
  /-- the error handler is running -/
  | handler (snapshot subs : List ℕ) (event : Publication E) (events : List (Publication E))
  deriving DecidableEq

/-- A callback of a subscriber of another owner, on a thread of this dispatcher or on
any other. -/
inductive ForeignPhase
  | enter
  | running (previous : Contexts)
  | leave (previous : Contexts)
  deriving DecidableEq

/-- One activation on a thread's stack. -/
inductive Frame (T E : Type)
  | worker (phase : WorkerPhase E)
  | executor (i : ℕ) (phase : ExecutorPhase (Publication E))
  /-- `try_invoke` through a snapshot that user code holds -/
  | invoke (i : ℕ) (event : Publication E) (phase : InvokePhase)
  /-- a publication; `rest` is what is left of the span of `try_publish_batch` -/
  | publish (event : Publication E) (kind : PushKind) (stop : Bool) (rest : List E)
      (phase : PublishPhase)
  /-- user code asks the stop token of `target`'s publication to stop -/
  | requestStop (target : T) (issued : Bool)
  | subscribe (callback : Bool) (options : SubscriptionOptions) (phase : SubscribePhase)
  | unsubscribe (i : ℕ) (phase : UnsubscribePhase)
  | shutdown (policy : ShutdownPolicy) (phase : ShutdownPhase T)
  | foreign (phase : ForeignPhase)

/-- What user code may call.  `publishBatch` has at least one event: an empty span
publishes nothing. -/
inductive Call (T E : Type)
  | publish (kind : PushKind) (payload : E) (stop : Bool)
  | publishBatch (payload : E) (rest : List E)
  | requestStop (target : T)
  | subscribe (callback : Bool) (options : SubscriptionOptions)
  | unsubscribe (i : ℕ)
  | shutdown (policy : ShutdownPolicy)
  | invoke (i : ℕ) (event : Publication E)
  /-- something that leads to a callback of another owner -/
  | foreign
  deriving DecidableEq

/-- The choices a step can depend on. -/
inductive DispatcherChoice {T E : Type} (Q : QueuePolicy T (Publication E))
  /-- the constructor stores `running` -/
  | constructed
  /-- a created thread begins -/
  | start
  | call (call : Call T E)
  /-- the callback or the error handler ends -/
  | finish (threw : Bool)
  /-- the next step of the top frame: `flag` lets a copy throw, an allocation or a
  thread creation fail, a parked thread wake spuriously or a callback have been slow;
  `thread` is the one that a `notify_one` unparks or that a new executor runs on -/
  | go (flag : Bool) (thread : Option T)
  /-- the next step inside the queue -/
  | queue (choice : Q.Choice)

/-- What a step was allowed to do by its label. -/
def DispatcherChoice.flag {T E : Type} {Q : QueuePolicy T (Publication E)} :
    DispatcherChoice Q → Bool
  | .go flag _ => flag
  | _ => false

/-- The thread-local state: inside the queue, the `current_invocation_` chain, and the
stack. -/
structure ThreadLoc {T E : Type} (Q : QueuePolicy T (Publication E)) where
  queue : Q.Loc
  contexts : Contexts
  stack : List (Frame T E)

namespace DispatcherMem

variable {T E : Type} {Q : QueuePolicy T (Publication E)}

/-- Writes subscriber `i`. -/
@[simps]
def setSub (m : DispatcherMem Q) (i : ℕ) (s : SubscriberState T (Publication E)) :
    DispatcherMem Q :=
  { m with subs := Function.update m.subs i s }

/-- Subscriber `i` moves on; the events it has received are invocations of its
callback. -/
@[simps]
def invokeSub (m : DispatcherMem Q) (i : ℕ) (s : SubscriberState T (Publication E)) :
    DispatcherMem Q :=
  { m with
    subs := Function.update m.subs i s
    history :=
      { m.history with
        invocations := m.history.invocations ++
          (s.received.drop (m.subs i).received.length).map fun event => (i, event) } }

/-- The queue moves on: `accepted` has entered it and `destroyed` has left it for
good. -/
@[simps]
def setQueue (m : DispatcherMem Q) (queue : Q.Mem) (accepted destroyed : List (Publication E)) :
    DispatcherMem Q :=
  { m with
    queue := queue
    history :=
      { m.history with
        accepted := m.history.accepted ++ accepted
        destroyed := m.history.destroyed ++ destroyed } }

/-- Takes or gives back `writer_mutex_`. -/
@[simps]
def setWriter (m : DispatcherMem Q) (writer : Option T) : DispatcherMem Q :=
  { m with registry := { m.registry with writer := writer } }

/-- Stores a snapshot. -/
@[simps]
def setCurrent (m : DispatcherMem Q) (current : List ℕ) : DispatcherMem Q :=
  { m with registry := { m.registry with current := current } }

/-- `subscribe` stores the snapshot with the new subscriber. -/
@[simps]
def publishSub (m : DispatcherMem Q) (i : ℕ) (current : List ℕ) : DispatcherMem Q :=
  { m with
    registry := { m.registry with current := current }
    history := { m.history with published := m.history.published ++ [i] } }

/-- `allocate_id`. -/
@[simps]
def allocateId (m : DispatcherMem Q) : DispatcherMem Q :=
  { m with registry := { m.registry with nextId := m.registry.nextId + 1 } }

/-- Stores the lifecycle state. -/
@[simps]
def setLifecycle (m : DispatcherMem Q) (state : LifecycleState) : DispatcherMem Q :=
  { m with life := { m.life with state := state } }

/-- Takes or gives back `lifecycle_mutex_`. -/
@[simps]
def setMutex (m : DispatcherMem Q) (mutex : Option T) : DispatcherMem Q :=
  { m with life := { m.life with mutex := mutex } }

/-- Writes the threads parked on `lifecycle_changed_`. -/
@[simps]
def setChanged (m : DispatcherMem Q) (changed : Finset T) : DispatcherMem Q :=
  { m with life := { m.life with changed := changed } }

/-- `accepted` or `rejected`, by the status of a publication. -/
def countStatus (m : DispatcherMem Q) (status : QueueStatus) : DispatcherMem Q :=
  if status = .success then
    { m with metrics := { m.metrics with accepted := m.metrics.accepted + 1 } }
  else { m with metrics := { m.metrics with rejected := m.metrics.rejected + 1 } }

/-- Counts what a discarding `shutdown` has thrown away. -/
@[simps]
def countDropped (m : DispatcherMem Q) (discarded : ℕ) : DispatcherMem Q :=
  { m with metrics := { m.metrics with dropped := m.metrics.dropped + UInt64.ofNat discarded } }

/-- The handles that user code has got. -/
def subscribed (m : DispatcherMem Q) : List ℕ :=
  m.history.subscriptions.filterMap Except.toOption

/-- A publication gets its number. -/
@[simps]
def beginPublication (m : DispatcherMem Q) : DispatcherMem Q :=
  { m with history :=
    { m.history with
      begun := m.history.begun + 1
      due := Function.update m.history.due m.history.begun m.subscribed } }

/-- Records what a publication has returned. -/
@[simps]
def recordPublication (m : DispatcherMem Q) (id : ℕ) (outcome : PushOutcome) : DispatcherMem Q :=
  { m with history := { m.history with returned := m.history.returned ++ [(id, outcome)] } }

/-- Records what a `subscribe` has returned. -/
@[simps]
def recordSubscription (m : DispatcherMem Q) (result : Except String ℕ) : DispatcherMem Q :=
  { m with history := { m.history with subscriptions := m.history.subscriptions ++ [result] } }

/-- Records what a `shutdown` has returned. -/
@[simps]
def recordShutdown (m : DispatcherMem Q) (result : Except String Unit) : DispatcherMem Q :=
  { m with history := { m.history with shutdowns := m.history.shutdowns ++ [result] } }

/-- A `shutdown` has returned normally. -/
def shutdownReturned (m : DispatcherMem Q) : Bool :=
  m.history.shutdowns.any fun r => r.toOption.isSome

/-- Records a deactivation before the return of `shutdown`. -/
def recordUnsubscribed (m : DispatcherMem Q) (i : ℕ) : DispatcherMem Q :=
  if m.shutdownReturned then m
  else { m with history := { m.history with unsubscribed := i :: m.history.unsubscribed } }

/-- Records that worker `t` has got an event. -/
@[simps]
def recordDequeued (m : DispatcherMem Q) (t : T) (event : Publication E) : DispatcherMem Q :=
  { m with history := { m.history with dequeued := m.history.dequeued ++ [(t, event)] } }

/-- Records that worker `t` broadcasts a batch. -/
@[simps]
def recordBatch (m : DispatcherMem Q) (t : T) (batch : List (Publication E)) : DispatcherMem Q :=
  { m with history := { m.history with batches := m.history.batches ++ [(t, batch)] } }

section Fields

variable (m : DispatcherMem Q) (status : QueueStatus) (i : ℕ)

@[simp] theorem countStatus_queue : (m.countStatus status).queue = m.queue := by
  unfold countStatus; split <;> rfl

@[simp] theorem countStatus_subs : (m.countStatus status).subs = m.subs := by
  unfold countStatus; split <;> rfl

@[simp] theorem countStatus_registry : (m.countStatus status).registry = m.registry := by
  unfold countStatus; split <;> rfl

@[simp] theorem countStatus_life : (m.countStatus status).life = m.life := by
  unfold countStatus; split <;> rfl

@[simp] theorem countStatus_threads : (m.countStatus status).threads = m.threads := by
  unfold countStatus; split <;> rfl

@[simp] theorem countStatus_history : (m.countStatus status).history = m.history := by
  unfold countStatus; split <;> rfl

@[simp] theorem recordUnsubscribed_queue : (m.recordUnsubscribed i).queue = m.queue := by
  unfold recordUnsubscribed; split <;> rfl

@[simp] theorem recordUnsubscribed_subs : (m.recordUnsubscribed i).subs = m.subs := by
  unfold recordUnsubscribed; split <;> rfl

@[simp] theorem recordUnsubscribed_registry :
    (m.recordUnsubscribed i).registry = m.registry := by
  unfold recordUnsubscribed; split <;> rfl

@[simp] theorem recordUnsubscribed_life : (m.recordUnsubscribed i).life = m.life := by
  unfold recordUnsubscribed; split <;> rfl

@[simp] theorem recordUnsubscribed_threads : (m.recordUnsubscribed i).threads = m.threads := by
  unfold recordUnsubscribed; split <;> rfl

@[simp] theorem recordUnsubscribed_metrics : (m.recordUnsubscribed i).metrics = m.metrics := by
  unfold recordUnsubscribed; split <;> rfl

@[simp] theorem recordUnsubscribed_subscriptions :
    (m.recordUnsubscribed i).history.subscriptions = m.history.subscriptions := by
  unfold recordUnsubscribed; split <;> rfl

@[simp] theorem recordUnsubscribed_shutdowns :
    (m.recordUnsubscribed i).history.shutdowns = m.history.shutdowns := by
  unfold recordUnsubscribed; split <;> rfl

@[simp] theorem recordUnsubscribed_begun :
    (m.recordUnsubscribed i).history.begun = m.history.begun := by
  unfold recordUnsubscribed; split <;> rfl

@[simp] theorem recordUnsubscribed_returned :
    (m.recordUnsubscribed i).history.returned = m.history.returned := by
  unfold recordUnsubscribed; split <;> rfl

@[simp] theorem recordUnsubscribed_due :
    (m.recordUnsubscribed i).history.due = m.history.due := by
  unfold recordUnsubscribed; split <;> rfl

@[simp] theorem recordUnsubscribed_accepted :
    (m.recordUnsubscribed i).history.accepted = m.history.accepted := by
  unfold recordUnsubscribed; split <;> rfl

@[simp] theorem recordUnsubscribed_dequeued :
    (m.recordUnsubscribed i).history.dequeued = m.history.dequeued := by
  unfold recordUnsubscribed; split <;> rfl

@[simp] theorem recordUnsubscribed_batches :
    (m.recordUnsubscribed i).history.batches = m.history.batches := by
  unfold recordUnsubscribed; split <;> rfl

@[simp] theorem recordUnsubscribed_destroyed :
    (m.recordUnsubscribed i).history.destroyed = m.history.destroyed := by
  unfold recordUnsubscribed; split <;> rfl

@[simp] theorem recordUnsubscribed_invocations :
    (m.recordUnsubscribed i).history.invocations = m.history.invocations := by
  unfold recordUnsubscribed; split <;> rfl

@[simp] theorem recordUnsubscribed_published :
    (m.recordUnsubscribed i).history.published = m.history.published := by
  unfold recordUnsubscribed; split <;> rfl

end Fields

section Threads

variable [DecidableEq T]

/-- The thread function of `t` returns. -/
@[simps]
def finish (m : DispatcherMem Q) (t : T) : DispatcherMem Q :=
  { m with threads := { m.threads with finished := insert t m.threads.finished } }

/-- `std::thread{executor_loop}` gets the thread `u`. -/
@[simps]
def spawn (m : DispatcherMem Q) (i : ℕ) (u : T) : DispatcherMem Q :=
  { m.setSub i ((m.subs i).startExecutor u) with
    threads :=
      { m.threads with
        unstarted := m.threads.unstarted.erase u
        entry := Function.update m.threads.entry u (some i) } }

/-- Writes the threads inside a publication. -/
@[simps]
def setPublishing (m : DispatcherMem Q) (publishing : Finset T) : DispatcherMem Q :=
  { m with threads := { m.threads with publishing := publishing } }

end Threads

end DispatcherMem

namespace Frame

variable {T E : Type}

/-- User code is running in the frame: its thread may make a call. -/
def user : Frame T E → Bool
  | .worker (.invoke _ _ _ _ _ (.callback (.running _))) => true
  | .worker (.handler _ _ _ _) => true
  | .executor _ (.callback _ (.running _)) => true
  | .executor _ .handler => true
  | .invoke _ _ (.callback (.running _)) => true
  | .foreign (.running _) => true
  | _ => false

/-- Where a callback goes when its user code ends. -/
def afterCallback (previous : Contexts) (threw : Bool) : CallbackPhase :=
  if threw then .countError previous else .leave previous false

/-- The user code of the frame ends; what an error handler throws is swallowed. -/
def finishUser (threw : Bool) : Frame T E → Option (Frame T E)
  | .worker (.invoke snapshot subs event events i (.callback (.running previous))) =>
      some (.worker (.invoke snapshot subs event events i
        (.callback (afterCallback previous threw))))
  | .worker (.handler snapshot subs event events) =>
      some (.worker (.next snapshot subs event events))
  | .executor i (.callback event (.running previous)) =>
      some (.executor i (.callback event (afterCallback previous threw)))
  | .executor i .handler => some (.executor i .lockMailbox)
  | .invoke i event (.callback (.running previous)) =>
      some (.invoke i event (.callback (afterCallback previous threw)))
  | .foreign (.running previous) => some (.foreign (.leave previous))
  | _ => none

/-- The frame has a queue operation under way. -/
def inQueue : Frame T E → Bool
  | .worker (.popping _) => true
  | .publish _ _ _ _ .pushing => true
  | .requestStop _ true => true
  | .shutdown _ .closing => true
  | _ => false

end Frame

namespace Dispatcher

open SubscriberState

variable {T E : Type} [DecidableEq T] {Q : QueuePolicy T (Publication E)}

/-- `publish_with` and the loop of `try_publish_batch`. -/
def stepPublish (t : T) (m : DispatcherMem Q) (q : Q.Loc) (event : Publication E)
    (kind : PushKind) (stop : Bool) (rest : List E) :
    PublishPhase → Option (DispatcherMem Q × Q.Loc × Option (Frame T E))
  | .check =>
      some (m, q, some (.publish event kind stop rest
        (if m.life.state = .running then .call else .count .closed)))
  | .call =>
      (Q.step t (Q.call (.push kind event stop)) m.queue q).map fun r =>
        ({ m with queue := r.1 }.setPublishing (insert t m.threads.publishing), r.2,
          some (.publish event kind stop rest .pushing))
  | .pushing =>
      if Q.idle q then
        match Q.last q with
        | some (.push (.returned status)) =>
            some (m.setPublishing (m.threads.publishing.erase t), q,
              some (.publish event kind stop rest (.count status)))
        | some (.push .threw) =>
            some ((m.setPublishing (m.threads.publishing.erase t)).recordPublication event.id
              .threw, q, none)
        | _ => none
      else none
  | .count status =>
      let m := (m.countStatus status).recordPublication event.id (.returned status)
      match status, rest with
      | .success, payload :: rest =>
          some (m.beginPublication, q,
            some (.publish ⟨m.history.begun, payload⟩ kind stop rest .check))
      | _, _ => some (m, q, none)

/-- `registry_core::retire` of subscriber `i`. -/
def stepRetire (t : T) (m : DispatcherMem Q) (i : ℕ) (flag : Bool) :
    RetirePhase → Option (DispatcherMem Q × Option RetirePhase)
  | .lockWriter =>
      if m.registry.writer = none then some (m.setWriter (some t), some .find) else none
  | .find =>
      -- without memory for the copy the exception is swallowed by `unsubscribe`
      some (m, some (if i ∈ m.registry.current ∧ flag = false then .filter m.registry.current []
        else .unlock))
  | .filter (j :: todo) kept =>
      some (m, some (.filter todo
        (if j ≠ i ∧ (m.subs j).active = true then kept ++ [j] else kept)))
  | .filter [] kept => some (m.setCurrent kept, some .unlock)
  | .unlock => some (m.setWriter none, none)

/-- `unsubscribe`. -/
def stepUnsubscribe (t : T) (m : DispatcherMem Q) (contexts : Contexts) (i : ℕ) (flag : Bool) :
    UnsubscribePhase → Option (DispatcherMem Q × Option UnsubscribePhase)
  | .deactivate =>
      some ((m.setSub i (m.subs i).deactivate).recordUnsubscribed i,
        some (if (m.subs i).retirementStarted then .stop (decide (some i ∈ contexts)) .lockMailbox
          else .retire (decide (some i ∈ contexts)) .lockWriter))
  | .retire self phase =>
      (stepRetire t m i flag phase).map fun r =>
        (r.1, some (match r.2 with
          | some phase => .retire self phase
          | none => .stop self .lockMailbox))
  | .stop self .done => some (m, if self then none else some .waitIdle)
  | .stop self phase =>
      (stepStop t (m.subs i) m.threads.finished false phase).map fun r =>
        (m.setSub i r.1, some (.stop self r.2))
  | .waitIdle =>
      if (m.subs i).inFlight = 0 then some (m, none)
      else some (m.setSub i
        { m.subs i with noCallbacks := insert t (m.subs i).noCallbacks }, some .idleParked)
  | .idleParked =>
      if t ∈ (m.subs i).noCallbacks ∧ flag = false then none
      else some (m.setSub i
        { m.subs i with noCallbacks := (m.subs i).noCallbacks.erase t }, some .waitIdle)

/-- `dispatcher::subscribe` and `registry_core::subscribe`. -/
def stepSubscribe (copyable : Bool) (t : T) (m : DispatcherMem Q) (callback : Bool)
    (options : SubscriptionOptions) (flag : Bool) (thread : Option T) :
    SubscribePhase → Option (DispatcherMem Q × Option SubscribePhase)
  | .lockLifecycle =>
      if m.life.mutex = none then
        some (m.setMutex (some t), some (
          if m.life.state ≠ .running then
            .unlockLifecycle (.error "cannot subscribe after dispatcher shutdown begins")
          else if callback then .lockWriter
          else .unlockLifecycle (.error "snapshot_registry callback must not be empty")))
      else none
  | .lockWriter =>
      if m.registry.writer = none then some (m.setWriter (some t), some .construct) else none
  | .construct =>
      if m.registry.nextId = 2 ^ 64 - 1 then
        some (m, some (.unlockWriter (.error "snapshot_registry subscriber id exhausted")))
      else
        match options.validate copyable with
        | .error message => some (m.allocateId, some (.unlockWriter (.error message)))
        | .ok () =>
            if flag then some (m.allocateId, some (.unlockWriter (.error "std::bad_alloc")))
            else some (m.allocateId.setSub m.registry.nextId { options := options },
              some (.filter m.registry.nextId m.registry.current []))
  | .filter id (j :: todo) kept =>
      some (m, some (.filter id todo (if (m.subs j).active = true then kept ++ [j] else kept)))
  | .filter id [] kept => some (m, some (.startExecutor id (kept ++ [id])))
  | .startExecutor id next =>
      if options.delivery = .isolated then
        if flag then some (m, some (.unlockWriter (.error "std::system_error")))
        else match thread with
        | some u =>
            if u ∈ m.threads.unstarted then some (m.spawn id u, some (.store id next)) else none
        | none => none
      else some (m, some (.store id next))
  | .store id next => some (m.publishSub id next, some (.unlockWriter (.ok id)))
  | .unlockWriter result => some (m.setWriter none, some (.unlockLifecycle result))
  | .unlockLifecycle result => some ((m.setMutex none).recordSubscription result, none)

/-- The state that the first `shutdown` stores. -/
def stopping : ShutdownPolicy → LifecycleState
  | .drain => .drainStopping
  | .discard => .discardStopping

/-- `close` or `close_and_discard`. -/
def closeOp {E : Type} : ShutdownPolicy → QueueOp E
  | .drain => .close
  | .discard => .closeAndDiscard

/-- `shutdown(policy)`. -/
def stepShutdown (workers : List T) (t : T) (m : DispatcherMem Q) (q : Q.Loc)
    (contexts : Contexts) (policy : ShutdownPolicy) (flag : Bool) :
    ShutdownPhase T → Option (DispatcherMem Q × Q.Loc × Option (ShutdownPhase T))
  | .guard =>
      if t ∈ workers ∨ contexts.any Option.isSome then
        some (m.recordShutdown (.error "dispatcher shutdown cannot run inside its callback"), q,
          none)
      else some (m, q, some .lockLifecycle)
  | .lockLifecycle =>
      if m.life.mutex = none then
        if m.life.state = .stopped then some (m.recordShutdown (.ok ()), q, none)
        else if m.life.state = .drainStopping ∨ m.life.state = .discardStopping then
          some (m.setChanged (insert t m.life.changed), q, some .changedParked)
        else some (m.setLifecycle (stopping policy), q, some .callClose)
      else none
  | .changedParked =>
      if t ∈ m.life.changed then
        if flag then some (m.setChanged (m.life.changed.erase t), q, some .changedParked)
        else none
      else if m.life.mutex = none then
        if m.life.state = .stopped then some (m.recordShutdown (.ok ()), q, none)
        else some (m.setChanged (insert t m.life.changed), q, some .changedParked)
      else none
  | .callClose =>
      (Q.step t (Q.call (closeOp policy)) m.queue q).map fun r =>
        ({ m with queue := r.1 }, r.2, some .closing)
  | .closing =>
      if Q.idle q then
        match policy, Q.last q with
        | .drain, some .closed => some (m, q, some (.joinWorkers workers))
        | .discard, some (.discarded count) => some (m, q, some (.countDropped count))
        | _, _ => none
      else none
  | .countDropped discarded => some (m.countDropped discarded, q, some .loadSnapshot)
  | .loadSnapshot => some (m, q, some (.stop m.registry.current .lockMailbox))
  | .stop [] _ =>
      some (m, q, some (if policy = .drain then .storeStopped else .joinWorkers workers))
  | .stop (_ :: todo) .done => some (m, q, some (.stop todo .lockMailbox))
  | .stop (i :: todo) phase =>
      (stepStop t (m.subs i) m.threads.finished (policy = .drain) phase).map fun r =>
        (m.setSub i r.1, q, some (.stop (i :: todo) r.2))
  | .joinWorkers [] =>
      some (m, q, some (if policy = .drain then .loadSnapshot else .storeStopped))
  | .joinWorkers (u :: todo) =>
      if u ∈ m.threads.finished then some (m, q, some (.joinWorkers todo)) else none
  | .storeStopped =>
      if m.life.mutex = none then some (m.setLifecycle .stopped, q, some .notifyChanged)
      else none
  | .notifyChanged => some ((m.setChanged ∅).recordShutdown (.ok ()), q, none)

/-- `run` and `broadcast_batch`. -/
def stepWorker (batchSize : ℕ) (t : T) (m : DispatcherMem Q) (q : Q.Loc) (contexts : Contexts)
    (flag : Bool) (thread : Option T) :
    WorkerPhase E → Option (DispatcherMem Q × Q.Loc × Contexts × Option (WorkerPhase E))
  | .callPop batch =>
      (Q.step t (Q.call (.pop batch.isEmpty false)) m.queue q).map fun r =>
        ({ m with queue := r.1 }, r.2, contexts, some (.popping batch))
  | .popping batch =>
      if Q.idle q then
        match Q.last q with
        | some (.pop (.success event)) =>
            some (m.recordDequeued t event, q, contexts,
              some (if batch.length + 1 < batchSize then .callPop (batch ++ [event])
                else .acquire (batch ++ [event])))
        | some (.pop .empty) =>
            some (m, q, contexts, some (if batch = [] then .callPop [] else .acquire batch))
        | some (.pop _) =>
            if batch = [] then some (m.finish t, q, contexts, none)
            else some (m, q, contexts, some (.acquire batch))
        | _ => none
      else none
  | .acquire [] => some (m.recordBatch t [], q, contexts, some (.callPop []))
  | .acquire (event :: events) =>
      some (m.recordBatch t (event :: events), q, contexts,
        some (.next m.registry.current m.registry.current event events))
  | .next snapshot (i :: subs) event events =>
      some (m, q, contexts, some (.invoke snapshot subs event events i .offer))
  | .next snapshot [] _ (event :: events) =>
      some (m, q, contexts, some (.next snapshot snapshot event events))
  | .next _ [] _ [] => some (m, q, contexts, some (.callPop []))
  | .invoke snapshot subs event events _ (.done threw) =>
      some (m, q, contexts, some (if threw then .handler snapshot subs event events
        else .next snapshot subs event events))
  | .invoke snapshot subs event events i phase =>
      (stepInvoke t i (m.subs i) contexts event flag thread phase).map fun r =>
        (m.invokeSub i r.1, q, r.2.1, some (.invoke snapshot subs event events i r.2.2))
  -- user code
  | .handler _ _ _ _ => none

/-- The next step of the top frame outside user code and outside the queue. -/
def stepFrame (setup : Setup T) (t : T) (m : DispatcherMem Q) (q : Q.Loc) (contexts : Contexts)
    (flag : Bool) (thread : Option T) :
    Frame T E → Option (DispatcherMem Q × Q.Loc × Contexts × Option (Frame T E))
  | .worker phase =>
      (stepWorker setup.batchSize t m q contexts flag thread phase).map fun r =>
        (r.1, r.2.1, r.2.2.1, r.2.2.2.map .worker)
  | .executor _ .done => some (m.finish t, q, contexts, none)
  | .executor i phase =>
      (stepExecutor t i (m.subs i) contexts flag thread phase).map fun r =>
        (m.invokeSub i r.1, q, r.2.1, some (.executor i r.2.2))
  | .invoke _ _ (.done _) => some (m, q, contexts, none)
  | .invoke i event phase =>
      (stepInvoke t i (m.subs i) contexts event flag thread phase).map fun r =>
        (m.invokeSub i r.1, q, r.2.1, some (.invoke i event r.2.2))
  | .publish event kind stop rest phase =>
      (stepPublish t m q event kind stop rest phase).map fun r =>
        (r.1, r.2.1, contexts, r.2.2)
  | .requestStop target false =>
      if target ∈ m.threads.publishing then
        (Q.step t (Q.requestStop target) m.queue q).map fun r =>
          ({ m with queue := r.1 }, r.2, contexts, some (.requestStop target true))
      else some (m, q, contexts, none)
  | .requestStop _ true => if Q.idle q then some (m, q, contexts, none) else none
  | .subscribe callback options phase =>
      (stepSubscribe setup.copyable t m callback options flag thread phase).map fun r =>
        (r.1, q, contexts, r.2.map (.subscribe callback options))
  | .unsubscribe i phase =>
      (stepUnsubscribe t m contexts i flag phase).map fun r =>
        (r.1, q, contexts, r.2.map (.unsubscribe i))
  | .shutdown policy phase =>
      (stepShutdown setup.workers t m q contexts policy flag phase).map fun r =>
        (r.1, r.2.1, contexts, r.2.2.map (.shutdown policy))
  | .foreign .enter => some (m, q, none :: contexts, some (.foreign (.running contexts)))
  -- user code
  | .foreign (.running _) => none
  | .foreign (.leave previous) => some (m, q, previous, none)

/-- What a publication puts into the queue in one step. -/
def accepted (Q : QueuePolicy T (Publication E)) (frame : Frame T E) (before after : Q.Mem) :
    List (Publication E) :=
  match frame with
  | .publish _ _ _ _ _ => (Q.contents after).drop (Q.contents before).length
  | _ => []

/-- What the discarding thread takes out of the queue in one step. -/
def destroyed (Q : QueuePolicy T (Publication E)) (frame : Frame T E) (before after : Q.Mem) :
    List (Publication E) :=
  match frame with
  | .shutdown .discard _ =>
      (Q.contents before).take ((Q.contents before).length - (Q.contents after).length)
  | _ => []

/-- A step inside the queue. -/
def stepQueue (t : T) (m : DispatcherMem Q) (q : Q.Loc) (choice : Q.Choice) (frame : Frame T E) :
    Option (DispatcherMem Q × Q.Loc) :=
  if frame.inQueue = true ∧ Q.idle q = false then
    (Q.step t choice m.queue q).map fun r =>
      (m.setQueue r.1 (accepted Q frame m.queue r.1) (destroyed Q frame m.queue r.1), r.2)
  else none

/-- User code makes a call.  It can only name subscribers whose handle it has got. -/
def enter (m : DispatcherMem Q) : Call T E → Option (DispatcherMem Q × Frame T E)
  | .publish kind payload stop =>
      some (m.beginPublication, .publish ⟨m.history.begun, payload⟩ kind stop [] .check)
  | .publishBatch payload rest =>
      some (m.beginPublication, .publish ⟨m.history.begun, payload⟩ .tryPush false rest .check)
  | .requestStop target => some (m, .requestStop target false)
  | .subscribe callback options => some (m, .subscribe callback options .lockLifecycle)
  | .unsubscribe i =>
      if i ∈ m.subscribed then some (m, .unsubscribe i .deactivate) else none
  | .shutdown policy => some (m, .shutdown policy .guard)
  | .invoke i event =>
      if i ∈ m.subscribed then some (m, .invoke i event .offer) else none
  | .foreign => some (m, .foreign .enter)

/-- A thread that the dispatcher does not own. -/
def Client (setup : Setup T) (t : T) : Prop := t ∉ setup.workers ∧ t ∉ setup.executors

instance (setup : Setup T) (t : T) : Decidable (Client setup t) :=
  inferInstanceAs (Decidable (_ ∧ _))

/-- One step of one thread. -/
def step (setup : Setup T) (t : T) (c : DispatcherChoice Q) (m : DispatcherMem Q)
    (l : ThreadLoc Q) : Option (DispatcherMem Q × ThreadLoc Q) :=
  match c, l.stack with
  | .constructed, [] =>
      if Client setup t ∧ m.life.state = .created then some (m.setLifecycle .running, l) else none
  | .start, [] =>
      (m.threads.entry t).map fun i =>
        ({ m with threads := { m.threads with entry := Function.update m.threads.entry t none } },
          { l with stack := [.executor i .lockMailbox] })
  | .call call, [] =>
      if Client setup t ∧ m.life.state ≠ .created then
        (enter m call).map fun r => (r.1, { l with stack := [r.2] })
      else none
  | .call call, frame :: rest =>
      if frame.user then
        (enter m call).map fun r => (r.1, { l with stack := r.2 :: frame :: rest })
      else none
  | .finish threw, frame :: rest =>
      (frame.finishUser threw).map fun frame' => (m, { l with stack := frame' :: rest })
  | .go flag thread, frame :: rest =>
      (stepFrame setup t m l.queue l.contexts flag thread frame).map fun r =>
        (r.1, ⟨r.2.1, r.2.2.1, r.2.2.2.toList ++ rest⟩)
  | .queue choice, frame :: _ =>
      (stepQueue t m l.queue choice frame).map fun r => (r.1, { l with queue := r.2 })
  | _, _ => none

/-- A dispatcher whose constructor has started the workers. -/
def started (setup : Setup T) (Q : QueuePolicy T (Publication E)) :
    Config T (DispatcherMem Q) (ThreadLoc Q) where
  mem :=
    { queue := Q.mem₀
      subs := fun _ => { options := {} }
      registry := {}
      life := {}
      metrics := {}
      threads := ⟨setup.executors, fun _ => none, ∅, ∅⟩
      history := {} }
  loc := fun t =>
    { queue := Q.loc₀
      contexts := []
      stack := if t ∈ setup.workers then [.worker (.callPop [])] else [] }

/-- Any interleaving of the threads of one dispatcher. -/
def system (setup : Setup T) (Q : QueuePolicy T (Publication E)) :
    System (Config T (DispatcherMem Q) (ThreadLoc Q)) (T × DispatcherChoice Q) :=
  interleave (step setup) fun s => s = started setup Q

end Dispatcher

end EventDispatcher
