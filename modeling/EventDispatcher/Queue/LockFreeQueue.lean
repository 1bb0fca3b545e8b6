import EventDispatcher.Lib.WaitSet
import EventDispatcher.Queue.SlotStore

/-!
# `bounded_lock_free_queue` under any number of threads

One step is one atomic operation of the source: a load, a compare-exchange, a
fetch-add on an epoch or on the occupancy counter, one operation of an index
ring, the construction, move or destruction of an Event, a notification, a lock
of `close_mutex_`.  The index rings are linearizable FIFO queues of indices.

`epoch.wait(old)` compares and parks in one step and compares again when it is
unparked.  `timed_waiters_`, its mutex and the stop callback of
`wait_push_until` only cut short a sleep of at most one millisecond, after which
the loop polls again; here that sleep may end at any time.
-/

namespace EventDispatcher

open Transition OperationGate

/-- `producer_gate_` and `consumer_gate_`. -/
inductive Gate
  | producer
  | consumer
  deriving DecidableEq

/-- `data_epoch_` and `capacity_epoch_`. -/
inductive Epoch
  | data
  | capacity
  deriving DecidableEq

/-- Life of the `std::stop_callback` of a waiting call; once registered it bumps
the epoch the call waits for. -/
inductive StopCallback
  | absent
  | registered (epoch : Epoch)
  | running
  deriving DecidableEq

/-- Everything the threads share besides the storage. -/
structure LockFreeSync (T : Type) where
  gate : Gate → ℕ
  gateWaiters : Gate → Finset T
  epoch : Epoch → ℕ
  epochWaiters : Epoch → Finset T
  producerQuiesced : Bool
  closeMutex : Option T
  stop : T → Bool
  callback : T → StopCallback

/-- The memory of the queue. -/
structure LockFreeMem (T E : Type) where
  store : SlotStore E
  sync : LockFreeSync T

/-- Which call of `try_push_impl` is running. -/
inductive PushContext
  /-- `try_push` or `try_emplace` itself -/
  | once
  | waitFirst
  | waitChecked (epoch : ℕ)
  | timed
  | timedFinal
  deriving DecidableEq

/-- Which call of `try_pop` is running. -/
inductive PopContext
  | once
  | waitFirst
  | waitChecked (epoch : ℕ)
  deriving DecidableEq

/-- Inside `try_push_impl` or `try_emplace`. -/
inductive PushPhase
  | loadGate
  | enterGate (state : OpenState)
  | takeIndex
  | construct (index : ℕ)
  | rollBack (index : ℕ)
  | bumpRolledBack
  | notifyRolledBack
  | countOccupied (index : ℕ)
  | publish (index : ℕ)
  | bump
  | notify
  | leave (outcome : PushOutcome)
  | notifyGate (outcome : PushOutcome)
  deriving DecidableEq

/-- Inside `try_pop`. -/
inductive PopPhase (E : Type)
  | loadGate
  | enterGate (state : OpenState)
  | takeIndex
  | loadQuiesced
  | move (index : ℕ) (event : E)
  | destroy (index : ℕ) (event : E)
  | uncount (index : ℕ) (event : E)
  | giveBack (index : ℕ) (event : E)
  | bump (event : E)
  | notify (event : E)
  | leave (result : PopResult E)
  | notifyGate (result : PopResult E)
  deriving DecidableEq

/-- The waiting loop of `wait_push` and `wait_pop` outside its attempts. -/
inductive WaitPhase
  | register
  | bump
  | notify
  | stopFirst
  | loadEpoch
  | stopChecked (epoch : ℕ)
  | wait (epoch : ℕ)
  | parked (epoch : ℕ)
  deriving DecidableEq

/-- The loop of `wait_push_until` outside its attempts. -/
inductive TimedPhase
  | stopCheck
  | readClock
  | sleep
  deriving DecidableEq

/-- Inside `close` or `close_and_discard`.  `discarded` is absent while
`close_producers` is running. -/
inductive ClosePhase (E : Type)
  | lock
  | shutGate (gate : Gate)
  | waitGate (gate : Gate) (state : ℕ)
  | parkedGate (gate : Gate) (state : ℕ)
  | loadGate (gate : Gate)
  | storeQuiesced
  | bump (epoch : Epoch) (discarded : Option ℕ)
  | notify (epoch : Epoch) (discarded : Option ℕ)
  | takeIndex (discarded : ℕ)
  | destroy (index : ℕ) (event : E) (discarded : ℕ)
  | uncount (index : ℕ) (discarded : ℕ)
  | giveBack (index : ℕ) (discarded : ℕ)
  | unlock (discarded : Option ℕ)
  deriving DecidableEq

/-- Where a thread stands. -/
inductive LockFreeLoc (T E : Type)
  | outside (last : Option (QueueResult E))
  | push (event : E) (context : PushContext) (phase : PushPhase)
  | waitPush (event : E) (phase : WaitPhase)
  | timedPush (event : E) (phase : TimedPhase)
  | pop (context : PopContext) (phase : PopPhase E)
  | waitPop (phase : WaitPhase)
  | close (discard : Bool) (phase : ClosePhase E)
  /-- destruction of the `stop_callback` of a waiting push -/
  | unregisterPush (outcome : PushOutcome)
  /-- destruction of the `stop_callback` of `wait_pop` -/
  | unregisterPop (result : PopResult E)
  /-- user code that asked `target`'s token to stop, inside `target`'s callback -/
  | stopCallback (target : T) (epoch : Epoch) (bumped : Bool)
  deriving DecidableEq

/-- The choices a step can depend on. -/
inductive LockFreeChoice (T E : Type)
  | call (op : QueueOp E)
  /-- user code asks the stop token of `target`'s current call to stop -/
  | requestStop (target : T)
  /-- the next step of the current operation: `flag` lets a construction throw, a
  compare-exchange fail spuriously, a parked thread wake spuriously or the
  deadline have passed, and `waiter` is the thread a `notify_one` unparks -/
  | go (flag : Bool) (waiter : Option T)
  deriving DecidableEq

namespace LockFreeSync

variable {T : Type} [DecidableEq T]

/-- Stores a gate word. -/
def setGate (m : LockFreeSync T) (g : Gate) (state : ℕ) : LockFreeSync T :=
  { m with gate := Function.update m.gate g state }

/-- `notify_all` on a gate. -/
def notifyGate (m : LockFreeSync T) (g : Gate) : LockFreeSync T :=
  { m with gateWaiters := Function.update m.gateWaiters g ∅ }

/-- Parks a thread on a gate. -/
def parkGate (m : LockFreeSync T) (g : Gate) (t : T) : LockFreeSync T :=
  { m with gateWaiters := Function.update m.gateWaiters g (insert t (m.gateWaiters g)) }

/-- Takes a thread off a gate. -/
def unparkGate (m : LockFreeSync T) (g : Gate) (t : T) : LockFreeSync T :=
  { m with gateWaiters := Function.update m.gateWaiters g ((m.gateWaiters g).erase t) }

/-- `fetch_add(1)` on an epoch. -/
def bump (m : LockFreeSync T) (k : Epoch) : LockFreeSync T :=
  { m with epoch := Function.update m.epoch k (wordInc (m.epoch k)) }

/-- Writes the threads parked on an epoch. -/
def setEpochWaiters (m : LockFreeSync T) (k : Epoch) (waiters : Finset T) : LockFreeSync T :=
  { m with epochWaiters := Function.update m.epochWaiters k waiters }

/-- Writes the state of a thread's stop callback. -/
def setCallback (m : LockFreeSync T) (t : T) (state : StopCallback) : LockFreeSync T :=
  { m with callback := Function.update m.callback t state }

/-- Requests a thread to stop, or not. -/
def setStop (m : LockFreeSync T) (t : T) (requested : Bool) : LockFreeSync T :=
  { m with stop := Function.update m.stop t requested }

end LockFreeSync

namespace LockFreeQueue

variable {T E : Type} [DecidableEq T]

/-- Entry of an operation. -/
def start : QueueOp E → LockFreeLoc T E
  | .push .tryPush event _ | .push .tryEmplace event _ => .push event .once .loadGate
  | .push .waitPush event _ => .waitPush event .register
  | .push .waitPushUntil event _ => .push event .timed .loadGate
  | .pop false _ => .pop .once .loadGate
  | .pop true _ => .waitPop .register
  | .close => .close false .lock
  | .closeAndDiscard => .close true .lock

/-- The operation returns to its caller. -/
def return_ (m : LockFreeMem T E) (result : QueueResult E) : LockFreeMem T E × LockFreeLoc T E :=
  ({ m with store := m.store.record result }, .outside (some result))

/-- Where the outcome of a push attempt goes. -/
def afterPush (m : LockFreeMem T E) (event : E) (context : PushContext) (outcome : PushOutcome) :
    LockFreeMem T E × LockFreeLoc T E :=
  match context with
  | .once => return_ m (.push outcome)
  | .waitFirst =>
      (m, if outcome = .returned .full then .waitPush event .stopFirst
          else .unregisterPush outcome)
  | .waitChecked epoch =>
      (m, if outcome = .returned .full then .waitPush event (.stopChecked epoch)
          else .unregisterPush outcome)
  | .timed =>
      (m, if outcome = .returned .full then .timedPush event .stopCheck
          else .unregisterPush outcome)
  | .timedFinal =>
      (m, .unregisterPush (if outcome = .returned .full then .returned .timeout else outcome))

/-- Where the result of a pop attempt goes. -/
def afterPop (m : LockFreeMem T E) (context : PopContext) (result : PopResult E) :
    LockFreeMem T E × LockFreeLoc T E :=
  match context with
  | .once => return_ m (.pop result)
  | .waitFirst =>
      (m, if result.status = .empty then .waitPop .stopFirst else .unregisterPop result)
  | .waitChecked epoch =>
      (m, if result.status = .empty then .waitPop (.stopChecked epoch)
          else .unregisterPop result)

/-- `notify_one` on an epoch. -/
def notifyEpoch (m : LockFreeMem T E) (k : Epoch) (waiter : Option T) :
    Option (LockFreeMem T E) :=
  (notifyOne (m.sync.epochWaiters k) waiter).map fun left =>
    { m with sync := m.sync.setEpochWaiters k left }

/-- `try_push_impl` and `try_emplace`. -/
def stepPush (m : LockFreeMem T E) (event : E) (context : PushContext) (flag : Bool)
    (waiter : Option T) : PushPhase → Option (LockFreeMem T E × LockFreeLoc T E)
  | .loadGate =>
      guardLoop (m.sync.gate .producer) (afterPush m event context (.returned .closed))
        fun state => (m, .push event context (.enterGate state))
  | .enterGate state =>
      if m.sync.gate .producer = state ∧ flag = false then
        some ({ m with sync := m.sync.setGate .producer (wordInc state) },
          .push event context .takeIndex)
      -- a failed exchange has loaded the current state
      else guardLoop (m.sync.gate .producer) (afterPush m event context (.returned .closed))
        fun state => (m, .push event context (.enterGate state))
  | .takeIndex =>
      match m.store.available with
      | [] => some (m, .push event context (.leave (.returned .full)))
      | index :: rest =>
          some ({ m with store := { m.store with available := rest } },
            .push event context (.construct index))
  | .construct index =>
      if flag then some (m, .push event context (.rollBack index))
      else some ({ m with store := m.store.construct index event },
        .push event context (.countOccupied index))
  | .rollBack index =>
      some ({ m with store := m.store.giveBack index }, .push event context .bumpRolledBack)
  | .bumpRolledBack =>
      some ({ m with sync := m.sync.bump .capacity }, .push event context .notifyRolledBack)
  | .notifyRolledBack =>
      (notifyEpoch m .capacity waiter).map fun m' => (m', .push event context (.leave .threw))
  | .countOccupied index =>
      some ({ m with store := m.store.count }, .push event context (.publish index))
  | .publish index =>
      some ({ m with store := m.store.publish index event }, .push event context .bump)
  | .bump => some ({ m with sync := m.sync.bump .data }, .push event context .notify)
  | .notify =>
      (notifyEpoch m .data waiter).map fun m' =>
        (m', .push event context (.leave (.returned .success)))
  | .leave outcome =>
      some ({ m with sync := m.sync.setGate .producer (wordDec (m.sync.gate .producer)) },
        .push event context (.notifyGate outcome))
  | .notifyGate outcome =>
      some (afterPush { m with sync := m.sync.notifyGate .producer } event context outcome)

/-- `try_pop`. -/
def stepPop (m : LockFreeMem T E) (context : PopContext) (flag : Bool) (waiter : Option T) :
    PopPhase E → Option (LockFreeMem T E × LockFreeLoc T E)
  | .loadGate =>
      guardLoop (m.sync.gate .consumer) (afterPop m context .closed)
        fun state => (m, .pop context (.enterGate state))
  | .enterGate state =>
      if m.sync.gate .consumer = state ∧ flag = false then
        some ({ m with sync := m.sync.setGate .consumer (wordInc state) },
          .pop context .takeIndex)
      else guardLoop (m.sync.gate .consumer) (afterPop m context .closed)
        fun state => (m, .pop context (.enterGate state))
  | .takeIndex =>
      match m.store.published with
      | [] => some (m, .pop context .loadQuiesced)
      | index :: rest =>
          -- a published slot without an event would be undefined behaviour
          (m.store.slots index).map fun event =>
            ({ m with store := m.store.claim rest event }, .pop context (.move index event))
  | .loadQuiesced =>
      some (m, .pop context (.leave (if m.sync.producerQuiesced then .closed else .empty)))
  | .move index _ =>
      (m.store.slots index).map fun event => (m, .pop context (.destroy index event))
  | .destroy index event =>
      some ({ m with store := m.store.destroy index }, .pop context (.uncount index event))
  | .uncount index event =>
      some ({ m with store := m.store.uncount }, .pop context (.giveBack index event))
  | .giveBack index event =>
      some ({ m with store := m.store.giveBack index }, .pop context (.bump event))
  | .bump event => some ({ m with sync := m.sync.bump .capacity }, .pop context (.notify event))
  | .notify event =>
      (notifyEpoch m .capacity waiter).map fun m' =>
        (m', .pop context (.leave (.success event)))
  | .leave result =>
      some ({ m with sync := m.sync.setGate .consumer (wordDec (m.sync.gate .consumer)) },
        .pop context (.notifyGate result))
  | .notifyGate result =>
      some (afterPop { m with sync := m.sync.notifyGate .consumer } context result)

/-- The loop that `wait_push` and `wait_pop` share: `attempt` and `checked` start
its two attempts, `loop` is the loop itself at a phase, `stopped` its exit once a
stop was requested. -/
def stepWait (t : T) (m : LockFreeMem T E) (k : Epoch) (attempt : LockFreeLoc T E)
    (checked : ℕ → LockFreeLoc T E) (loop : WaitPhase → LockFreeLoc T E)
    (stopped : LockFreeLoc T E) (flag : Bool) :
    WaitPhase → Option (LockFreeMem T E × LockFreeLoc T E)
  | .register =>
      -- with a stop already requested the constructor runs the callback itself
      if m.sync.stop t then some (m, loop .bump)
      else some ({ m with sync := m.sync.setCallback t (.registered k) }, attempt)
  | .bump => some ({ m with sync := m.sync.bump k }, loop .notify)
  | .notify => some ({ m with sync := m.sync.setEpochWaiters k ∅ }, attempt)
  | .stopFirst => some (m, if m.sync.stop t then stopped else loop .loadEpoch)
  | .loadEpoch => some (m, checked (m.sync.epoch k))
  | .stopChecked epoch =>
      some (m, if m.sync.stop t then stopped else loop (.wait epoch))
  | .wait epoch =>
      if m.sync.epoch k = epoch then
        some ({ m with sync := m.sync.setEpochWaiters k (insert t (m.sync.epochWaiters k)) },
          loop (.parked epoch))
      else some (m, attempt)
  | .parked epoch =>
      if t ∈ m.sync.epochWaiters k then
        if flag then
          some ({ m with sync := m.sync.setEpochWaiters k ((m.sync.epochWaiters k).erase t) },
            loop (.parked epoch))
        else none
      else some (m, loop (.wait epoch))

/-- The loop of `wait_push_until`. -/
def stepTimed (t : T) (m : LockFreeMem T E) (event : E) (flag : Bool) :
    TimedPhase → Option (LockFreeMem T E × LockFreeLoc T E)
  | .stopCheck =>
      some (m, if m.sync.stop t then .unregisterPush (.returned .stopped)
        else .timedPush event .readClock)
  | .readClock =>
      some (m, if flag then .push event .timedFinal .loadGate else .timedPush event .sleep)
  | .sleep => some (m, .push event .timed .loadGate)

/-- What follows a gate that `close_gate` found drained. -/
def afterGate : Gate → ClosePhase E
  | .producer => .storeQuiesced
  | .consumer => .takeIndex 0

/-- What follows `signal_data(); signal_capacity();`. -/
def afterSignals (discard : Bool) : Option ℕ → ClosePhase E
  | none => if discard then .shutGate .consumer else .unlock none
  | some discarded => .unlock (some discarded)

/-- `close` returns nothing, `close_and_discard` its count. -/
def closeResult : Option ℕ → QueueResult E
  | none => .closed
  | some discarded => .discarded discarded

/-- `close` and `close_and_discard`. -/
def stepClose (t : T) (m : LockFreeMem T E) (discard : Bool) (flag : Bool)
    (waiter : Option T) : ClosePhase E → Option (LockFreeMem T E × LockFreeLoc T E)
  | .lock =>
      if m.sync.closeMutex = none then
        some ({ m with sync := { m.sync with closeMutex := some t } },
          .close discard (.shutGate .producer))
      else none
  | .shutGate g =>
      let state := shut (m.sync.gate g)
      some ({ m with sync := m.sync.setGate g state },
        .close discard (if active state = 0 then afterGate g else .waitGate g state))
  | .waitGate g state =>
      if m.sync.gate g = state then
        some ({ m with sync := m.sync.parkGate g t }, .close discard (.parkedGate g state))
      else some (m, .close discard (.loadGate g))
  | .parkedGate g state =>
      if t ∈ m.sync.gateWaiters g then
        if flag then
          some ({ m with sync := m.sync.unparkGate g t }, .close discard (.parkedGate g state))
        else none
      else some (m, .close discard (.waitGate g state))
  | .loadGate g =>
      let state := m.sync.gate g
      some (m, .close discard (if active state = 0 then afterGate g else .waitGate g state))
  | .storeQuiesced =>
      some ({ m with sync := { m.sync with producerQuiesced := true } },
        .close discard (.bump .data none))
  | .bump k discarded =>
      some ({ m with sync := m.sync.bump k }, .close discard (.notify k discarded))
  | .notify .data discarded =>
      (notifyEpoch m .data waiter).map fun m' => (m', .close discard (.bump .capacity discarded))
  | .notify .capacity discarded =>
      (notifyEpoch m .capacity waiter).map fun m' =>
        (m', .close discard (afterSignals discard discarded))
  | .takeIndex discarded =>
      match m.store.published with
      | [] => some (m, .close discard (.bump .data (some discarded)))
      | index :: rest =>
          (m.store.slots index).map fun event =>
            ({ m with store := m.store.drop rest event },
              .close discard (.destroy index event discarded))
  | .destroy index _ discarded =>
      some ({ m with store := m.store.destroy index }, .close discard (.uncount index discarded))
  | .uncount index discarded =>
      some ({ m with store := m.store.uncount }, .close discard (.giveBack index discarded))
  | .giveBack index discarded =>
      some ({ m with store := m.store.giveBack index },
        .close discard (.takeIndex (discarded + 1)))
  | .unlock discarded =>
      some (return_ { m with sync := { m.sync with closeMutex := none } } (closeResult discarded))

/-- The destructor of a `stop_callback` waits for a callback that is running. -/
def stepUnregister (t : T) (m : LockFreeMem T E) (result : QueueResult E) :
    Option (LockFreeMem T E × LockFreeLoc T E) :=
  if m.sync.callback t = .running then none
  else some (return_ { m with sync := m.sync.setCallback t .absent } result)

/-- User code outside the queue asks `target`'s token to stop.  The first request
runs the callback that is registered. -/
def stepRequestStop (m : LockFreeMem T E) (target : T) (last : Option (QueueResult E)) :
    LockFreeMem T E × LockFreeLoc T E :=
  if m.sync.stop target then (m, .outside last)
  else match m.sync.callback target with
  | .registered k =>
      ({ m with sync := (m.sync.setStop target true).setCallback target .running },
        .stopCallback target k false)
  | _ => ({ m with sync := m.sync.setStop target true }, .outside last)

/-- One step of one thread. -/
def step (t : T) : LockFreeChoice T E → LockFreeMem T E → LockFreeLoc T E →
    Option (LockFreeMem T E × LockFreeLoc T E)
  | .call op, m, .outside _ => some ({ m with sync := m.sync.setStop t op.stop }, start op)
  | .requestStop target, m, .outside last => some (stepRequestStop m target last)
  | .go flag waiter, m, .push event context phase => stepPush m event context flag waiter phase
  | .go flag waiter, m, .pop context phase => stepPop m context flag waiter phase
  | .go flag _, m, .waitPush event phase =>
      stepWait t m .capacity (.push event .waitFirst .loadGate)
        (fun epoch => .push event (.waitChecked epoch) .loadGate) (.waitPush event)
        (.unregisterPush (.returned .stopped)) flag phase
  | .go flag _, m, .waitPop phase =>
      stepWait t m .data (.pop .waitFirst .loadGate)
        (fun epoch => .pop (.waitChecked epoch) .loadGate) .waitPop (.unregisterPop .stopped)
        flag phase
  | .go flag _, m, .timedPush event phase => stepTimed t m event flag phase
  | .go flag waiter, m, .close discard phase => stepClose t m discard flag waiter phase
  | .go _ _, m, .unregisterPush outcome => stepUnregister t m (.push outcome)
  | .go _ _, m, .unregisterPop result => stepUnregister t m (.pop result)
  | .go _ _, m, .stopCallback target k false =>
      some ({ m with sync := m.sync.bump k }, .stopCallback target k true)
  | .go _ _, m, .stopCallback target k true =>
      some ({ m with sync := (m.sync.setEpochWaiters k ∅).setCallback target .absent },
        .outside none)
  | _, _, _ => none

/-- `std::has_single_bit`. -/
def hasSingleBit (n : ℕ) : Bool := n != 0 && (n &&& (n - 1)) == 0

/-- `validate_capacity`. -/
def validateCapacity (capacity : ℕ) : Except String ℕ :=
  if capacity < 2 || !hasSingleBit capacity then
    .error "bounded_lock_free_queue capacity must be a power of two and at least two"
  else if capacity > (2 ^ 63 - 1) / 3 then
    .error "bounded_lock_free_queue capacity is too large"
  else .ok capacity

/-- The constructor accepts the capacity. -/
def Admitted (capacity : ℕ) : Prop := validateCapacity capacity = .ok capacity

/-- A word with a single bit is a power of two. -/
theorem hasSingleBit_iff {n : ℕ} : hasSingleBit n = true ↔ ∃ k, n = 2 ^ k := by
  have hiff := Nat.ne_zero_and_sub_one_eq_zero_iff_isPowerOfTwo (n := n)
  unfold Nat.isPowerOfTwo at hiff
  rw [← hiff, hasSingleBit, Bool.and_eq_true, bne_iff_ne, beq_iff_eq]

/-- The capacities that `validate_capacity` lets pass. -/
theorem admitted_iff {capacity : ℕ} : Admitted capacity ↔
    2 ≤ capacity ∧ (∃ k, capacity = 2 ^ k) ∧ capacity ≤ (2 ^ 63 - 1) / 3 := by
  unfold Admitted validateCapacity
  rw [← hasSingleBit_iff]
  by_cases hsmall : capacity < 2
  · simp [hsmall]
  · by_cases hsingle : hasSingleBit capacity = true
    · by_cases hlarge : capacity > (2 ^ 63 - 1) / 3
      · rw [if_neg (by simp [hsmall, hsingle]), if_pos hlarge]
        constructor
        · intro h
          cases h
        · intro h
          omega
      · rw [if_neg (by simp [hsmall, hsingle]), if_neg hlarge]
        exact ⟨fun _ => ⟨by omega, hsingle, by omega⟩, fun _ => rfl⟩
    · simp [hsmall, hsingle]

/-- The smallest queue is admitted. -/
theorem admitted_two : Admitted 2 :=
  admitted_iff.mpr ⟨le_rfl, ⟨1, rfl⟩, by norm_num⟩

/-- A new queue, with every thread outside. -/
def started (T E : Type) (capacity : ℕ) : Config T (LockFreeMem T E) (LockFreeLoc T E) where
  mem :=
    { store := SlotStore.initial E capacity
      sync :=
        { gate := fun _ => 0
          gateWaiters := fun _ => ∅
          epoch := fun _ => 0
          epochWaiters := fun _ => ∅
          producerQuiesced := false
          closeMutex := none
          stop := fun _ => false
          callback := fun _ => .absent } }
  loc := fun _ => .outside none

/-- Any interleaving of any threads' operations on one queue. -/
def system (T E : Type) [DecidableEq T] (capacity : ℕ) :
    System (Config T (LockFreeMem T E) (LockFreeLoc T E)) (T × LockFreeChoice T E) :=
  interleave step fun s => s = started T E capacity

/-- A schedule that lets `t` take `n` steps in which nothing fails and nobody is
woken. -/
def advance (t : T) (n : ℕ) : List (T × LockFreeChoice T E) :=
  List.replicate n (t, .go false none)

/-- The waiting loop touches neither the storage nor the gates, and stays in its
own call. -/
theorem stepWait_frame {t : T} {m m' : LockFreeMem T E} {k : Epoch} {attempt : LockFreeLoc T E}
    {checked : ℕ → LockFreeLoc T E} {loop : WaitPhase → LockFreeLoc T E}
    {stopped l' : LockFreeLoc T E} {flag : Bool} {phase : WaitPhase}
    (h : stepWait t m k attempt checked loop stopped flag phase = some (m', l')) :
    (m'.store = m.store ∧ m'.sync.gate = m.sync.gate ∧
      m'.sync.producerQuiesced = m.sync.producerQuiesced) ∧
      (l' = attempt ∨ (∃ epoch, l' = checked epoch) ∨ (∃ p, l' = loop p) ∨ l' = stopped) := by
  cases phase with
  | register | wait =>
      simp only [stepWait] at h
      split at h <;> cases h
      · exact ⟨⟨rfl, rfl, rfl⟩, .inr (.inr (.inl ⟨_, rfl⟩))⟩
      · exact ⟨⟨rfl, rfl, rfl⟩, .inl rfl⟩
  | bump => cases h; exact ⟨⟨rfl, rfl, rfl⟩, .inr (.inr (.inl ⟨_, rfl⟩))⟩
  | notify => cases h; exact ⟨⟨rfl, rfl, rfl⟩, .inl rfl⟩
  | stopFirst | stopChecked =>
      cases h
      refine ⟨⟨rfl, rfl, rfl⟩, ?_⟩
      split
      · exact .inr (.inr (.inr rfl))
      · exact .inr (.inr (.inl ⟨_, rfl⟩))
  | loadEpoch => cases h; exact ⟨⟨rfl, rfl, rfl⟩, .inr (.inl ⟨_, rfl⟩)⟩
  | parked epoch =>
      simp only [stepWait] at h
      split at h
      · split at h <;> cases h
        exact ⟨⟨rfl, rfl, rfl⟩, .inr (.inr (.inl ⟨_, rfl⟩))⟩
      · cases h
        exact ⟨⟨rfl, rfl, rfl⟩, .inr (.inr (.inl ⟨_, rfl⟩))⟩

/-- Which call a thread is in. -/
inductive CallKind
  | push
  | pop
  | close (discard : Bool)
  | requestStop
  deriving DecidableEq

/-- The call a thread is in, if any. -/
def callKind : LockFreeLoc T E → Option CallKind
  | .outside _ => none
  | .push _ _ _ | .waitPush _ _ | .timedPush _ _ | .unregisterPush _ => some .push
  | .pop _ _ | .waitPop _ | .unregisterPop _ => some .pop
  | .close discard _ => some (.close discard)
  | .stopCallback _ _ _ => some .requestStop

omit [DecidableEq T] in
/-- The end of a push attempt is within its call, or outside. -/
theorem afterPush_callKind (m : LockFreeMem T E) (event : E) (context : PushContext)
    (outcome : PushOutcome) :
    callKind (afterPush m event context outcome).2 = some .push ∨
      callKind (afterPush m event context outcome).2 = none := by
  cases context with
  | once => exact .inr rfl
  | timedFinal => exact .inl rfl
  | _ =>
      left
      simp only [afterPush]
      split <;> rfl

omit [DecidableEq T] in
/-- The end of a pop attempt is within its call, or outside. -/
theorem afterPop_callKind (m : LockFreeMem T E) (context : PopContext) (result : PopResult E) :
    callKind (afterPop m context result).2 = some .pop ∨
      callKind (afterPop m context result).2 = none := by
  cases context with
  | once => exact .inr rfl
  | _ =>
      left
      simp only [afterPop]
      split <;> rfl

/-- A push attempt stays within its call, or returns. -/
theorem stepPush_callKind {m m' : LockFreeMem T E} {l' : LockFreeLoc T E} {event : E}
    {context : PushContext} {flag : Bool} {waiter : Option T} {phase : PushPhase}
    (h : stepPush m event context flag waiter phase = some (m', l')) :
    callKind l' = some .push ∨ callKind l' = none := by
  have hguard : guardLoop (m.sync.gate .producer) (afterPush m event context (.returned .closed))
      (fun state => (m, .push event context (.enterGate state))) = some (m', l') →
      callKind l' = some .push ∨ callKind l' = none := by
    intro hr
    obtain ⟨_, hr⟩ | ⟨state, hr⟩ := guardLoop_eq_some hr
    · have hkind := afterPush_callKind m event context (.returned .closed)
      rwa [← hr] at hkind
    · cases hr
      exact .inl rfl
  cases phase with
  | loadGate => exact hguard h
  | enterGate state =>
      simp only [stepPush] at h
      split at h
      · cases h
        exact .inl rfl
      · exact hguard h
  | takeIndex | construct =>
      simp only [stepPush] at h
      split at h <;> cases h <;> exact .inl rfl
  | notifyRolledBack | notify =>
      obtain ⟨m₁, _, hr⟩ := Option.map_eq_some_iff.mp h
      cases hr
      exact .inl rfl
  | notifyGate outcome =>
      have hkind := afterPush_callKind { m with sync := m.sync.notifyGate .producer } event context
        outcome
      rwa [Option.some.inj h] at hkind
  | _ => cases h; exact .inl rfl

/-- A pop attempt stays within its call, or returns. -/
theorem stepPop_callKind {m m' : LockFreeMem T E} {l' : LockFreeLoc T E} {context : PopContext}
    {flag : Bool} {waiter : Option T} {phase : PopPhase E}
    (h : stepPop m context flag waiter phase = some (m', l')) :
    callKind l' = some .pop ∨ callKind l' = none := by
  have hguard : guardLoop (m.sync.gate .consumer) (afterPop m context .closed)
      (fun state => (m, .pop context (.enterGate state))) = some (m', l') →
      callKind l' = some .pop ∨ callKind l' = none := by
    intro hr
    obtain ⟨_, hr⟩ | ⟨state, hr⟩ := guardLoop_eq_some hr
    · have hkind := afterPop_callKind m context .closed
      rwa [← hr] at hkind
    · cases hr
      exact .inl rfl
  cases phase with
  | loadGate => exact hguard h
  | enterGate state =>
      simp only [stepPop] at h
      split at h
      · cases h
        exact .inl rfl
      · exact hguard h
  | takeIndex =>
      simp only [stepPop] at h
      split at h
      · cases h
        exact .inl rfl
      · obtain ⟨event, _, hr⟩ := Option.map_eq_some_iff.mp h
        cases hr
        exact .inl rfl
  | move | notify =>
      obtain ⟨_, _, hr⟩ := Option.map_eq_some_iff.mp h
      cases hr
      exact .inl rfl
  | notifyGate result =>
      have hkind := afterPop_callKind { m with sync := m.sync.notifyGate .consumer } context result
      rwa [Option.some.inj h] at hkind
  | _ => cases h; exact .inl rfl

/-- A closing call stays itself, or returns. -/
theorem stepClose_callKind {t : T} {m m' : LockFreeMem T E} {l' : LockFreeLoc T E}
    {discard flag : Bool} {waiter : Option T} {phase : ClosePhase E}
    (h : stepClose t m discard flag waiter phase = some (m', l')) :
    callKind l' = some (.close discard) ∨ callKind l' = none := by
  cases phase with
  | lock | waitGate =>
      simp only [stepClose] at h
      split at h <;> cases h <;> exact .inl rfl
  | parkedGate =>
      simp only [stepClose] at h
      split at h
      · split at h <;> cases h
        exact .inl rfl
      · cases h
        exact .inl rfl
  | takeIndex =>
      simp only [stepClose] at h
      split at h
      · cases h
        exact .inl rfl
      · obtain ⟨event, _, hr⟩ := Option.map_eq_some_iff.mp h
        cases hr
        exact .inl rfl
  | notify k =>
      cases k <;>
        obtain ⟨m₁, _, hr⟩ := Option.map_eq_some_iff.mp h <;>
        cases hr <;>
        exact .inl rfl
  | unlock => cases h; exact .inr rfl
  | _ => cases h; exact .inl rfl

/-- **A call keeps to itself**: between its start and its return a thread stays in
the same call. -/
theorem step_callKind {t : T} {c : LockFreeChoice T E} {m m' : LockFreeMem T E}
    {l l' : LockFreeLoc T E} (h : step t c m l = some (m', l')) :
    callKind l' = callKind l ∨ callKind l' = none ∨ callKind l = none := by
  cases c with
  | call op | requestStop target =>
      cases l with
      | outside last => exact .inr (.inr rfl)
      | _ => cases h
  | go flag waiter =>
      cases l with
      | outside last => cases h
      | push event context phase => exact (stepPush_callKind h).imp_right .inl
      | pop context phase => exact (stepPop_callKind h).imp_right .inl
      | waitPush event phase | waitPop phase =>
          simp only [step] at h
          obtain ⟨_, rfl | ⟨e, rfl⟩ | ⟨p, rfl⟩ | rfl⟩ := stepWait_frame h <;> exact .inl rfl
      | timedPush event phase =>
          cases phase <;> cases h
          · left
            split <;> rfl
          · cases flag <;> exact .inl rfl
          · exact .inl rfl
      | close discard phase => exact (stepClose_callKind h).imp_right .inl
      | unregisterPush | unregisterPop =>
          simp only [step, stepUnregister] at h
          split at h <;> cases h
          exact .inr (.inl rfl)
      | stopCallback target k bumped =>
          cases bumped <;> cases h
          · exact .inl rfl
          · exact .inr (.inl rfl)

/-! ## What a thread owns -/

/-- A push attempt between two steps. -/
def holdPush (event : E) : PushPhase → Hold E
  | .construct index | .rollBack index => ⟨.reserved index, 0, none, 0⟩
  | .countOccupied index => ⟨.built index event, 0, none, 0⟩
  | .publish index => ⟨.counted index event, 0, none, 0⟩
  | .bump | .notify => ⟨.none, 1, none, 0⟩
  | .leave outcome | .notifyGate outcome => .ofResult (.push outcome)
  | _ => .nothing

/-- A pop attempt between two steps. -/
def holdPop : PopPhase E → Hold E
  | .move index event | .destroy index event => ⟨.live index event, 0, some event, 0⟩
  | .uncount index event => ⟨.emptied index, 0, some event, 0⟩
  | .giveBack index event => ⟨.uncounted index, 0, some event, 0⟩
  | .bump event | .notify event => ⟨.none, 0, some event, 0⟩
  | .leave result | .notifyGate result => .ofResult (.pop result)
  | _ => .nothing

/-- `close_and_discard` between two steps.  The event in its hands is already
counted. -/
def holdClose : ClosePhase E → Hold E
  | .takeIndex discarded => ⟨.none, 0, none, discarded⟩
  | .destroy index event discarded => ⟨.live index event, 0, none, discarded + 1⟩
  | .uncount index discarded => ⟨.emptied index, 0, none, discarded + 1⟩
  | .giveBack index discarded => ⟨.uncounted index, 0, none, discarded + 1⟩
  | .bump _ (some discarded) | .notify _ (some discarded) => ⟨.none, 0, none, discarded⟩
  | .unlock discarded => .ofResult (closeResult discarded)
  | _ => .nothing

/-- What a thread owns between two steps. -/
def hold : LockFreeLoc T E → Hold E
  | .push event _ phase => holdPush event phase
  | .pop _ phase => holdPop phase
  | .close _ phase => holdClose phase
  | .unregisterPush outcome => .ofResult (.push outcome)
  | .unregisterPop result => .ofResult (.pop result)
  | _ => .nothing

end LockFreeQueue

end EventDispatcher
