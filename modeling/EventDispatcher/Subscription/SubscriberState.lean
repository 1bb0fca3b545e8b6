import EventDispatcher.Lib.WaitSet
import Mathlib

/-!
# `subscriber_state`

One subscriber: its callback bookkeeping, its mailbox and its executor.  The
functions of the source are cut into steps, one for each critical section, atomic
counter, notification and lock; `state_mutex_` and `mailbox_mutex_` are only held
inside one step, `serial_callback_mutex_` and `executor_join_mutex_` across
several.

The last fields of the state are not in the source.  They record what has happened
so far, for the statements about it.
-/

namespace EventDispatcher

open Transition

/-- `delivery_policy`. -/
inductive DeliveryPolicy
  | concurrent
  | serialized
  | isolated
  deriving DecidableEq, Repr

/-- `delivery_guarantee`. -/
inductive DeliveryGuarantee
  | bestEffort
  | lossless
  deriving DecidableEq, Repr

/-- `subscription_options`; the threshold counts nanoseconds. -/
structure SubscriptionOptions where
  delivery : DeliveryPolicy := .concurrent
  guarantee : DeliveryGuarantee := .bestEffort
  mailboxCapacity : ℕ := 64
  slowCallbackThreshold : ℤ := 0
  deriving DecidableEq, Repr

/-- What the constructor of `subscriber_state` checks. -/
def SubscriptionOptions.validate (copyable : Bool) (options : SubscriptionOptions) :
    Except String Unit :=
  if options.slowCallbackThreshold < 0 then
    .error "slow callback threshold must not be negative"
  else if options.delivery = .isolated then
    if options.mailboxCapacity = 0 then
      .error "isolated subscriber mailbox capacity must be non-zero"
    else if copyable then .ok ()
    else .error "isolated delivery requires a copy-constructible Event"
  else .ok ()

/-- `subscription_metrics`. -/
structure SubscriptionMetrics where
  offered : UInt64 := 0
  delivered : UInt64 := 0
  dropped : UInt64 := 0
  rejected : UInt64 := 0
  callbackErrors : UInt64 := 0
  slowCallbacks : UInt64 := 0
  deriving DecidableEq

/-- The fields of `subscriber_state`.  `inFlight` is an integer, so that an
underflow would show as a negative value. -/
structure SubscriberState (T E : Type) where
  options : SubscriptionOptions
  inFlight : ℤ := 0
  active : Bool := true
  retirementStarted : Bool := false
  noCallbacks : Finset T := ∅
  serialCallback : Option T := none
  mailbox : List E := []
  mailboxAccepting : Bool := true
  executorStopping : Bool := false
  drainMailbox : Bool := true
  mailboxReady : Finset T := ∅
  mailboxSpace : Finset T := ∅
  executorJoin : Option T := none
  /-- the thread, while it is joinable -/
  executor : Option T := none
  metrics : SubscriptionMetrics := {}
  /-- how often `begin_invocation` has succeeded -/
  granted : ℕ := 0
  /-- how often the retirement closure has been started -/
  retirements : ℕ := 0
  /-- how often `delivered_` has been counted up, and so on: what the metrics would show
  if they did not wrap -/
  deliveries : ℕ := 0
  errors : ℕ := 0
  slows : ℕ := 0
  /-- the events passed to the callback -/
  received : List E := []
  /-- the events accepted into the mailbox -/
  mailed : List E := []
  /-- the events that were offered and will not be passed to the callback -/
  missed : List E := []

/-- The `current_invocation_` chain of a thread: a context belongs to a subscriber of
this dispatcher, or (`none`) to one of another owner. -/
abbrev Contexts := List (Option ℕ)

/-- `execute_callback`, from the constructed guards to the last destructor.
`previous` is the context that the `invocation_scope` has saved. -/
inductive CallbackPhase
  | enter
  | running (previous : Contexts)
  | countError (previous : Contexts)
  | leave (previous : Contexts) (threw : Bool)
  | countDelivered (threw : Bool)
  | countSlow (threw : Bool)
  | finish (threw : Bool)
  | notifyIdle (threw : Bool)
  | done (threw : Bool)
  deriving DecidableEq

/-- `try_invoke`. -/
inductive InvokePhase
  | offer
  | lockMailbox
  | spaceParked
  | notifyReady
  | begin
  | reject
  | lockSerial
  | callback (phase : CallbackPhase)
  | done (threw : Bool)
  deriving DecidableEq

/-- `executor_loop`. -/
inductive ExecutorPhase (E : Type)
  | lockMailbox
  | readyParked
  | notifySpace (event : E)
  | begin (event : E)
  | drop
  | callback (event : E) (phase : CallbackPhase)
  /-- the error handler is running -/
  | handler
  | done
  deriving DecidableEq

/-- `stop_delivery`. -/
inductive StopPhase
  | lockMailbox
  | notifyReady
  | notifySpace
  | lockJoin
  | join
  | unlockJoin
  | done
  deriving DecidableEq

namespace SubscriberState

variable {T E : Type}

/-- `begin_invocation`, when it succeeds. -/
@[simps]
def grant (s : SubscriberState T E) : SubscriberState T E :=
  { s with inFlight := s.inFlight + 1, granted := s.granted + 1 }

/-- The critical section of `finish_invocation`. -/
@[simps]
def release (s : SubscriberState T E) : SubscriberState T E :=
  { s with inFlight := s.inFlight - 1 }

/-- Counts a delivery offered. -/
@[simps]
def countOffered (s : SubscriberState T E) : SubscriberState T E :=
  { s with metrics := { s.metrics with offered := s.metrics.offered + 1 } }

/-- Counts a delivery made. -/
@[simps]
def countDelivered (s : SubscriberState T E) : SubscriberState T E :=
  { s with
    metrics := { s.metrics with delivered := s.metrics.delivered + 1 }
    deliveries := s.deliveries + 1 }

/-- Counts `n` deliveries dropped. -/
@[simps]
def countDropped (s : SubscriberState T E) (n : ℕ) : SubscriberState T E :=
  { s with metrics := { s.metrics with dropped := s.metrics.dropped + UInt64.ofNat n } }

/-- Counts a delivery rejected. -/
@[simps]
def countRejected (s : SubscriberState T E) : SubscriberState T E :=
  { s with metrics := { s.metrics with rejected := s.metrics.rejected + 1 } }

/-- Counts a callback that threw. -/
@[simps]
def countError (s : SubscriberState T E) : SubscriberState T E :=
  { s with
    metrics := { s.metrics with callbackErrors := s.metrics.callbackErrors + 1 }
    errors := s.errors + 1 }

/-- Counts a slow callback. -/
@[simps]
def countSlow (s : SubscriberState T E) : SubscriberState T E :=
  { s with
    metrics := { s.metrics with slowCallbacks := s.metrics.slowCallbacks + 1 }
    slows := s.slows + 1 }

/-- The event will not be passed to the callback. -/
@[simps]
def miss (s : SubscriberState T E) (event : E) : SubscriberState T E :=
  { s with missed := s.missed ++ [event] }

/-- `mailbox_.push_back`. -/
@[simps]
def mail (s : SubscriberState T E) (event : E) : SubscriberState T E :=
  { s with mailbox := s.mailbox ++ [event], mailed := s.mailed ++ [event] }

/-- The critical section of `stop_delivery`. -/
def stopMailbox (s : SubscriberState T E) (drain : Bool) : SubscriberState T E :=
  let stopped :=
    { s with
      mailboxAccepting := false
      executorStopping := true
      drainMailbox := s.drainMailbox && drain }
  if drain then stopped
  else { stopped.countDropped s.mailbox.length with
    mailbox := []
    missed := s.missed ++ s.mailbox }

/-- The first critical section of `unsubscribe`. -/
@[simps]
def deactivate (s : SubscriberState T E) : SubscriberState T E :=
  { s with
    active := false
    retirementStarted := true
    retirements := if s.retirementStarted then s.retirements else s.retirements + 1 }

/-- `executor_` gets its thread. -/
@[simps]
def startExecutor (s : SubscriberState T E) (u : T) : SubscriberState T E :=
  { s with executor := some u }

section Threads

variable [DecidableEq T]

/-- The critical section of `enqueue_isolated`. -/
def enqueueIsolated (t : T) (s : SubscriberState T E) (event : E) (copyThrows : Bool) :
    SubscriberState T E × InvokePhase :=
  if s.options.guarantee = .lossless ∧
      ¬(s.mailboxAccepting = false ∨ s.mailbox.length < s.options.mailboxCapacity) then
    ({ s with mailboxSpace := insert t s.mailboxSpace }, .spaceParked)
  else if s.options.guarantee = .bestEffort ∧
      s.mailbox.length = s.options.mailboxCapacity then
    ((s.countDropped 1).miss event, .done false)
  else if s.mailboxAccepting = false then (s.countRejected.miss event, .done false)
  else if copyThrows then (s.countRejected.miss event, .done true)
  else (s.mail event, .notifyReady)

/-- `execute_callback` of subscriber `i` on a thread whose `current_invocation_`
chain is `contexts`; `slow` says whether the callback has reached the threshold. -/
def stepCallback (i : ℕ) (s : SubscriberState T E) (contexts : Contexts) (event : E)
    (slow : Bool) : CallbackPhase → Option (SubscriberState T E × Contexts × CallbackPhase)
  | .enter =>
      some ({ s with received := s.received ++ [event] }, some i :: contexts, .running contexts)
  -- user code
  | .running _ => none
  | .countError previous => some (s.countError, contexts, .leave previous true)
  | .leave previous threw => some (s, previous, .countDelivered threw)
  | .countDelivered threw =>
      some (s.countDelivered, contexts,
        if s.options.slowCallbackThreshold ≠ 0 ∧ slow then .countSlow threw else .finish threw)
  | .countSlow threw => some (s.countSlow, contexts, .finish threw)
  | .finish threw =>
      some (s.release, contexts,
        if s.release.inFlight = 0 then .notifyIdle threw else .done threw)
  | .notifyIdle threw => some ({ s with noCallbacks := ∅ }, contexts, .done threw)
  | .done _ => none

/-- `try_invoke`. -/
def stepInvoke (t : T) (i : ℕ) (s : SubscriberState T E) (contexts : Contexts) (event : E)
    (flag : Bool) (waiter : Option T) :
    InvokePhase → Option (SubscriberState T E × Contexts × InvokePhase)
  | .offer =>
      some (s.countOffered, contexts,
        if s.options.delivery = .isolated then .lockMailbox else .begin)
  | .lockMailbox =>
      let r := enqueueIsolated t s event flag
      some (r.1, contexts, r.2)
  | .spaceParked =>
      if t ∈ s.mailboxSpace then
        if flag then
          some ({ s with mailboxSpace := s.mailboxSpace.erase t }, contexts, .spaceParked)
        else none
      else
        let r := enqueueIsolated t s event flag
        some (r.1, contexts, r.2)
  | .notifyReady =>
      (notifyOne s.mailboxReady waiter).map fun left =>
        ({ s with mailboxReady := left }, contexts, .done false)
  | .begin =>
      if s.active then
        some (s.grant, contexts,
          if s.options.delivery = .serialized then .lockSerial else .callback .enter)
      else some (s, contexts, .reject)
  | .reject => some (s.countRejected.miss event, contexts, .done false)
  | .lockSerial =>
      if s.serialCallback = none then
        some ({ s with serialCallback := some t }, contexts, .callback .enter)
      else none
  | .callback (.done threw) =>
      some (if s.options.delivery = .serialized then { s with serialCallback := none } else s,
        contexts, .done threw)
  | .callback phase =>
      (stepCallback i s contexts event flag phase).map fun r => (r.1, r.2.1, .callback r.2.2)
  | .done _ => none

/-- `executor_loop`. -/
def stepExecutor (t : T) (i : ℕ) (s : SubscriberState T E) (contexts : Contexts)
    (flag : Bool) (waiter : Option T) :
    ExecutorPhase E → Option (SubscriberState T E × Contexts × ExecutorPhase E)
  | .lockMailbox =>
      if s.executorStopping ∧ (s.drainMailbox = false ∨ s.mailbox = []) then
        some (s, contexts, .done)
      else match s.mailbox with
      | [] => some ({ s with mailboxReady := insert t s.mailboxReady }, contexts, .readyParked)
      | event :: rest => some ({ s with mailbox := rest }, contexts, .notifySpace event)
  | .readyParked =>
      if t ∈ s.mailboxReady ∧ flag = false then none
      else some ({ s with mailboxReady := s.mailboxReady.erase t }, contexts, .lockMailbox)
  | .notifySpace event =>
      (notifyOne s.mailboxSpace waiter).map fun left =>
        ({ s with mailboxSpace := left }, contexts, .begin event)
  | .begin event =>
      if s.active then some (s.grant, contexts, .callback event .enter)
      else some (s.miss event, contexts, .drop)
  | .drop => some (s.countDropped 1, contexts, .lockMailbox)
  | .callback _ (.done threw) =>
      some (s, contexts, if threw then .handler else .lockMailbox)
  | .callback event phase =>
      (stepCallback i s contexts event flag phase).map fun r =>
        (r.1, r.2.1, .callback event r.2.2)
  -- user code
  | .handler => none
  | .done => none

/-- `stop_delivery(drain)`.  A thread that is joined has to have `finished`. -/
def stepStop (t : T) (s : SubscriberState T E) (finished : Finset T) (drain : Bool) :
    StopPhase → Option (SubscriberState T E × StopPhase)
  | .lockMailbox =>
      if s.options.delivery = .isolated then some (s.stopMailbox drain, .notifyReady)
      else some (s, .done)
  | .notifyReady => some ({ s with mailboxReady := ∅ }, .notifySpace)
  | .notifySpace => some ({ s with mailboxSpace := ∅ }, .lockJoin)
  | .lockJoin =>
      if s.executorJoin = none then some ({ s with executorJoin := some t }, .join) else none
  | .join =>
      match s.executor with
      | none => some (s, .unlockJoin)
      | some u =>
          if u = t then some (s, .unlockJoin)
          else if u ∈ finished then some ({ s with executor := none }, .unlockJoin)
          else none
  | .unlockJoin => some ({ s with executorJoin := none }, .done)
  | .done => none

end Threads

end SubscriberState

end EventDispatcher
