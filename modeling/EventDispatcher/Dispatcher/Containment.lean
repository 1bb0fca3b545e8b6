import EventDispatcher.Dispatcher.QueuePolicies

/-!
# Exceptions do not interfere with `broadcast_batch`

A worker's thread runs `broadcast_batch` on its own: callbacks and the error handler
only return or throw, as an assignment of outcomes says.  The run is the thread's own
run in the dispatcher, with a record of the callback invocations and of the
exceptions that reached the handler.

`directInvocation` is what one whole `try_invoke` leaves of a subscriber.  The
exception only shows in `callback_errors_`; the guards undo the rest in both cases.
-/

namespace EventDispatcher

namespace Dispatcher

open SubscriberState Transition

/-- What the `n`-th callback invocation and the `n`-th call of the error handler do. -/
structure Outcomes where
  callback : ℕ → Bool
  handler : ℕ → Bool
  /-- whether the callback reaches the threshold for slow ones -/
  slow : ℕ → Bool

/-- A callback invocation and whether it threw. -/
structure Invocation (E : Type) where
  event : Publication E
  sub : ℕ
  threw : Bool
  deriving DecidableEq

/-- The shared memory, the worker's thread, and what it has done so far. -/
structure Broadcast {T E : Type} (Q : QueuePolicy T (Publication E)) where
  mem : DispatcherMem Q
  loc : ThreadLoc Q
  invoked : List (Invocation E)
  /-- the invocations whose exception the handler was called with -/
  handled : List (Invocation E)

section Machine

variable {T E : Type} [DecidableEq T] {Q : QueuePolicy T (Publication E)}

/-- The next step of the worker inside `broadcast_batch`; `onError` says whether the error
handler is non-empty. -/
def broadcastStep (setup : Setup T) (t : T) (onError : Bool) (o : Outcomes) (b : Broadcast Q) :
    Option (Broadcast Q) :=
  match b.loc.stack with
  | .worker (.callPop _) :: _ => none
  | .worker (.popping _) :: _ => none
  | .worker (.invoke _ _ event _ i (.callback (.running _))) :: _ =>
      let threw := o.callback b.invoked.length
      (step setup t (.finish threw) b.mem b.loc).map fun r =>
        { b with mem := r.1, loc := r.2, invoked := b.invoked ++ [⟨event, i, threw⟩] }
  | .worker (.handler _ _ _ _) :: _ =>
      (step setup t (.finish (o.handler b.handled.length)) b.mem b.loc).map fun r =>
        { b with
          mem := r.1
          loc := r.2
          handled := b.handled ++ if onError then b.invoked.getLast?.toList else [] }
  | .worker _ :: _ =>
      (step setup t (.go (o.slow b.invoked.length) none) b.mem b.loc).map fun r =>
        { b with mem := r.1, loc := r.2 }
  | _ => none

/-- `broadcast_batch` on the thread of one worker. -/
def broadcasting (setup : Setup T) (t : T) (onError : Bool) (o : Outcomes) :
    System (Broadcast Q) Unit where
  init b := ∃ batch, b.loc.stack = [.worker (.acquire batch)] ∧ b.invoked = [] ∧ b.handled = []
  step b _ := broadcastStep setup t onError o b

/-- The worker is in `phase`, and nothing of the dispatcher is below it on the stack. -/
def Broadcast.inPhase (m : DispatcherMem Q) (q : Q.Loc) (contexts : Contexts) (phase : WorkerPhase E)
    (invoked handled : List (Invocation E)) : Broadcast Q :=
  ⟨m, ⟨q, contexts, [.worker phase]⟩, invoked, handled⟩

end Machine

section Invocation

variable {T E : Type}

/-- `execute_callback` has counted what it counts. -/
def countCallback (s : SubscriberState T E) (threw slow : Bool) : SubscriberState T E :=
  let s := if threw then s.countError else s
  let s := s.countDelivered
  if s.options.slowCallbackThreshold ≠ 0 ∧ slow then s.countSlow else s

/-- The end of `finish_invocation`. -/
def finishInvocation (s : SubscriberState T E) : SubscriberState T E :=
  if s.release.inFlight = 0 then { s.release with noCallbacks := ∅ } else s.release

/-- `try_invoke` of an active subscriber that is not isolated. -/
def directInvocation (s : SubscriberState T E) (event : E) (threw slow : Bool) :
    SubscriberState T E :=
  let s := s.countOffered.grant
  finishInvocation (countCallback { s with received := s.received ++ [event] } threw slow)

/-- What a subscriber shows of `n` invocations, `errors` of which threw. -/
structure Shows (s s' : SubscriberState T E) (n errors : ℕ) : Prop where
  inFlight : s'.inFlight = s.inFlight
  delivered : s'.metrics.delivered = s.metrics.delivered + UInt64.ofNat n
  callbackErrors : s'.metrics.callbackErrors = s.metrics.callbackErrors + UInt64.ofNat errors
  active : s'.active = s.active
  options : s'.options = s.options
  serialCallback : s'.serialCallback = s.serialCallback

/-- Nothing has been shown. -/
theorem Shows.refl (s : SubscriberState T E) : Shows s s 0 0 := by
  refine ⟨rfl, ?_, ?_, rfl, rfl, rfl⟩
  · simp
  · simp

/-- What two broadcasts show adds up. -/
theorem Shows.trans {s m s' : SubscriberState T E} {n errors n' errors' : ℕ}
    (h : Shows s m n errors) (h' : Shows m s' n' errors') :
    Shows s s' (n + n') (errors + errors') := by
  refine ⟨h'.inFlight.trans h.inFlight, ?_, ?_, h'.active.trans h.active,
    h'.options.trans h.options, h'.serialCallback.trans h.serialCallback⟩
  · rw [h'.delivered, h.delivered, UInt64.ofNat_add, UInt64.add_assoc]
  · rw [h'.callbackErrors, h.callbackErrors, UInt64.ofNat_add, UInt64.add_assoc]

/-- **One invocation**: the guards restore `in_flight_` however it ends. -/
theorem directInvocation_shows (s : SubscriberState T E) (event : E) (threw slow : Bool) :
    Shows s (directInvocation s event threw slow) 1 (if threw then 1 else 0) := by
  unfold directInvocation finishInvocation countCallback
  cases threw <;> simp only [Bool.false_eq_true, if_false, if_true] <;> split <;> split <;>
    constructor <;> simp

/-- A direct invocation hands its event over. -/
theorem directInvocation_received (s : SubscriberState T E) (event : E) (threw slow : Bool) :
    (directInvocation s event threw slow).received = s.received ++ [event] := by
  unfold directInvocation finishInvocation countCallback
  cases threw <;> simp only [Bool.false_eq_true, if_false, if_true] <;> split <;> split <;> rfl

end Invocation

section Run

variable {T E : Type} [DecidableEq T] {Q : QueuePolicy T (Publication E)}

omit [DecidableEq T] in
/-- Writing back what was read changes nothing. -/
theorem invokeSub_self (m : DispatcherMem Q) (i : ℕ) : m.invokeSub i (m.subs i) = m := by
  unfold DispatcherMem.invokeSub
  simp

omit [DecidableEq T] in
/-- Only the last state counts, as long as events are only added. -/
theorem invokeSub_invokeSub (m : DispatcherMem Q) (i : ℕ)
    {s s' : SubscriberState T (Publication E)} (h : (m.subs i).received <+: s.received)
    (h' : s.received <+: s'.received) : (m.invokeSub i s).invokeSub i s' = m.invokeSub i s' := by
  obtain ⟨new, hnew⟩ := h
  obtain ⟨new', hnew'⟩ := h'
  unfold DispatcherMem.invokeSub
  simp only [Function.update_self, Function.update_idem, ← hnew', ← hnew, List.append_assoc,
    List.drop_left, List.map_append]
  congr 2
  rw [← List.append_assoc, ← List.append_assoc, List.drop_left, List.append_assoc]

variable {setup : Setup T} {t : T} {onError : Bool} {o : Outcomes}
  {m : DispatcherMem Q} {q : Q.Loc} {contexts contexts' : Contexts} {snapshot subs : List ℕ}
  {event : Publication E} {events : List (Publication E)} {i : ℕ} {phase phase' : InvokePhase}
  {invoked handled : List (Invocation E)} {s s' : SubscriberState T (Publication E)}

/-- The worker gets from one state to another. -/
abbrev Goes (setup : Setup T) (t : T) (onError : Bool) (o : Outcomes) (b b' : Broadcast Q) : Prop :=
  (broadcasting setup t onError o).Steps (fun _ _ => True) b b'

/-- One step of a broadcast. -/
theorem goes_one {b b' : Broadcast Q} (h : broadcastStep setup t onError o b = some b') :
    Goes setup t onError o b b' :=
  .tail .refl (a := ()) trivial h

/-- A step of `try_invoke`. -/
theorem goes_invoke
    (h : stepInvoke t i s contexts event (o.slow invoked.length) none phase =
      some (s', contexts', phase'))
    (hold : (m.subs i).received <+: s.received) (hnew : s.received <+: s'.received) :
    Goes setup t onError o
      (.inPhase (m.invokeSub i s) q contexts (.invoke snapshot subs event events i phase) invoked
        handled)
      (.inPhase (m.invokeSub i s') q contexts' (.invoke snapshot subs event events i phase') invoked
        handled) := by
  apply goes_one
  have hsub : (m.invokeSub i s).subs i = s := Function.update_self _ _ _
  have hstep : stepWorker setup.batchSize t (m.invokeSub i s) q contexts (o.slow invoked.length) none
      (.invoke snapshot subs event events i phase) =
      some (m.invokeSub i s', q, contexts', some (.invoke snapshot subs event events i phase')) := by
    cases phase with
    | done threw => cases h
    | offer | lockMailbox | spaceParked | notifyReady | begin | reject | lockSerial | callback _ =>
        simp only [stepWorker, hsub, h, Option.map_some, invokeSub_invokeSub m i hold hnew]
  have hgo : ∀ b : Broadcast Q, b = .inPhase (m.invokeSub i s) q contexts
        (.invoke snapshot subs event events i phase) invoked handled →
      broadcastStep setup t onError o b =
        (step setup t (.go (o.slow b.invoked.length) none) b.mem b.loc).map fun r =>
          { b with mem := r.1, loc := r.2 } := by
    intro b hb
    subst hb
    cases phase with
    | callback phase =>
        cases phase with
        | running previous => cases h
        | enter | countError | leave | countDelivered | countSlow | finish | notifyIdle | done => rfl
    | offer | lockMailbox | spaceParked | notifyReady | begin | reject | lockSerial | done _ => rfl
  rw [hgo _ rfl]
  simp only [Broadcast.inPhase, step, stepFrame, hstep, Option.map_some]
  rfl

/-- One step of `try_invoke` outside user code. -/
def InvokeStep (t : T) (i : ℕ) (event : Publication E) (flag : Bool)
    (x y : SubscriberState T (Publication E) × Contexts × InvokePhase) : Prop :=
  stepInvoke t i x.1 x.2.1 event flag none x.2.2 = some y ∧ x.1.received <+: y.1.received

/-- Several steps of `try_invoke`. -/
theorem goes_invokes {x y : SubscriberState T (Publication E) × Contexts × InvokePhase}
    (h : Relation.ReflTransGen (InvokeStep t i event (o.slow invoked.length)) x y)
    (hold : (m.subs i).received <+: x.1.received) :
    Goes setup t onError o
        (.inPhase (m.invokeSub i x.1) q x.2.1 (.invoke snapshot subs event events i x.2.2) invoked
          handled)
        (.inPhase (m.invokeSub i y.1) q y.2.1 (.invoke snapshot subs event events i y.2.2) invoked
          handled) ∧
      (m.subs i).received <+: y.1.received := by
  induction h with
  | refl => exact ⟨.refl, hold⟩
  | tail _ hstep ih =>
      obtain ⟨hgoes, hmid⟩ := ih
      exact ⟨hgoes.trans (goes_invoke hstep.1 hmid hstep.2), hmid.trans hstep.2⟩

end Run

section Stages

variable {T E : Type} [DecidableEq T] {t : T} {i : ℕ} {event : Publication E} {flag threw : Bool}
  {s : SubscriberState T (Publication E)} {contexts : Contexts}

/-- The subscriber delivers directly, and nobody holds its serial mutex. -/
structure Direct (s : SubscriberState T (Publication E)) : Prop where
  active : s.active = true
  direct : s.options.delivery ≠ .isolated
  unlocked : s.serialCallback = none

/-- `try_invoke` up to the guards of the callback: counted, granted and, if serialized,
locked. -/
def begun (t : T) (s : SubscriberState T (Publication E)) : SubscriberState T (Publication E) :=
  if s.options.delivery = .serialized then
    { s.countOffered.grant with serialCallback := some t }
  else s.countOffered.grant

/-- The serial mutex is released. -/
def unlocked (s : SubscriberState T (Publication E)) : SubscriberState T (Publication E) :=
  if s.options.delivery = .serialized then { s with serialCallback := none } else s

/-- A direct invocation comes to the begin of its callback. -/
theorem begin_steps (h : Direct s) : Relation.ReflTransGen (InvokeStep t i event flag)
    (s, contexts, .offer) (begun t s, contexts, .callback .enter) := by
  have hoffer : InvokeStep t i event flag (s, contexts, .offer) (s.countOffered, contexts, .begin) := by
    refine ⟨?_, List.prefix_refl _⟩
    simp only [stepInvoke, if_neg h.direct]
  by_cases hserial : s.options.delivery = .serialized
  · have hbegin : InvokeStep t i event flag (s.countOffered, contexts, .begin)
        (s.countOffered.grant, contexts, .lockSerial) := by
      refine ⟨?_, List.prefix_refl _⟩
      simp [stepInvoke, h.active, hserial]
    have hlock : InvokeStep t i event flag (s.countOffered.grant, contexts, .lockSerial)
        ({ s.countOffered.grant with serialCallback := some t }, contexts, .callback .enter) := by
      refine ⟨?_, List.prefix_refl _⟩
      simp [stepInvoke, h.unlocked]
    rw [begun, if_pos hserial]
    exact ((Relation.ReflTransGen.single hoffer).tail hbegin).tail hlock
  · have hbegin : InvokeStep t i event flag (s.countOffered, contexts, .begin)
        (s.countOffered.grant, contexts, .callback .enter) := by
      refine ⟨?_, List.prefix_refl _⟩
      simp [stepInvoke, h.active, hserial]
    rw [begun, if_neg hserial]
    exact (Relation.ReflTransGen.single hoffer).tail hbegin

/-- The callback is entered. -/
theorem enter_step : InvokeStep t i event flag (s, contexts, .callback .enter)
    ({ s with received := s.received ++ [event] }, some i :: contexts,
      .callback (.running contexts)) :=
  ⟨rfl, List.prefix_append _ _⟩

/-- What follows the user code, with the exception on its way or not. -/
theorem finish_steps {previous : Contexts} :
    Relation.ReflTransGen (InvokeStep t i event flag)
      (s, contexts, .callback (Frame.afterCallback previous threw))
      (unlocked (finishInvocation (countCallback s threw flag)), previous, .done threw) := by
  have hleave : Relation.ReflTransGen (InvokeStep t i event flag)
      (s, contexts, .callback (Frame.afterCallback previous threw))
      (if threw then s.countError else s, previous, .callback (.countDelivered threw)) := by
    cases threw with
    | false => exact .single ⟨rfl, List.prefix_refl _⟩
    | true =>
        have herror : InvokeStep t i event flag (s, contexts, .callback (.countError previous))
            (s.countError, contexts, .callback (.leave previous true)) := ⟨rfl, List.prefix_refl _⟩
        exact (Relation.ReflTransGen.single herror).tail ⟨rfl, List.prefix_refl _⟩
  have hcount : Relation.ReflTransGen (InvokeStep t i event flag)
      (if threw then s.countError else s, previous, .callback (.countDelivered threw))
      (countCallback s threw flag, previous, .callback (.finish threw)) := by
    unfold countCallback
    generalize (if threw = true then s.countError else s) = counted
    by_cases hslow : counted.options.slowCallbackThreshold ≠ 0 ∧ flag = true
    · have hdelivered : InvokeStep t i event flag
          (counted, previous, .callback (.countDelivered threw))
          (counted.countDelivered, previous, .callback (.countSlow threw)) := by
        refine ⟨?_, List.prefix_refl _⟩
        simp only [stepInvoke, stepCallback, if_pos hslow, Option.map_some]
      have hslow' : counted.countDelivered.options.slowCallbackThreshold ≠ 0 ∧ flag = true := hslow
      simp only [if_pos hslow']
      exact (Relation.ReflTransGen.single hdelivered).tail ⟨rfl, List.prefix_refl _⟩
    · have hslow' : ¬ (counted.countDelivered.options.slowCallbackThreshold ≠ 0 ∧ flag = true) :=
        hslow
      simp only [if_neg hslow']
      refine .single ⟨?_, List.prefix_refl _⟩
      simp only [stepInvoke, stepCallback, if_neg hslow, Option.map_some]
  have hfinish : Relation.ReflTransGen (InvokeStep t i event flag)
      (countCallback s threw flag, previous, .callback (.finish threw))
      (finishInvocation (countCallback s threw flag), previous, .callback (.done threw)) := by
    generalize countCallback s threw flag = counted
    unfold finishInvocation
    by_cases hidle : counted.release.inFlight = 0
    · have hrelease : InvokeStep t i event flag (counted, previous, .callback (.finish threw))
          (counted.release, previous, .callback (.notifyIdle threw)) := by
        refine ⟨?_, List.prefix_refl _⟩
        simp only [stepInvoke, stepCallback, if_pos hidle, Option.map_some]
      rw [if_pos hidle]
      exact (Relation.ReflTransGen.single hrelease).tail ⟨rfl, List.prefix_refl _⟩
    · rw [if_neg hidle]
      refine .single ⟨?_, List.prefix_refl _⟩
      simp only [stepInvoke, stepCallback, if_neg hidle, Option.map_some]
  refine ((hleave.trans hcount).trans hfinish).tail ⟨rfl, ?_⟩
  unfold unlocked
  split
  · exact List.prefix_refl _
  · exact List.prefix_refl _

omit [DecidableEq T] in
/-- The counters do not depend on who holds `callback_mutex_`. -/
theorem countCallback_serial (slow : Bool) (holder : Option T) :
    countCallback { s with serialCallback := holder } threw slow =
      { countCallback s threw slow with serialCallback := holder } := by
  unfold countCallback
  cases threw <;> simp only [Bool.false_eq_true, if_false, if_true] <;>
    by_cases hslow : s.options.slowCallbackThreshold ≠ 0 ∧ slow = true <;> simp [hslow] <;> rfl

omit [DecidableEq T] in
/-- Nor does the end of an invocation. -/
theorem finishInvocation_serial (holder : Option T) :
    finishInvocation { s with serialCallback := holder } =
      { finishInvocation s with serialCallback := holder } := by
  unfold finishInvocation
  simp only [release_inFlight]
  split <;> rfl

omit [DecidableEq T] in
/-- Locking and unlocking the serial mutex leaves no trace. -/
theorem unlocked_begun (h : Direct s) (slow : Bool) :
    unlocked (finishInvocation (countCallback
      { begun t s with received := (begun t s).received ++ [event] } threw slow)) =
      directInvocation s event threw slow := by
  have hshows := directInvocation_shows s event threw slow
  have hserial := hshows.serialCallback.trans h.unlocked
  by_cases hdelivery : s.options.delivery = .serialized
  · have hlocked : finishInvocation (countCallback
        { begun t s with received := (begun t s).received ++ [event] } threw slow) =
        { directInvocation s event threw slow with serialCallback := some t } := by
      rw [begun, if_pos hdelivery]
      simp only [directInvocation]
      rw [← finishInvocation_serial, ← countCallback_serial]
    rw [hlocked, unlocked, if_pos (by rw [← hdelivery]; exact congrArg _ hshows.options)]
    simp only [← hserial]
  · have hplain : finishInvocation (countCallback
        { begun t s with received := (begun t s).received ++ [event] } threw slow) =
        directInvocation s event threw slow := by
      rw [begun, if_neg hdelivery]
      rfl
    rw [hplain, unlocked, if_neg (by rw [hshows.options]; exact hdelivery)]

end Stages

section Batch

variable {T E : Type} [DecidableEq T] {Q : QueuePolicy T (Publication E)} {setup : Setup T} {t : T}
  {onError : Bool} {o : Outcomes} {m : DispatcherMem Q} {q : Q.Loc} {contexts : Contexts}
  {snapshot subs : List ℕ} {event : Publication E} {events : List (Publication E)} {i : ℕ}
  {invoked handled : List (Invocation E)}

/-- After `try_invoke` the loop goes on, through the handler if the callback threw. -/
theorem goes_report {i : ℕ} {threw : Bool} :
    Goes setup t onError o
      (.inPhase m q contexts (.invoke snapshot subs event events i (.done threw))
        (invoked ++ [⟨event, i, threw⟩]) handled)
      (.inPhase m q contexts (.next snapshot subs event events) (invoked ++ [⟨event, i, threw⟩])
        (handled ++ if threw && onError then [⟨event, i, threw⟩] else [])) := by
  cases threw with
  | false =>
      rw [Bool.false_and, if_neg Bool.false_ne_true, List.append_nil]
      exact goes_one rfl
  | true =>
      have hreport : Goes setup t onError o
          (.inPhase m q contexts (.invoke snapshot subs event events i (.done true))
            (invoked ++ [⟨event, i, true⟩]) handled)
          (.inPhase m q contexts (.handler snapshot subs event events)
            (invoked ++ [⟨event, i, true⟩]) handled) := goes_one rfl
      refine hreport.trans (goes_one ?_)
      simp only [broadcastStep, Broadcast.inPhase, step, Frame.finishUser, Option.map_some,
        List.getLast?_append, List.getLast?_singleton, Option.some_or, Option.toList_some,
        Bool.true_and]

/-- `try_invoke` up to the user code. -/
theorem goes_enter (h : Direct (m.subs i)) :
    Goes setup t onError o
      (.inPhase m q contexts (.next snapshot (i :: subs) event events) invoked handled)
      (.inPhase
        (m.invokeSub i
          { begun t (m.subs i) with received := (begun t (m.subs i)).received ++ [event] })
        q (some i :: contexts)
        (.invoke snapshot subs event events i (.callback (.running contexts))) invoked handled) := by
  have hstart : Goes setup t onError o
      (.inPhase m q contexts (.next snapshot (i :: subs) event events) invoked handled)
      (.inPhase (m.invokeSub i (m.subs i)) q contexts (.invoke snapshot subs event events i .offer)
        invoked handled) := by
    rw [invokeSub_self]
    exact goes_one rfl
  exact hstart.trans (goes_invokes ((begin_steps h).tail enter_step) (List.prefix_refl _)).1

omit [DecidableEq T] in
/-- The begin of an invocation hands nothing over yet. -/
theorem begun_received (t : T) (s : SubscriberState T (Publication E)) :
    (begun t s).received = s.received := by
  unfold begun
  split <;> rfl

/-- **One turn of the inner loop.** -/
theorem goes_invocation (h : Direct (m.subs i)) :
    Goes setup t onError o
      (.inPhase m q contexts (.next snapshot (i :: subs) event events) invoked handled)
      (.inPhase
        (m.invokeSub i (directInvocation (m.subs i) event (o.callback invoked.length)
          (o.slow (invoked.length + 1))))
        q contexts (.next snapshot subs event events)
        (invoked ++ [⟨event, i, o.callback invoked.length⟩])
        (handled ++ if o.callback invoked.length && onError then
          [⟨event, i, o.callback invoked.length⟩] else [])) := by
  generalize hthrew : o.callback invoked.length = threw
  -- the callback returns or throws
  have huser : Goes setup t onError o
      (.inPhase
        (m.invokeSub i
          { begun t (m.subs i) with received := (begun t (m.subs i)).received ++ [event] })
        q (some i :: contexts)
        (.invoke snapshot subs event events i (.callback (.running contexts))) invoked handled)
      (.inPhase
        (m.invokeSub i
          { begun t (m.subs i) with received := (begun t (m.subs i)).received ++ [event] })
        q (some i :: contexts)
        (.invoke snapshot subs event events i (.callback (Frame.afterCallback contexts threw)))
        (invoked ++ [⟨event, i, threw⟩]) handled) := by
    apply goes_one
    rw [← hthrew]
    rfl
  have hlength : (invoked ++ [(⟨event, i, threw⟩ : Invocation E)]).length = invoked.length + 1 := by
    simp
  have hfinish : Goes setup t onError o
      (.inPhase
        (m.invokeSub i
          { begun t (m.subs i) with received := (begun t (m.subs i)).received ++ [event] })
        q (some i :: contexts)
        (.invoke snapshot subs event events i (.callback (Frame.afterCallback contexts threw)))
        (invoked ++ [⟨event, i, threw⟩]) handled)
      (.inPhase
        (m.invokeSub i (directInvocation (m.subs i) event threw (o.slow (invoked.length + 1))))
        q contexts (.invoke snapshot subs event events i (.done threw))
        (invoked ++ [⟨event, i, threw⟩]) handled) := by
    rw [← unlocked_begun (t := t) h, ← hlength]
    refine (goes_invokes finish_steps ?_).1
    rw [begun_received]
    exact List.prefix_append _ _
  exact (((goes_enter h).trans huser).trans hfinish).trans goes_report

/-- What the worker has done for `pairs`, seen from the memory at the start. -/
structure After (m : DispatcherMem Q) (onError : Bool) (o : Outcomes)
    (pairs : List (Publication E × ℕ)) (m' : DispatcherMem Q)
    (invoked handled : List (Invocation E)) : Prop where
  sequence : invoked.map (fun x => (x.event, x.sub)) = pairs
  outcome : ∀ k x, invoked[k]? = some x → x.threw = o.callback k
  reported : handled = if onError then invoked.filter Invocation.threw else []
  history : m'.history.invocations = m.history.invocations ++ pairs.map Prod.swap
  subs : ∀ j, Shows (m.subs j) (m'.subs j) (pairs.countP fun p => p.2 = j)
    (invoked.countP fun x => x.sub = j ∧ x.threw)

omit [DecidableEq T] in
/-- An empty broadcast has happened. -/
theorem after_nil (t : T) (batch : List (Publication E)) :
    After m onError o [] (m.recordBatch t batch) [] [] := by
  refine ⟨rfl, ?_, ?_, ?_, fun j => Shows.refl _⟩
  · intro k x hx
    cases hx
  · cases onError <;> rfl
  · exact (List.append_nil _).symm

omit [DecidableEq T] in
/-- One more invocation. -/
theorem After.invocation {m' : DispatcherMem Q} {pairs : List (Publication E × ℕ)}
    (h : After m onError o pairs m' invoked handled) (event : Publication E) (i : ℕ) (slow : Bool) :
    After m onError o (pairs ++ [(event, i)])
      (m'.invokeSub i (directInvocation (m'.subs i) event (o.callback invoked.length) slow))
      (invoked ++ [⟨event, i, o.callback invoked.length⟩])
      (handled ++ if o.callback invoked.length && onError then
        [⟨event, i, o.callback invoked.length⟩] else []) := by
  refine ⟨?_, ?_, ?_, ?_, ?_⟩
  · rw [List.map_append, h.sequence]
    rfl
  · intro k x hx
    rcases Nat.lt_or_ge k invoked.length with hk | hk
    · rw [List.getElem?_append_left hk] at hx
      exact h.outcome k x hx
    · rw [List.getElem?_append_right hk, List.getElem?_singleton] at hx
      split at hx
      · obtain rfl : k = invoked.length := by omega
        cases hx
        rfl
      · cases hx
  · rw [h.reported]
    cases onError <;> cases o.callback invoked.length <;> simp
  · rw [DispatcherMem.invokeSub_history_invocations, directInvocation_received, List.drop_left,
      h.history, List.map_append, List.append_assoc]
    rfl
  · intro j
    rw [List.countP_append, List.countP_append]
    apply (h.subs j).trans
    by_cases hj : j = i
    · subst hj
      rw [DispatcherMem.invokeSub_subs, Function.update_self]
      have hshows := directInvocation_shows (m'.subs j) event (o.callback invoked.length) slow
      cases hthrew : o.callback invoked.length <;> rw [hthrew] at hshows <;> simpa using hshows
    · rw [DispatcherMem.invokeSub_subs, Function.update_of_ne hj]
      have hij : ¬ i = j := fun heq => hj heq.symm
      simpa [hij] using Shows.refl (m'.subs j)

omit [DecidableEq T] in
/-- A subscriber that delivered directly still does. -/
theorem Shows.direct {s s' : SubscriberState T (Publication E)} {n errors : ℕ}
    (h : Shows s s' n errors) (hdirect : Direct s) : Direct s' := by
  refine ⟨?_, ?_, ?_⟩
  · rw [h.active, hdirect.active]
  · rw [h.options]
    exact hdirect.direct
  · rw [h.serialCallback, hdirect.unlocked]

/-- **The inner loop** offers the event to every subscriber that is left. -/
theorem goes_subs {m' : DispatcherMem Q} {pairs : List (Publication E × ℕ)}
    (h : After m onError o pairs m' invoked handled) (hdirect : ∀ i ∈ subs, Direct (m.subs i)) :
    ∃ m'' invoked' handled',
      Goes setup t onError o
        (.inPhase m' q contexts (.next snapshot subs event events) invoked handled)
        (.inPhase m'' q contexts (.next snapshot [] event events) invoked' handled') ∧
      After m onError o (pairs ++ subs.map fun i => (event, i)) m'' invoked' handled' := by
  induction subs generalizing m' invoked handled pairs with
  | nil =>
      refine ⟨m', invoked, handled, .refl, ?_⟩
      rw [List.map_nil, List.append_nil]
      exact h
  | cons i subs ih =>
      have hi : Direct (m'.subs i) := (h.subs i).direct (hdirect i List.mem_cons_self)
      obtain ⟨m'', invoked', handled', hgoes, hafter⟩ := ih
        (h.invocation event i (o.slow (invoked.length + 1)))
        (fun j hj => hdirect j (List.mem_cons_of_mem _ hj))
      refine ⟨m'', invoked', handled', (goes_invocation hi).trans hgoes, ?_⟩
      rw [List.append_assoc] at hafter
      exact hafter

/-- **The outer loop** goes through the rest of the batch. -/
theorem goes_events {m' : DispatcherMem Q} {pairs : List (Publication E × ℕ)}
    (h : After m onError o pairs m' invoked handled) (hdirect : ∀ i ∈ snapshot, Direct (m.subs i)) :
    ∃ m'' invoked' handled',
      Goes setup t onError o
        (.inPhase m' q contexts (.next snapshot [] event events) invoked handled)
        (.inPhase m'' q contexts (.callPop []) invoked' handled') ∧
      After m onError o (pairs ++ events.flatMap fun e => snapshot.map fun i => (e, i)) m'' invoked'
        handled' := by
  induction events generalizing m' invoked handled pairs event with
  | nil =>
      refine ⟨m', invoked, handled, goes_one rfl, ?_⟩
      rw [List.flatMap_nil, List.append_nil]
      exact h
  | cons e events ih =>
      have hnext : Goes setup t onError o
          (.inPhase m' q contexts (.next snapshot [] event (e :: events)) invoked handled)
          (.inPhase m' q contexts (.next snapshot snapshot e events) invoked handled) := goes_one rfl
      obtain ⟨mid, invoked', handled', hsubs, hmid⟩ := goes_subs h hdirect
      obtain ⟨m'', invoked'', handled'', hgoes, hafter⟩ := ih hmid
      refine ⟨m'', invoked'', handled'', (hnext.trans hsubs).trans hgoes, ?_⟩
      rw [List.append_assoc] at hafter
      exact hafter

/-- **`broadcast_batch`** invokes every subscriber of its snapshot for every event. -/
theorem goes_batch (batch : List (Publication E))
    (hdirect : ∀ i ∈ m.registry.current, Direct (m.subs i)) :
    ∃ m' invoked handled,
      Goes setup t onError o (.inPhase m q contexts (.acquire batch) [] [])
        (.inPhase m' q contexts (.callPop []) invoked handled) ∧
      After m onError o (batch.flatMap fun e => m.registry.current.map fun i => (e, i)) m' invoked
        handled := by
  cases batch with
  | nil => exact ⟨m.recordBatch t [], [], [], goes_one rfl, after_nil t []⟩
  | cons event events =>
      have hacquire : Goes setup t onError o
          (.inPhase m q contexts (.acquire (event :: events)) [] [])
          (.inPhase (m.recordBatch t (event :: events)) q contexts
            (.next m.registry.current m.registry.current event events) [] []) := goes_one rfl
      obtain ⟨mid, invoked', handled', hsubs, hmid⟩ :=
        goes_subs (after_nil t (event :: events)) hdirect
      obtain ⟨m'', invoked'', handled'', hgoes, hafter⟩ := goes_events hmid hdirect
      exact ⟨m'', invoked'', handled'', (hacquire.trans hsubs).trans hgoes, hafter⟩

/-- The worker's own run goes nowhere else. -/
theorem goes_determined {b c finish : Broadcast Q} (hc : Goes setup t onError o b c)
    (hfinish : Goes setup t onError o b finish)
    (hstuck : broadcastStep setup t onError o finish = none) :
    Goes setup t onError o c finish := by
  induction hc with
  | refl => exact hfinish
  | @tail d c _ _ _ hstep ih =>
      obtain rfl | ⟨_, e, hfirst, hrest⟩ := ih.head_cases
      · rw [show broadcastStep setup t onError o d = some c from hstep] at hstuck
        cases hstuck
      · have heq : some e = some c := hfirst.symm.trans hstep
        cases heq
        exact hrest

/-- **Exception containment is noninterfering.**  Whatever the callbacks and the error
handler do, `broadcast_batch` returns, having made the same invocations in the same
order, with every `in_flight_` as before and the same counts of deliveries.  A non-empty
handler is called once for each invocation that threw, in their order. -/
theorem containment (setup : Setup T) (t : T) (onError : Bool) (m : DispatcherMem Q) (q : Q.Loc)
    (contexts : Contexts) (batch : List (Publication E))
    (hdirect : ∀ i ∈ m.registry.current, Direct (m.subs i)) (o₁ o₂ : Outcomes) :
    ∃ m₁ m₂ invoked₁ invoked₂ handled₁ handled₂,
      (∀ b, Goes setup t onError o₁ (.inPhase m q contexts (.acquire batch) [] []) b →
        Goes setup t onError o₁ b (.inPhase m₁ q contexts (.callPop []) invoked₁ handled₁)) ∧
      (∀ b, Goes setup t onError o₂ (.inPhase m q contexts (.acquire batch) [] []) b →
        Goes setup t onError o₂ b (.inPhase m₂ q contexts (.callPop []) invoked₂ handled₂)) ∧
      (invoked₁.map (fun x => (x.event, x.sub)) = invoked₂.map (fun x => (x.event, x.sub)) ∧
        m₁.history.invocations = m₂.history.invocations) ∧
      (∀ j, (m₁.subs j).inFlight = (m.subs j).inFlight ∧
        (m₂.subs j).inFlight = (m.subs j).inFlight ∧
        (m₁.subs j).metrics.delivered = (m₂.subs j).metrics.delivered) ∧
      After m onError o₁ (batch.flatMap fun e => m.registry.current.map fun i => (e, i)) m₁ invoked₁
        handled₁ ∧
      After m onError o₂ (batch.flatMap fun e => m.registry.current.map fun i => (e, i)) m₂ invoked₂
        handled₂ := by
  obtain ⟨m₁, invoked₁, handled₁, hgoes₁, hafter₁⟩ := goes_batch batch hdirect
  obtain ⟨m₂, invoked₂, handled₂, hgoes₂, hafter₂⟩ := goes_batch batch hdirect
  refine ⟨m₁, m₂, invoked₁, invoked₂, handled₁, handled₂, ?_, ?_, ?_, ?_, hafter₁, hafter₂⟩
  · intro b hb
    exact goes_determined hb hgoes₁ rfl
  · intro b hb
    exact goes_determined hb hgoes₂ rfl
  · rw [hafter₁.sequence, hafter₂.sequence, hafter₁.history, hafter₂.history]
    exact ⟨rfl, rfl⟩
  · intro j
    refine ⟨(hafter₁.subs j).inFlight, (hafter₂.subs j).inFlight, ?_⟩
    rw [(hafter₁.subs j).delivered, (hafter₂.subs j).delivered]

end Batch

/-- A concurrent and a serialized subscriber. -/
def mixedMem : DispatcherMem (mutexPolicy (Fin 3) (Publication Unit) 1) :=
  { (started smallSetup (mutexPolicy (Fin 3) (Publication Unit) 1)).mem with
    registry := { current := [1, 2], nextId := 3 }
    subs := fun i => { options := { delivery := if i = 2 then .serialized else .concurrent } } }

/-- Both callbacks throw, and so does the handler: both subscribers are still invoked, and
both exceptions are reported. -/
theorem containment_all_throw :
    ∃ m invoked handled,
      Goes smallSetup 0 true ⟨fun _ => true, fun _ => true, fun _ => false⟩
        (.inPhase mixedMem (.outside none) [] (.acquire [⟨0, ()⟩]) [] [])
        (.inPhase m (.outside none) [] (.callPop []) invoked handled) ∧
      invoked.map (fun x => (x.event, x.sub)) = [(⟨0, ()⟩, 1), (⟨0, ()⟩, 2)] ∧
      handled = invoked := by
  have hdirect : ∀ i ∈ mixedMem.registry.current, Direct (mixedMem.subs i) := by
    intro i hi
    refine ⟨rfl, ?_, rfl⟩
    show (if i = 2 then DeliveryPolicy.serialized else .concurrent) ≠ .isolated
    split <;> decide
  obtain ⟨m, _, invoked, _, handled, _, hruns, -, -, -, hafter, -⟩ := containment smallSetup 0 true
    mixedMem (.outside none) [] [⟨0, ()⟩] hdirect ⟨fun _ => true, fun _ => true, fun _ => false⟩
    ⟨fun _ => false, fun _ => false, fun _ => false⟩
  refine ⟨m, invoked, handled, hruns _ .refl, hafter.sequence, ?_⟩
  rw [hafter.reported, if_pos rfl, List.filter_eq_self]
  intro x hx
  obtain ⟨k, hk⟩ := List.mem_iff_getElem?.mp hx
  exact hafter.outcome k x hk

end Dispatcher

end EventDispatcher
