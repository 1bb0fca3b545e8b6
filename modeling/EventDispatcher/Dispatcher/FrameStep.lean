import EventDispatcher.Dispatcher.Dispatcher
import EventDispatcher.Subscription.SubscriberStep

/-!
# What a step of the dispatcher can do

`FrameStep` lists the steps of the top frame with their guards and with the memory
they leave, and `stepFrame_sound` says that the step function does nothing else.
`StepShape` adds the other steps of a thread.  Every invariant of the dispatcher is
proved from these two lists; the step functions are not unfolded again.
-/

namespace EventDispatcher

open Transition SubscriberState

variable {T E : Type} [DecidableEq T] {Q : QueuePolicy T (Publication E)}

/-- A frame that is inside `try_invoke` of subscriber `i` with an event. -/
inductive InvokeFrame (i : ℕ) (event : Publication E) : (InvokePhase → Frame T E) → Prop
  | worker (snapshot subs : List ℕ) (events : List (Publication E)) :
      InvokeFrame i event fun phase => .worker (.invoke snapshot subs event events i phase)
  | direct : InvokeFrame i event fun phase => .invoke i event phase

/-- A frame that is inside `stop_delivery(drain)` of subscriber `i`. -/
inductive StopFrame (i : ℕ) : Bool → (StopPhase → Frame T E) → Prop
  | unsubscribe (self : Bool) :
      StopFrame i false fun phase => .unsubscribe i (.stop self phase)
  | shutdown (policy : ShutdownPolicy) (todo : List ℕ) :
      StopFrame i (policy = .drain) fun phase => .shutdown policy (.stop (i :: todo) phase)

/-- The steps of the top frame. -/
inductive FrameStep (setup : Setup T) (flag : Bool) (t : T) (m : DispatcherMem Q) (q : Q.Loc)
    (contexts : Contexts) :
    Frame T E → DispatcherMem Q → Q.Loc → Contexts → Option (Frame T E) → Prop
  -- the worker loop
  | callPop (batch : List (Publication E)) {qm : Q.Mem} {q' : Q.Loc}
      (hstep : Q.step t (Q.call (.pop batch.isEmpty false)) m.queue q = some (qm, q')) :
      FrameStep setup flag t m q contexts (.worker (.callPop batch)) { m with queue := qm } q'
        contexts (some (.worker (.popping batch)))
  | poppedMore (batch : List (Publication E)) {event : Publication E}
      (hidle : Q.idle q = true) (hlast : Q.last q = some (.pop (.success event))) :
      FrameStep setup flag t m q contexts (.worker (.popping batch)) (m.recordDequeued t event) q
        contexts (some (.worker (.callPop (batch ++ [event]))))
  | poppedLast (batch : List (Publication E)) {event : Publication E}
      (hidle : Q.idle q = true) (hlast : Q.last q = some (.pop (.success event))) :
      FrameStep setup flag t m q contexts (.worker (.popping batch)) (m.recordDequeued t event) q
        contexts (some (.worker (.acquire (batch ++ [event]))))
  | batchEnded (batch : List (Publication E)) {result : PopResult (Publication E)}
      (hidle : Q.idle q = true) (hlast : Q.last q = some (.pop result))
      (hresult : ∀ event, result ≠ .success event) :
      FrameStep setup flag t m q contexts (.worker (.popping batch)) m q contexts
        (some (.worker (.acquire batch)))
  | popAgain (hidle : Q.idle q = true) (hlast : Q.last q = some (.pop .empty)) :
      FrameStep setup flag t m q contexts (.worker (.popping [])) m q contexts
        (some (.worker (.callPop [])))
  | workerDone {result : PopResult (Publication E)}
      (hidle : Q.idle q = true) (hlast : Q.last q = some (.pop result))
      (hresult : result = .closed ∨ result = .stopped) :
      FrameStep setup flag t m q contexts (.worker (.popping [])) (m.finish t) q contexts none
  | acquireNone :
      FrameStep setup flag t m q contexts (.worker (.acquire [])) (m.recordBatch t []) q contexts
        (some (.worker (.callPop [])))
  | acquire (event : Publication E) (events : List (Publication E)) :
      FrameStep setup flag t m q contexts (.worker (.acquire (event :: events)))
        (m.recordBatch t (event :: events)) q contexts
        (some (.worker (.next m.registry.current m.registry.current event events)))
  | nextSub (snapshot subs : List ℕ) (event : Publication E) (events : List (Publication E))
      (i : ℕ) :
      FrameStep setup flag t m q contexts (.worker (.next snapshot (i :: subs) event events)) m q
        contexts (some (.worker (.invoke snapshot subs event events i .offer)))
  | nextEvent (snapshot : List ℕ) (last event : Publication E) (events : List (Publication E)) :
      FrameStep setup flag t m q contexts (.worker (.next snapshot [] last (event :: events))) m q
        contexts (some (.worker (.next snapshot snapshot event events)))
  | broadcastDone (snapshot : List ℕ) (last : Publication E) :
      FrameStep setup flag t m q contexts (.worker (.next snapshot [] last [])) m q contexts
        (some (.worker (.callPop [])))
  | invoked (snapshot subs : List ℕ) (event : Publication E) (events : List (Publication E))
      (i : ℕ) :
      FrameStep setup flag t m q contexts (.worker (.invoke snapshot subs event events i (.done false)))
        m q contexts (some (.worker (.next snapshot subs event events)))
  | invokeThrew (snapshot subs : List ℕ) (event : Publication E) (events : List (Publication E))
      (i : ℕ) :
      FrameStep setup flag t m q contexts (.worker (.invoke snapshot subs event events i (.done true)))
        m q contexts (some (.worker (.handler snapshot subs event events)))
  -- `try_invoke`
  | invoke {i : ℕ} {event : Publication E} {f : InvokePhase → Frame T E}
      (hframe : InvokeFrame i event f) {phase phase' : InvokePhase}
      {s : SubscriberState T (Publication E)} {contexts' : Contexts}
      (hstep : InvokeStep flag t i (m.subs i) contexts event phase s contexts' phase') :
      FrameStep setup flag t m q contexts (f phase) (m.invokeSub i s) q contexts' (some (f phase'))
  | invokeReturned (i : ℕ) (event : Publication E) (threw : Bool) :
      FrameStep setup flag t m q contexts (.invoke i event (.done threw)) m q contexts none
  -- `executor_loop`
  | executor {i : ℕ} {phase phase' : ExecutorPhase (Publication E)}
      {s : SubscriberState T (Publication E)} {contexts' : Contexts}
      (hstep : ExecutorStep t i (m.subs i) contexts phase s contexts' phase') :
      FrameStep setup flag t m q contexts (.executor i phase) (m.invokeSub i s) q contexts'
        (some (.executor i phase'))
  | executorDone (i : ℕ) :
      FrameStep setup flag t m q contexts (.executor i .done) (m.finish t) q contexts none
  -- publications
  | publishOpen (event : Publication E) (kind : PushKind) (stop : Bool) (rest : List E)
      (hrunning : m.life.state = .running) :
      FrameStep setup flag t m q contexts (.publish event kind stop rest .check) m q contexts
        (some (.publish event kind stop rest .call))
  | publishRefused (event : Publication E) (kind : PushKind) (stop : Bool) (rest : List E)
      (hrunning : m.life.state ≠ .running) :
      FrameStep setup flag t m q contexts (.publish event kind stop rest .check) m q contexts
        (some (.publish event kind stop rest (.count .closed)))
  | publishCall (event : Publication E) (kind : PushKind) (stop : Bool) (rest : List E)
      {qm : Q.Mem} {q' : Q.Loc}
      (hstep : Q.step t (Q.call (.push kind event stop)) m.queue q = some (qm, q')) :
      FrameStep setup flag t m q contexts (.publish event kind stop rest .call)
        ({ m with queue := qm }.setPublishing (insert t m.threads.publishing)) q' contexts
        (some (.publish event kind stop rest .pushing))
  | publishReturned (event : Publication E) (kind : PushKind) (stop : Bool) (rest : List E)
      {status : QueueStatus} (hidle : Q.idle q = true)
      (hlast : Q.last q = some (.push (.returned status))) :
      FrameStep setup flag t m q contexts (.publish event kind stop rest .pushing)
        (m.setPublishing (m.threads.publishing.erase t)) q contexts
        (some (.publish event kind stop rest (.count status)))
  | publishThrew (event : Publication E) (kind : PushKind) (stop : Bool) (rest : List E)
      (hidle : Q.idle q = true) (hlast : Q.last q = some (.push .threw)) :
      FrameStep setup flag t m q contexts (.publish event kind stop rest .pushing)
        ((m.setPublishing (m.threads.publishing.erase t)).recordPublication event.id .threw) q
        contexts none
  | publishCounted (event : Publication E) (kind : PushKind) (stop : Bool) (rest : List E)
      (status : QueueStatus) (hlast : status = .success → rest = []) :
      FrameStep setup flag t m q contexts (.publish event kind stop rest (.count status))
        ((m.countStatus status).recordPublication event.id (.returned status)) q contexts none
  | publishNext (event : Publication E) (kind : PushKind) (stop : Bool) (payload : E)
      (rest : List E) :
      FrameStep setup flag t m q contexts
        (.publish event kind stop (payload :: rest) (.count .success))
        ((m.countStatus .success).recordPublication event.id
          (.returned .success)).beginPublication q contexts
        (some (.publish ⟨m.history.begun, payload⟩ kind stop rest .check))
  | stopIssued (target : T) (htarget : target ∈ m.threads.publishing) {qm : Q.Mem} {q' : Q.Loc}
      (hstep : Q.step t (Q.requestStop target) m.queue q = some (qm, q')) :
      FrameStep setup flag t m q contexts (.requestStop target false) { m with queue := qm } q'
        contexts (some (.requestStop target true))
  | stopReturned (target : T) (issued : Bool)
      (hidle : issued = true → Q.idle q = true) :
      FrameStep setup flag t m q contexts (.requestStop target issued) m q contexts none
  -- `subscribe`
  | subscribeLock (callback : Bool) (options : SubscriptionOptions)
      (hmutex : m.life.mutex = none) (hrunning : m.life.state = .running) :
      FrameStep setup flag t m q contexts (.subscribe callback options .lockLifecycle)
        (m.setMutex (some t)) q contexts (some (.subscribe callback options .lockWriter))
  | subscribeRefused (callback : Bool) (options : SubscriptionOptions)
      (hmutex : m.life.mutex = none) (message : String) :
      FrameStep setup flag t m q contexts (.subscribe callback options .lockLifecycle)
        (m.setMutex (some t)) q contexts
        (some (.subscribe callback options (.unlockLifecycle (.error message))))
  | subscribeLockWriter (callback : Bool) (options : SubscriptionOptions)
      (hwriter : m.registry.writer = none) :
      FrameStep setup flag t m q contexts (.subscribe callback options .lockWriter)
        (m.setWriter (some t)) q contexts (some (.subscribe callback options .construct))
  | subscribeExhausted (callback : Bool) (options : SubscriptionOptions) (message : String) :
      FrameStep setup flag t m q contexts (.subscribe callback options .construct) m q contexts
        (some (.subscribe callback options (.unlockWriter (.error message))))
  | subscribeInvalid (callback : Bool) (options : SubscriptionOptions) (message : String) :
      FrameStep setup flag t m q contexts (.subscribe callback options .construct)
        m.allocateId q contexts
        (some (.subscribe callback options (.unlockWriter (.error message))))
  | subscribeConstruct (callback : Bool) (options : SubscriptionOptions)
      (hvalid : options.validate setup.copyable = .ok ()) :
      FrameStep setup flag t m q contexts (.subscribe callback options .construct)
        (m.allocateId.setSub m.registry.nextId { options := options }) q contexts
        (some (.subscribe callback options
          (.filter m.registry.nextId m.registry.current [])))
  | subscribeKeep (callback : Bool) (options : SubscriptionOptions) (id j : ℕ)
      (todo kept : List ℕ) (hactive : (m.subs j).active = true) :
      FrameStep setup flag t m q contexts (.subscribe callback options (.filter id (j :: todo) kept))
        m q contexts (some (.subscribe callback options (.filter id todo (kept ++ [j]))))
  | subscribeSkip (callback : Bool) (options : SubscriptionOptions) (id j : ℕ)
      (todo kept : List ℕ) (hactive : (m.subs j).active = false) :
      FrameStep setup flag t m q contexts (.subscribe callback options (.filter id (j :: todo) kept))
        m q contexts (some (.subscribe callback options (.filter id todo kept)))
  | subscribeFiltered (callback : Bool) (options : SubscriptionOptions) (id : ℕ)
      (kept : List ℕ) :
      FrameStep setup flag t m q contexts (.subscribe callback options (.filter id [] kept)) m q
        contexts (some (.subscribe callback options (.startExecutor id (kept ++ [id]))))
  | subscribeSpawn (callback : Bool) (options : SubscriptionOptions) (id : ℕ)
      (next : List ℕ) (hisolated : options.delivery = .isolated) (u : T)
      (hu : u ∈ m.threads.unstarted) :
      FrameStep setup flag t m q contexts (.subscribe callback options (.startExecutor id next))
        (m.spawn id u) q contexts (some (.subscribe callback options (.store id next)))
  | subscribeNoThread (callback : Bool) (options : SubscriptionOptions) (id : ℕ)
      (next : List ℕ) (message : String) :
      FrameStep setup flag t m q contexts (.subscribe callback options (.startExecutor id next)) m q
        contexts (some (.subscribe callback options (.unlockWriter (.error message))))
  | subscribeNoExecutor (callback : Bool) (options : SubscriptionOptions) (id : ℕ)
      (next : List ℕ) (hdirect : options.delivery ≠ .isolated) :
      FrameStep setup flag t m q contexts (.subscribe callback options (.startExecutor id next)) m q
        contexts (some (.subscribe callback options (.store id next)))
  | subscribeStore (callback : Bool) (options : SubscriptionOptions) (id : ℕ) (next : List ℕ) :
      FrameStep setup flag t m q contexts (.subscribe callback options (.store id next))
        (m.publishSub id next) q contexts
        (some (.subscribe callback options (.unlockWriter (.ok id))))
  | subscribeUnlockWriter (callback : Bool) (options : SubscriptionOptions)
      (result : Except String ℕ) :
      FrameStep setup flag t m q contexts (.subscribe callback options (.unlockWriter result))
        (m.setWriter none) q contexts
        (some (.subscribe callback options (.unlockLifecycle result)))
  | subscribeReturned (callback : Bool) (options : SubscriptionOptions)
      (result : Except String ℕ) :
      FrameStep setup flag t m q contexts (.subscribe callback options (.unlockLifecycle result))
        ((m.setMutex none).recordSubscription result) q contexts none
  -- `unsubscribe` and `retire`
  | deactivate (i : ℕ) (hfirst : (m.subs i).retirementStarted = false) :
      FrameStep setup flag t m q contexts (.unsubscribe i .deactivate)
        ((m.setSub i (m.subs i).deactivate).recordUnsubscribed i) q contexts
        (some (.unsubscribe i (.retire (decide (some i ∈ contexts)) .lockWriter)))
  | deactivateAgain (i : ℕ) (hagain : (m.subs i).retirementStarted = true) :
      FrameStep setup flag t m q contexts (.unsubscribe i .deactivate)
        ((m.setSub i (m.subs i).deactivate).recordUnsubscribed i) q contexts
        (some (.unsubscribe i (.stop (decide (some i ∈ contexts)) .lockMailbox)))
  | retireLock (i : ℕ) (self : Bool) (hwriter : m.registry.writer = none) :
      FrameStep setup flag t m q contexts (.unsubscribe i (.retire self .lockWriter))
        (m.setWriter (some t)) q contexts (some (.unsubscribe i (.retire self .find)))
  | retireFound (i : ℕ) (self : Bool) (hfound : i ∈ m.registry.current) :
      FrameStep setup flag t m q contexts (.unsubscribe i (.retire self .find)) m q contexts
        (some (.unsubscribe i (.retire self (.filter m.registry.current []))))
  | retireAbsent (i : ℕ) (self : Bool) (habsent : i ∉ m.registry.current) :
      FrameStep setup flag t m q contexts (.unsubscribe i (.retire self .find)) m q contexts
        (some (.unsubscribe i (.retire self .unlock)))
  | retireFailed (i : ℕ) (self : Bool) (hfound : i ∈ m.registry.current) (hflag : flag = true) :
      FrameStep setup flag t m q contexts (.unsubscribe i (.retire self .find)) m q contexts
        (some (.unsubscribe i (.retire self .unlock)))
  | retireKeep (i : ℕ) (self : Bool) (j : ℕ) (todo kept : List ℕ) (hne : j ≠ i)
      (hactive : (m.subs j).active = true) :
      FrameStep setup flag t m q contexts (.unsubscribe i (.retire self (.filter (j :: todo) kept)))
        m q contexts (some (.unsubscribe i (.retire self (.filter todo (kept ++ [j])))))
  | retireSkip (i : ℕ) (self : Bool) (j : ℕ) (todo kept : List ℕ)
      (hskip : j = i ∨ (m.subs j).active = false) :
      FrameStep setup flag t m q contexts (.unsubscribe i (.retire self (.filter (j :: todo) kept)))
        m q contexts (some (.unsubscribe i (.retire self (.filter todo kept))))
  | retireStore (i : ℕ) (self : Bool) (kept : List ℕ) :
      FrameStep setup flag t m q contexts (.unsubscribe i (.retire self (.filter [] kept)))
        (m.setCurrent kept) q contexts (some (.unsubscribe i (.retire self .unlock)))
  | retireUnlock (i : ℕ) (self : Bool) :
      FrameStep setup flag t m q contexts (.unsubscribe i (.retire self .unlock))
        (m.setWriter none) q contexts (some (.unsubscribe i (.stop self .lockMailbox)))
  | selfReturned (i : ℕ) :
      FrameStep setup flag t m q contexts (.unsubscribe i (.stop true .done)) m q contexts none
  | stopDone (i : ℕ) :
      FrameStep setup flag t m q contexts (.unsubscribe i (.stop false .done)) m q contexts
        (some (.unsubscribe i .waitIdle))
  | idleReturned (i : ℕ) (hidle : (m.subs i).inFlight = 0) :
      FrameStep setup flag t m q contexts (.unsubscribe i .waitIdle) m q contexts none
  | idlePark (i : ℕ) (hbusy : (m.subs i).inFlight ≠ 0) :
      FrameStep setup flag t m q contexts (.unsubscribe i .waitIdle)
        (m.setSub i { m.subs i with noCallbacks := insert t (m.subs i).noCallbacks }) q contexts
        (some (.unsubscribe i .idleParked))
  | idleWake (i : ℕ) :
      FrameStep setup flag t m q contexts (.unsubscribe i .idleParked)
        (m.setSub i { m.subs i with noCallbacks := (m.subs i).noCallbacks.erase t }) q contexts
        (some (.unsubscribe i .waitIdle))
  -- `stop_delivery`
  | stop {i : ℕ} {drain : Bool} {f : StopPhase → Frame T E} (hframe : StopFrame i drain f)
      {phase phase' : StopPhase} {s : SubscriberState T (Publication E)}
      (hstep : StopStep t (m.subs i) m.threads.finished drain phase s phase') :
      FrameStep setup flag t m q contexts (f phase) (m.setSub i s) q contexts (some (f phase'))
  -- `shutdown`
  | shutdownRejected (policy : ShutdownPolicy) (hself : t ∈ setup.workers ∨ contexts.any Option.isSome = true)
      (message : String) :
      FrameStep setup flag t m q contexts (.shutdown policy .guard)
        (m.recordShutdown (.error message)) q contexts none
  | shutdownGuard (policy : ShutdownPolicy) (hworker : t ∉ setup.workers)
      (hcontexts : contexts.any Option.isSome = false) :
      FrameStep setup flag t m q contexts (.shutdown policy .guard) m q contexts
        (some (.shutdown policy .lockLifecycle))
  | shutdownStopped (policy : ShutdownPolicy)
      (hmutex : m.life.mutex = none) (hstopped : m.life.state = .stopped) :
      FrameStep setup flag t m q contexts (.shutdown policy .lockLifecycle)
        (m.recordShutdown (.ok ())) q contexts none
  | shutdownWait (policy : ShutdownPolicy) (changed : Finset T) :
      FrameStep setup flag t m q contexts (.shutdown policy .lockLifecycle) (m.setChanged changed) q
        contexts (some (.shutdown policy .changedParked))
  | shutdownWoken (policy : ShutdownPolicy)
      (hmutex : m.life.mutex = none) (hstopped : m.life.state = .stopped) :
      FrameStep setup flag t m q contexts (.shutdown policy .changedParked)
        (m.recordShutdown (.ok ())) q contexts none
  | shutdownWaitOn (policy : ShutdownPolicy) (changed : Finset T) :
      FrameStep setup flag t m q contexts (.shutdown policy .changedParked) (m.setChanged changed) q
        contexts (some (.shutdown policy .changedParked))
  | shutdownBegin (policy : ShutdownPolicy) (hmutex : m.life.mutex = none)
      (hstate : m.life.state = .created ∨ m.life.state = .running) :
      FrameStep setup flag t m q contexts (.shutdown policy .lockLifecycle)
        (m.setLifecycle (Dispatcher.stopping policy)) q contexts
        (some (.shutdown policy .callClose))
  | callClose (policy : ShutdownPolicy) {qm : Q.Mem} {q' : Q.Loc}
      (hstep : Q.step t (Q.call (Dispatcher.closeOp policy)) m.queue q = some (qm, q')) :
      FrameStep setup flag t m q contexts (.shutdown policy .callClose) { m with queue := qm } q'
        contexts (some (.shutdown policy .closing))
  | closed (hidle : Q.idle q = true) (hlast : Q.last q = some .closed) :
      FrameStep setup flag t m q contexts (.shutdown .drain .closing) m q contexts
        (some (.shutdown .drain (.joinWorkers setup.workers)))
  | discarded {count : ℕ} (hidle : Q.idle q = true)
      (hlast : Q.last q = some (.discarded count)) :
      FrameStep setup flag t m q contexts (.shutdown .discard .closing) m q contexts
        (some (.shutdown .discard (.countDropped count)))
  | countDropped (policy : ShutdownPolicy) (discarded : ℕ) :
      FrameStep setup flag t m q contexts (.shutdown policy (.countDropped discarded))
        (m.countDropped discarded) q contexts (some (.shutdown policy .loadSnapshot))
  | loadSnapshot (policy : ShutdownPolicy) :
      FrameStep setup flag t m q contexts (.shutdown policy .loadSnapshot) m q contexts
        (some (.shutdown policy (.stop m.registry.current .lockMailbox)))
  | drainStopped (phase : StopPhase) :
      FrameStep setup flag t m q contexts (.shutdown .drain (.stop [] phase)) m q contexts
        (some (.shutdown .drain .storeStopped))
  | discardStopped (phase : StopPhase) :
      FrameStep setup flag t m q contexts (.shutdown .discard (.stop [] phase)) m q contexts
        (some (.shutdown .discard (.joinWorkers setup.workers)))
  | stopNext (policy : ShutdownPolicy) (i : ℕ) (todo : List ℕ) :
      FrameStep setup flag t m q contexts (.shutdown policy (.stop (i :: todo) .done)) m q contexts
        (some (.shutdown policy (.stop todo .lockMailbox)))
  | drainJoined :
      FrameStep setup flag t m q contexts (.shutdown .drain (.joinWorkers [])) m q contexts
        (some (.shutdown .drain .loadSnapshot))
  | discardJoined :
      FrameStep setup flag t m q contexts (.shutdown .discard (.joinWorkers [])) m q contexts
        (some (.shutdown .discard .storeStopped))
  | joinWorker (policy : ShutdownPolicy) (u : T) (todo : List T)
      (hfinished : u ∈ m.threads.finished) :
      FrameStep setup flag t m q contexts (.shutdown policy (.joinWorkers (u :: todo))) m q contexts
        (some (.shutdown policy (.joinWorkers todo)))
  | storeStopped (policy : ShutdownPolicy) (hmutex : m.life.mutex = none) :
      FrameStep setup flag t m q contexts (.shutdown policy .storeStopped)
        (m.setLifecycle .stopped) q contexts (some (.shutdown policy .notifyChanged))
  | notifyChanged (policy : ShutdownPolicy) :
      FrameStep setup flag t m q contexts (.shutdown policy .notifyChanged)
        ((m.setChanged ∅).recordShutdown (.ok ())) q contexts none
  -- callbacks of other owners
  | foreignEnter :
      FrameStep setup flag t m q contexts (.foreign .enter) m q (none :: contexts)
        (some (.foreign (.running contexts)))
  | foreignLeave (previous : Contexts) :
      FrameStep setup flag t m q contexts (.foreign (.leave previous)) m q previous none

namespace Dispatcher

section Sound

variable {setup : Setup T} {flag : Bool} {t : T} {m m' : DispatcherMem Q} {q q' : Q.Loc}
  {contexts contexts' : Contexts} {thread : Option T}

/-- `stepWorker` takes the steps of the relation and no others. -/
theorem stepWorker_sound {phase : WorkerPhase E} {phase' : Option (WorkerPhase E)}
    (h : stepWorker setup.batchSize t m q contexts flag thread phase =
      some (m', q', contexts', phase')) :
    FrameStep setup flag t m q contexts (.worker phase) m' q' contexts' (phase'.map .worker) := by
  cases phase with
  | callPop batch =>
      obtain ⟨r, hstep, heq⟩ := Option.map_eq_some_iff.mp h
      cases heq
      exact .callPop batch hstep
  | popping batch =>
      simp only [stepWorker] at h
      split at h
      · next hidle =>
          split at h
          · next event hlast =>
              cases h
              by_cases hmore : batch.length + 1 < setup.batchSize
              · rw [if_pos hmore]
                exact .poppedMore batch hidle hlast
              · rw [if_neg hmore]
                exact .poppedLast batch hidle hlast
          · next hlast =>
              cases h
              by_cases hbatch : batch = []
              · subst hbatch
                exact .popAgain hidle hlast
              · rw [if_neg hbatch]
                exact .batchEnded batch hidle hlast (by simp)
          · next result hsuccess hempty hlast =>
              split at h
              · next hbatch =>
                  cases h
                  subst hbatch
                  refine .workerDone hidle hlast ?_
                  cases result with
                  | success event => exact absurd rfl (hsuccess event)
                  | empty => exact absurd rfl hempty
                  | closed => exact .inl rfl
                  | stopped => exact .inr rfl
              · cases h
                exact .batchEnded batch hidle hlast hsuccess
          · cases h
      · cases h
  | acquire batch =>
      cases batch with
      | nil => cases h; exact .acquireNone
      | cons event events => cases h; exact .acquire event events
  | next snapshot subs event events =>
      cases subs with
      | cons i subs => cases h; exact .nextSub snapshot subs event events i
      | nil =>
          cases events with
          | cons later events => cases h; exact .nextEvent snapshot event later events
          | nil => cases h; exact .broadcastDone snapshot event
  | invoke snapshot subs event events i phase =>
      by_cases hdone : ∃ threw, phase = .done threw
      · obtain ⟨threw, rfl⟩ := hdone
        cases h
        cases threw with
        | false => exact .invoked snapshot subs event events i
        | true => exact .invokeThrew snapshot subs event events i
      · have hstep : (stepInvoke t i (m.subs i) contexts event flag thread phase).map
            (fun r => (m.invokeSub i r.1, q, r.2.1,
              some (WorkerPhase.invoke snapshot subs event events i r.2.2))) =
            some (m', q', contexts', phase') := by
          cases phase with
          | done threw => exact absurd ⟨threw, rfl⟩ hdone
          | _ => exact h
        obtain ⟨r, hr, heq⟩ := Option.map_eq_some_iff.mp hstep
        cases heq
        exact .invoke (.worker snapshot subs events) (stepInvoke_sound hr)
  | handler => cases h

/-- So does `stepPublish`. -/
theorem stepPublish_sound {event : Publication E} {kind : PushKind} {stop : Bool}
    {rest : List E} {phase : PublishPhase} {f' : Option (Frame T E)}
    (h : stepPublish t m q event kind stop rest phase = some (m', q', f')) :
    FrameStep setup flag t m q contexts (.publish event kind stop rest phase) m' q' contexts f' := by
  cases phase with
  | check =>
      cases h
      by_cases hrunning : m.life.state = .running
      · rw [if_pos hrunning]
        exact .publishOpen event kind stop rest hrunning
      · rw [if_neg hrunning]
        exact .publishRefused event kind stop rest hrunning
  | call =>
      obtain ⟨r, hstep, heq⟩ := Option.map_eq_some_iff.mp h
      cases heq
      exact .publishCall event kind stop rest hstep
  | pushing =>
      simp only [stepPublish] at h
      split at h
      · next hidle =>
          split at h
          · next hlast => cases h; exact .publishReturned event kind stop rest hidle hlast
          · next hlast => cases h; exact .publishThrew event kind stop rest hidle hlast
          · cases h
      · cases h
  | count status =>
      cases status with
      | success =>
          cases rest with
          | nil => cases h; exact .publishCounted event kind stop [] .success fun _ => rfl
          | cons payload rest => cases h; exact .publishNext event kind stop payload rest
      | _ => cases h; exact .publishCounted event kind stop rest _ (by simp)

/-- So does `stepSubscribe`. -/
theorem stepSubscribe_sound {callback : Bool} {options : SubscriptionOptions}
    {phase : SubscribePhase} {phase' : Option SubscribePhase}
    (h : stepSubscribe setup.copyable t m callback options flag thread phase =
      some (m', phase')) :
    FrameStep setup flag t m q contexts (.subscribe callback options phase) m' q contexts
      (phase'.map (.subscribe callback options)) := by
  cases phase with
  | lockLifecycle =>
      simp only [stepSubscribe] at h
      split at h
      · next hmutex =>
          cases h
          by_cases hrunning : m.life.state = .running
          · cases callback with
            | true =>
                simp only [hrunning, ne_eq, not_true_eq_false, if_false, if_true]
                exact .subscribeLock true options hmutex hrunning
            | false =>
                simp only [hrunning, ne_eq, not_true_eq_false, if_false, Bool.false_eq_true]
                exact .subscribeRefused false options hmutex _
          · simp only [ne_eq, hrunning, not_false_eq_true, if_true]
            exact .subscribeRefused callback options hmutex _
      · cases h
  | lockWriter =>
      simp only [stepSubscribe] at h
      split at h
      · next hwriter => cases h; exact .subscribeLockWriter callback options hwriter
      · cases h
  | construct =>
      simp only [stepSubscribe] at h
      split at h
      · cases h; exact .subscribeExhausted callback options _
      · split at h
        · cases h; exact .subscribeInvalid callback options _
        · next hvalid =>
            split at h
            · cases h; exact .subscribeInvalid callback options _
            · cases h; exact .subscribeConstruct callback options hvalid
  | filter id todo kept =>
      cases todo with
      | cons j todo =>
          cases h
          cases hactive : (m.subs j).active with
          | true =>
              rw [if_pos rfl]
              exact .subscribeKeep callback options id j todo kept hactive
          | false =>
              rw [if_neg Bool.false_ne_true]
              exact .subscribeSkip callback options id j todo kept hactive
      | nil => cases h; exact .subscribeFiltered callback options id kept
  | startExecutor id next =>
      simp only [stepSubscribe] at h
      split at h
      · next hisolated =>
          split at h
          · cases h; exact .subscribeNoThread callback options id next _
          · split at h
            · split at h
              · next hu =>
                  cases h
                  exact .subscribeSpawn callback options id next hisolated _ hu
              · cases h
            · cases h
      · next hdirect => cases h; exact .subscribeNoExecutor callback options id next hdirect
  | store id next => cases h; exact .subscribeStore callback options id next
  | unlockWriter result => cases h; exact .subscribeUnlockWriter callback options result
  | unlockLifecycle result => cases h; exact .subscribeReturned callback options result

/-- So does `stepUnsubscribe`. -/
theorem stepUnsubscribe_sound {i : ℕ} {phase : UnsubscribePhase}
    {phase' : Option UnsubscribePhase}
    (h : stepUnsubscribe t m contexts i flag phase = some (m', phase')) :
    FrameStep setup flag t m q contexts (.unsubscribe i phase) m' q contexts
      (phase'.map (.unsubscribe i)) := by
  cases phase with
  | deactivate =>
      cases h
      cases hstarted : (m.subs i).retirementStarted with
      | true => exact .deactivateAgain i hstarted
      | false => exact .deactivate i hstarted
  | retire self phase =>
      obtain ⟨r, hr, heq⟩ := Option.map_eq_some_iff.mp h
      cases heq
      cases phase with
      | lockWriter =>
          simp only [stepRetire] at hr
          split at hr
          · next hwriter => cases hr; exact .retireLock i self hwriter
          · cases hr
      | find =>
          cases hr
          by_cases hfound : i ∈ m.registry.current
          · cases flag with
            | false =>
                rw [if_pos ⟨hfound, rfl⟩]
                exact .retireFound i self hfound
            | true =>
                rw [if_neg (by simp)]
                exact .retireFailed i self hfound rfl
          · rw [if_neg (by simp [hfound])]
            exact .retireAbsent i self hfound
      | filter todo kept =>
          cases todo with
          | cons j todo =>
              cases hr
              by_cases hkeep : j ≠ i ∧ (m.subs j).active = true
              · rw [if_pos hkeep]
                exact .retireKeep i self j todo kept hkeep.1 hkeep.2
              · rw [if_neg hkeep]
                refine .retireSkip i self j todo kept ?_
                simpa [Classical.or_iff_not_imp_left] using hkeep
          | nil => cases hr; exact .retireStore i self kept
      | unlock => cases hr; exact .retireUnlock i self
  | stop self phase =>
      by_cases hdone : phase = .done
      · subst hdone
        cases h
        cases self with
        | true => exact .selfReturned i
        | false => exact .stopDone i
      · have hstep : (stepStop t (m.subs i) m.threads.finished false phase).map
            (fun r => (m.setSub i r.1, some (UnsubscribePhase.stop self r.2))) =
            some (m', phase') := by
          cases phase with
          | done => exact absurd rfl hdone
          | _ => exact h
        obtain ⟨r, hr, heq⟩ := Option.map_eq_some_iff.mp hstep
        cases heq
        exact .stop (.unsubscribe self) (stepStop_sound hr)
  | waitIdle =>
      simp only [stepUnsubscribe] at h
      split at h
      · next hidle => cases h; exact .idleReturned i hidle
      · next hbusy => cases h; exact .idlePark i hbusy
  | idleParked =>
      simp only [stepUnsubscribe] at h
      split at h
      · cases h
      · cases h; exact .idleWake i

/-- So does `stepShutdown`. -/
theorem stepShutdown_sound {policy : ShutdownPolicy} {phase : ShutdownPhase T}
    {phase' : Option (ShutdownPhase T)}
    (h : stepShutdown setup.workers t m q contexts policy flag phase = some (m', q', phase')) :
    FrameStep setup flag t m q contexts (.shutdown policy phase) m' q' contexts
      (phase'.map (.shutdown policy)) := by
  cases phase with
  | guard =>
      simp only [stepShutdown] at h
      split at h
      · next hself => cases h; exact .shutdownRejected policy hself _
      · next hself =>
          cases h
          obtain ⟨hworker, hcontexts⟩ := not_or.mp hself
          exact .shutdownGuard policy hworker (Bool.eq_false_iff.mpr hcontexts)
  | lockLifecycle =>
      simp only [stepShutdown] at h
      split at h
      · next hmutex =>
          split at h
          · next hstopped => cases h; exact .shutdownStopped policy hmutex hstopped
          · next hstopped =>
              split at h
              · cases h; exact .shutdownWait policy _
              · next hstopping =>
                  cases h
                  refine .shutdownBegin policy hmutex ?_
                  cases hstate : m.life.state <;> simp_all
      · cases h
  | changedParked =>
      simp only [stepShutdown] at h
      split at h
      · split at h
        · cases h; exact .shutdownWaitOn policy _
        · cases h
      · split at h
        · next hmutex =>
            split at h
            · next hstopped => cases h; exact .shutdownWoken policy hmutex hstopped
            · cases h; exact .shutdownWaitOn policy _
        · cases h
  | callClose =>
      obtain ⟨r, hstep, heq⟩ := Option.map_eq_some_iff.mp h
      cases heq
      exact .callClose policy hstep
  | closing =>
      simp only [stepShutdown] at h
      split at h
      · next hidle =>
          split at h
          · next hlast => cases h; exact .closed hidle hlast
          · next hlast => cases h; exact .discarded hidle hlast
          · cases h
      · cases h
  | countDropped discarded => cases h; exact .countDropped policy discarded
  | loadSnapshot => cases h; exact .loadSnapshot policy
  | stop todo phase =>
      cases todo with
      | nil =>
          cases h
          cases policy with
          | drain => exact .drainStopped phase
          | discard => exact .discardStopped phase
      | cons i todo =>
          by_cases hdone : phase = .done
          · subst hdone
            cases h
            exact .stopNext policy i todo
          · have hstep : (stepStop t (m.subs i) m.threads.finished (policy = .drain) phase).map
                (fun r => (m.setSub i r.1, q, some (ShutdownPhase.stop (i :: todo) r.2))) =
                some (m', q', phase') := by
              cases phase with
              | done => exact absurd rfl hdone
              | _ => exact h
            obtain ⟨r, hr, heq⟩ := Option.map_eq_some_iff.mp hstep
            cases heq
            exact .stop (.shutdown policy todo) (stepStop_sound hr)
  | joinWorkers todo =>
      cases todo with
      | nil =>
          cases h
          cases policy with
          | drain => exact .drainJoined
          | discard => exact .discardJoined
      | cons u todo =>
          simp only [stepShutdown] at h
          split at h
          · next hfinished => cases h; exact .joinWorker policy u todo hfinished
          · cases h
  | storeStopped =>
      simp only [stepShutdown] at h
      split at h
      · next hmutex => cases h; exact .storeStopped policy hmutex
      · cases h
  | notifyChanged => cases h; exact .notifyChanged policy

/-- The step function of a frame does nothing that `FrameStep` does not list. -/
theorem stepFrame_sound {f : Frame T E} {f' : Option (Frame T E)}
    (h : stepFrame setup t m q contexts flag thread f = some (m', q', contexts', f')) :
    FrameStep setup flag t m q contexts f m' q' contexts' f' := by
  cases f with
  | worker phase =>
      obtain ⟨r, hr, heq⟩ := Option.map_eq_some_iff.mp h
      cases heq
      exact stepWorker_sound hr
  | executor i phase =>
      by_cases hdone : phase = .done
      · subst hdone
        cases h
        exact .executorDone i
      · have hstep : (stepExecutor t i (m.subs i) contexts flag thread phase).map
            (fun r => (m.invokeSub i r.1, q, r.2.1, some (Frame.executor i r.2.2))) =
            some (m', q', contexts', f') := by
          cases phase with
          | done => exact absurd rfl hdone
          | _ => exact h
        obtain ⟨r, hr, heq⟩ := Option.map_eq_some_iff.mp hstep
        cases heq
        exact .executor (stepExecutor_sound hr)
  | invoke i event phase =>
      by_cases hdone : ∃ threw, phase = .done threw
      · obtain ⟨threw, rfl⟩ := hdone
        cases h
        exact .invokeReturned i event threw
      · have hstep : (stepInvoke t i (m.subs i) contexts event flag thread phase).map
            (fun r => (m.invokeSub i r.1, q, r.2.1, some (Frame.invoke i event r.2.2))) =
            some (m', q', contexts', f') := by
          cases phase with
          | done threw => exact absurd ⟨threw, rfl⟩ hdone
          | _ => exact h
        obtain ⟨r, hr, heq⟩ := Option.map_eq_some_iff.mp hstep
        cases heq
        exact .invoke .direct (stepInvoke_sound hr)
  | publish event kind stop rest phase =>
      obtain ⟨r, hr, heq⟩ := Option.map_eq_some_iff.mp h
      cases heq
      exact stepPublish_sound hr
  | requestStop target issued =>
      cases issued with
      | false =>
          simp only [stepFrame] at h
          split at h
          · next htarget =>
              obtain ⟨r, hr, heq⟩ := Option.map_eq_some_iff.mp h
              cases heq
              exact .stopIssued target htarget hr
          · cases h
            exact .stopReturned target false (by simp)
      | true =>
          simp only [stepFrame] at h
          split at h
          · next hidle => cases h; exact .stopReturned target true fun _ => hidle
          · cases h
  | subscribe callback options phase =>
      obtain ⟨r, hr, heq⟩ := Option.map_eq_some_iff.mp h
      cases heq
      exact stepSubscribe_sound hr
  | unsubscribe i phase =>
      obtain ⟨r, hr, heq⟩ := Option.map_eq_some_iff.mp h
      cases heq
      exact stepUnsubscribe_sound hr
  | shutdown policy phase =>
      obtain ⟨r, hr, heq⟩ := Option.map_eq_some_iff.mp h
      cases heq
      exact stepShutdown_sound hr
  | foreign phase =>
      cases phase with
      | enter => cases h; exact .foreignEnter
      | running previous => cases h
      | leave previous => cases h; exact .foreignLeave _

end Sound

/-- User code is running on the thread. -/
def UserCode (setup : Setup T) (t : T) : List (Frame T E) → Prop
  | [] => Client setup t
  | frame :: _ => frame.user = true

/-- The steps of a thread. -/
inductive StepShape (setup : Setup T) (t : T) (m : DispatcherMem Q) (l : ThreadLoc Q) :
    DispatcherChoice Q → DispatcherMem Q → ThreadLoc Q → Prop
  | constructed (hstack : l.stack = []) (hclient : Client setup t)
      (hcreated : m.life.state = .created) :
      StepShape setup t m l .constructed (m.setLifecycle .running) l
  | start (hstack : l.stack = []) {i : ℕ} (hentry : m.threads.entry t = some i) :
      StepShape setup t m l .start
        { m with threads := { m.threads with entry := Function.update m.threads.entry t none } }
        { l with stack := [.executor i .lockMailbox] }
  | call {call : Call T E} {m' : DispatcherMem Q} {frame : Frame T E}
      (huser : UserCode setup t l.stack) (henter : enter m call = some (m', frame))
      (hcreated : l.stack = [] → m.life.state ≠ .created) :
      StepShape setup t m l (.call call) m' { l with stack := frame :: l.stack }
  | finish {threw : Bool} {frame frame' : Frame T E} {rest : List (Frame T E)}
      (hstack : l.stack = frame :: rest) (hfinish : frame.finishUser threw = some frame') :
      StepShape setup t m l (.finish threw) m { l with stack := frame' :: rest }
  | frame {flag : Bool} {thread : Option T} {m' : DispatcherMem Q} {q' : Q.Loc}
      {contexts' : Contexts} {frame : Frame T E} {frame' : Option (Frame T E)}
      {rest : List (Frame T E)} (hstack : l.stack = frame :: rest)
      (hstep : FrameStep setup flag t m l.queue l.contexts frame m' q' contexts' frame') :
      StepShape setup t m l (.go flag thread) m' ⟨q', contexts', frame'.toList ++ rest⟩
  | queue {choice : Q.Choice} {qm : Q.Mem} {q' : Q.Loc} {frame : Frame T E}
      {rest : List (Frame T E)} (hstack : l.stack = frame :: rest)
      (hin : frame.inQueue = true) (hbusy : Q.idle l.queue = false)
      (hstep : Q.step t choice m.queue l.queue = some (qm, q')) :
      StepShape setup t m l (.queue choice)
        (m.setQueue qm (accepted Q frame m.queue qm) (destroyed Q frame m.queue qm))
        { l with queue := q' }

/-- A step of a thread has one of the listed shapes. -/
theorem step_shape {setup : Setup T} {t : T} {c : DispatcherChoice Q} {m m' : DispatcherMem Q}
    {l l' : ThreadLoc Q} (h : step setup t c m l = some (m', l')) :
    StepShape setup t m l c m' l' := by
  obtain ⟨q, contexts, stack⟩ := l
  cases stack with
  | nil =>
      cases c with
      | constructed =>
          simp only [step] at h
          split at h
          · next hguard => cases h; exact .constructed rfl hguard.1 hguard.2
          · cases h
      | start =>
          obtain ⟨i, hentry, heq⟩ := Option.map_eq_some_iff.mp h
          cases heq
          exact .start rfl hentry
      | call call =>
          simp only [step] at h
          split at h
          · next hguard =>
              obtain ⟨r, hr, heq⟩ := Option.map_eq_some_iff.mp h
              cases heq
              exact .call hguard.1 hr fun _ => hguard.2
          · cases h
      | _ => cases h
  | cons frame rest =>
      cases c with
      | call call =>
          simp only [step] at h
          split at h
          · next huser =>
              obtain ⟨r, hr, heq⟩ := Option.map_eq_some_iff.mp h
              cases heq
              exact .call huser hr (by rintro ⟨⟩)
          · cases h
      | finish threw =>
          obtain ⟨frame', hfinish, heq⟩ := Option.map_eq_some_iff.mp h
          cases heq
          exact .finish rfl hfinish
      | go flag thread =>
          obtain ⟨r, hr, heq⟩ := Option.map_eq_some_iff.mp h
          cases heq
          exact .frame rfl (stepFrame_sound hr)
      | queue choice =>
          obtain ⟨r, hr, heq⟩ := Option.map_eq_some_iff.mp h
          cases heq
          simp only [stepQueue] at hr
          split at hr
          · next hguard =>
              obtain ⟨r, hstep, heq⟩ := Option.map_eq_some_iff.mp hr
              cases heq
              exact .queue rfl hguard.1 hguard.2 hstep
          · cases hr
      | _ => cases h

end Dispatcher

end EventDispatcher
