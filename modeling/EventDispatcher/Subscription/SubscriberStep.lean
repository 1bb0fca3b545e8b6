import EventDispatcher.Subscription.SubscriberState

/-!
# What a step of a subscriber can do

The steps of `execute_callback`, `try_invoke`, `executor_loop` and `stop_delivery`, with
their guards.  What is proved about a subscriber is proved from these lists.
-/

namespace EventDispatcher

open Transition SubscriberState

variable {T E : Type}

/-- The steps of `execute_callback`. -/
inductive CallbackStep (i : ℕ) (s : SubscriberState T E) (contexts : Contexts) (event : E) :
    CallbackPhase → SubscriberState T E → Contexts → CallbackPhase → Prop
  | enter :
      CallbackStep i s contexts event .enter { s with received := s.received ++ [event] }
        (some i :: contexts) (.running contexts)
  | countError (previous : Contexts) :
      CallbackStep i s contexts event (.countError previous) s.countError contexts
        (.leave previous true)
  | leave (previous : Contexts) (threw : Bool) :
      CallbackStep i s contexts event (.leave previous threw) s previous (.countDelivered threw)
  | countDelivered (threw : Bool) :
      CallbackStep i s contexts event (.countDelivered threw) s.countDelivered contexts
        (.finish threw)
  | countDeliveredSlow (threw : Bool) :
      CallbackStep i s contexts event (.countDelivered threw) s.countDelivered contexts
        (.countSlow threw)
  | countSlow (threw : Bool) :
      CallbackStep i s contexts event (.countSlow threw) s.countSlow contexts (.finish threw)
  | finishIdle (threw : Bool) :
      CallbackStep i s contexts event (.finish threw) s.release contexts (.notifyIdle threw)
  | finish (threw : Bool) :
      CallbackStep i s contexts event (.finish threw) s.release contexts (.done threw)
  | notifyIdle (threw : Bool) :
      CallbackStep i s contexts event (.notifyIdle threw) { s with noCallbacks := ∅ } contexts
        (.done threw)

/-- `stepCallback` takes the steps of the relation and no others. -/
theorem stepCallback_sound {i : ℕ} {s s' : SubscriberState T E} {contexts contexts' : Contexts}
    {event : E} {slow : Bool} {phase phase' : CallbackPhase}
    (h : stepCallback i s contexts event slow phase = some (s', contexts', phase')) :
    CallbackStep i s contexts event phase s' contexts' phase' := by
  cases phase with
  | enter =>
      cases h
      exact .enter
  | countError previous =>
      cases h
      exact .countError previous
  | leave previous threw =>
      cases h
      exact .leave _ threw
  | countDelivered threw =>
      cases h
      split
      · exact .countDeliveredSlow threw
      · exact .countDelivered threw
  | countSlow threw =>
      cases h
      exact .countSlow threw
  | finish threw =>
      cases h
      split
      · exact .finishIdle threw
      · exact .finish threw
  | notifyIdle threw =>
      cases h
      exact .notifyIdle threw
  | running | done => cases h

variable [DecidableEq T]

/-- The thread is about to run the critical section of `enqueue_isolated`: for the first
time, or awake after it has waited. -/
def Entering (t : T) (s : SubscriberState T E) (phase : InvokePhase) : Prop :=
  phase = .lockMailbox ∨ (phase = .spaceParked ∧ t ∉ s.mailboxSpace)

/-- The steps of `try_invoke`. -/
inductive InvokeStep (flag : Bool) (t : T) (i : ℕ) (s : SubscriberState T E) (contexts : Contexts) (event : E) :
    InvokePhase → SubscriberState T E → Contexts → InvokePhase → Prop
  | offerMailbox (hisolated : s.options.delivery = .isolated) :
      InvokeStep flag t i s contexts event .offer s.countOffered contexts .lockMailbox
  | offerDirect (hdirect : s.options.delivery ≠ .isolated) :
      InvokeStep flag t i s contexts event .offer s.countOffered contexts .begin
  | park {phase : InvokePhase} (hphase : Entering t s phase)
      (hlossless : s.options.guarantee = .lossless) (haccepting : s.mailboxAccepting = true)
      (hfull : s.options.mailboxCapacity ≤ s.mailbox.length) :
      InvokeStep flag t i s contexts event phase { s with mailboxSpace := insert t s.mailboxSpace }
        contexts .spaceParked
  | overflow {phase : InvokePhase} (hphase : Entering t s phase)
      (hbestEffort : s.options.guarantee = .bestEffort)
      (hfull : s.mailbox.length = s.options.mailboxCapacity) :
      InvokeStep flag t i s contexts event phase ((s.countDropped 1).miss event) contexts (.done false)
  | refused {phase : InvokePhase} (hphase : Entering t s phase)
      (hclosed : s.mailboxAccepting = false) :
      InvokeStep flag t i s contexts event phase (s.countRejected.miss event) contexts (.done false)
  | copyThrew {phase : InvokePhase} (hphase : Entering t s phase) (hflag : flag = true)
      (haccepting : s.mailboxAccepting = true)
      (hroom : s.mailbox.length ≤ s.options.mailboxCapacity →
        s.mailbox.length < s.options.mailboxCapacity) :
      InvokeStep flag t i s contexts event phase (s.countRejected.miss event) contexts (.done true)
  | mail {phase : InvokePhase} (hphase : Entering t s phase)
      (haccepting : s.mailboxAccepting = true)
      (hroom : s.mailbox.length ≤ s.options.mailboxCapacity →
        s.mailbox.length < s.options.mailboxCapacity) :
      InvokeStep flag t i s contexts event phase (s.mail event) contexts .notifyReady
  | wake (hparked : t ∈ s.mailboxSpace) :
      InvokeStep flag t i s contexts event .spaceParked
        { s with mailboxSpace := s.mailboxSpace.erase t } contexts .spaceParked
  | notifyReady {waiter : Option T} {left : Finset T}
      (hnotify : notifyOne s.mailboxReady waiter = some left) :
      InvokeStep flag t i s contexts event .notifyReady { s with mailboxReady := left } contexts
        (.done false)
  | grantSerial (hactive : s.active = true) (hserial : s.options.delivery = .serialized) :
      InvokeStep flag t i s contexts event .begin s.grant contexts .lockSerial
  | grant (hactive : s.active = true) (hconcurrent : s.options.delivery ≠ .serialized) :
      InvokeStep flag t i s contexts event .begin s.grant contexts (.callback .enter)
  | inactive (hinactive : s.active = false) :
      InvokeStep flag t i s contexts event .begin s contexts .reject
  | reject :
      InvokeStep flag t i s contexts event .reject (s.countRejected.miss event) contexts (.done false)
  | lockSerial (hfree : s.serialCallback = none) :
      InvokeStep flag t i s contexts event .lockSerial { s with serialCallback := some t } contexts
        (.callback .enter)
  | callback {phase phase' : CallbackPhase} {s' : SubscriberState T E} {contexts' : Contexts}
      (hstep : CallbackStep i s contexts event phase s' contexts' phase') :
      InvokeStep flag t i s contexts event (.callback phase) s' contexts' (.callback phase')
  | unlockSerial (threw : Bool) (hserial : s.options.delivery = .serialized) :
      InvokeStep flag t i s contexts event (.callback (.done threw)) { s with serialCallback := none }
        contexts (.done threw)
  | callbackDone (threw : Bool) (hconcurrent : s.options.delivery ≠ .serialized) :
      InvokeStep flag t i s contexts event (.callback (.done threw)) s contexts (.done threw)

/-- The critical section of `enqueue_isolated`. -/
theorem enqueueIsolated_sound {t : T} {i : ℕ} {s : SubscriberState T E} {contexts : Contexts}
    {event : E} {flag : Bool} {phase : InvokePhase} (hphase : Entering t s phase) :
    InvokeStep flag t i s contexts event phase (enqueueIsolated t s event flag).1 contexts
      (enqueueIsolated t s event flag).2 := by
  unfold enqueueIsolated
  split
  · next hwait =>
      obtain ⟨hlossless, hnot⟩ := hwait
      have hboth := not_or.mp hnot
      exact .park hphase hlossless (by simpa using hboth.1) (Nat.le_of_not_lt hboth.2)
  · next hnowait =>
      split
      · next hover => exact .overflow hphase hover.1 hover.2
      · next hnover =>
          split
          · next hclosed => exact .refused hphase hclosed
          · next hopen =>
              have haccepting : s.mailboxAccepting = true := by simpa using hopen
              have hroom : s.mailbox.length ≤ s.options.mailboxCapacity →
                  s.mailbox.length < s.options.mailboxCapacity := by
                intro hle
                cases hguarantee : s.options.guarantee with
                | lossless =>
                    have hgo : s.mailboxAccepting = false ∨
                        s.mailbox.length < s.options.mailboxCapacity := by
                      by_contra hnot
                      exact hnowait ⟨hguarantee, hnot⟩
                    exact hgo.resolve_left hopen
                | bestEffort =>
                    refine lt_of_le_of_ne hle ?_
                    intro hfull
                    exact hnover ⟨hguarantee, hfull⟩
              split
              · next hflag => exact .copyThrew hphase hflag haccepting hroom
              · exact .mail hphase haccepting hroom

/-- So does `stepInvoke`. -/
theorem stepInvoke_sound {t : T} {i : ℕ} {s s' : SubscriberState T E}
    {contexts contexts' : Contexts} {event : E} {flag : Bool} {waiter : Option T}
    {phase phase' : InvokePhase}
    (h : stepInvoke t i s contexts event flag waiter phase = some (s', contexts', phase')) :
    InvokeStep flag t i s contexts event phase s' contexts' phase' := by
  cases phase with
  | offer =>
      cases h
      split
      · next hisolated => exact .offerMailbox hisolated
      · next hdirect => exact .offerDirect hdirect
  | lockMailbox =>
      cases h
      exact enqueueIsolated_sound (.inl rfl)
  | spaceParked =>
      simp only [stepInvoke] at h
      split at h
      · next hparked =>
          split at h <;> cases h
          exact .wake hparked
      · next hawake =>
          cases h
          exact enqueueIsolated_sound (.inr ⟨rfl, hawake⟩)
  | notifyReady =>
      obtain ⟨left, hnotify, heq⟩ := Option.map_eq_some_iff.mp h
      cases heq
      exact .notifyReady hnotify
  | begin =>
      simp only [stepInvoke] at h
      split at h
      · next hactive =>
          cases h
          split
          · next hserial => exact .grantSerial hactive hserial
          · next hconcurrent => exact .grant hactive hconcurrent
      · next hinactive =>
          cases h
          exact .inactive (by simpa using hinactive)
  | reject =>
      cases h
      exact .reject
  | lockSerial =>
      simp only [stepInvoke] at h
      split at h <;> cases h
      next hfree => exact .lockSerial hfree
  | callback phase =>
      by_cases hdone : ∃ threw, phase = .done threw
      · obtain ⟨threw, rfl⟩ := hdone
        cases h
        split
        · next hserial => exact .unlockSerial threw hserial
        · next hconcurrent => exact .callbackDone threw hconcurrent
      · have hstep : (stepCallback i s contexts event flag phase).map
            (fun r => (r.1, r.2.1, InvokePhase.callback r.2.2)) = some (s', contexts', phase') := by
          cases phase with
          | done threw => exact absurd ⟨threw, rfl⟩ hdone
          | _ => exact h
        obtain ⟨r, hr, heq⟩ := Option.map_eq_some_iff.mp hstep
        cases heq
        exact .callback (stepCallback_sound hr)
  | done => cases h

/-- The steps of `executor_loop`. -/
inductive ExecutorStep (t : T) (i : ℕ) (s : SubscriberState T E) (contexts : Contexts) :
    ExecutorPhase E → SubscriberState T E → Contexts → ExecutorPhase E → Prop
  | leave (hstopping : s.executorStopping = true)
      (hdone : s.drainMailbox = false ∨ s.mailbox = []) :
      ExecutorStep t i s contexts .lockMailbox s contexts .done
  | park (hrunning : s.executorStopping = false) (hempty : s.mailbox = []) :
      ExecutorStep t i s contexts .lockMailbox
        { s with mailboxReady := insert t s.mailboxReady } contexts .readyParked
  | take {event : E} {rest : List E} (hmailbox : s.mailbox = event :: rest)
      (hdrain : s.executorStopping = true → s.drainMailbox = true) :
      ExecutorStep t i s contexts .lockMailbox { s with mailbox := rest } contexts
        (.notifySpace event)
  | wake :
      ExecutorStep t i s contexts .readyParked
        { s with mailboxReady := s.mailboxReady.erase t } contexts .lockMailbox
  | notifySpace (event : E) {waiter : Option T} {left : Finset T}
      (hnotify : notifyOne s.mailboxSpace waiter = some left) :
      ExecutorStep t i s contexts (.notifySpace event) { s with mailboxSpace := left } contexts
        (.begin event)
  | grant (event : E) (hactive : s.active = true) :
      ExecutorStep t i s contexts (.begin event) s.grant contexts (.callback event .enter)
  | miss (event : E) (hinactive : s.active = false) :
      ExecutorStep t i s contexts (.begin event) (s.miss event) contexts .drop
  | drop : ExecutorStep t i s contexts .drop (s.countDropped 1) contexts .lockMailbox
  | callback {event : E} {phase phase' : CallbackPhase} {s' : SubscriberState T E}
      {contexts' : Contexts} (hstep : CallbackStep i s contexts event phase s' contexts' phase') :
      ExecutorStep t i s contexts (.callback event phase) s' contexts' (.callback event phase')
  | callbackDone (event : E) :
      ExecutorStep t i s contexts (.callback event (.done false)) s contexts .lockMailbox
  | callbackThrew (event : E) :
      ExecutorStep t i s contexts (.callback event (.done true)) s contexts .handler

/-- So does `stepExecutor`. -/
theorem stepExecutor_sound {t : T} {i : ℕ} {s s' : SubscriberState T E}
    {contexts contexts' : Contexts} {flag : Bool} {waiter : Option T}
    {phase phase' : ExecutorPhase E}
    (h : stepExecutor t i s contexts flag waiter phase = some (s', contexts', phase')) :
    ExecutorStep t i s contexts phase s' contexts' phase' := by
  cases phase with
  | lockMailbox =>
      simp only [stepExecutor] at h
      split at h
      · next hleave =>
          cases h
          exact .leave hleave.1 hleave.2
      · next hstay =>
          split at h
          · next hempty =>
              cases h
              refine .park ?_ hempty
              rw [← Bool.not_eq_true]
              exact fun hstopping => hstay ⟨hstopping, .inr hempty⟩
          · next event rest hmailbox =>
              cases h
              refine .take hmailbox ?_
              intro hstopping
              by_contra hdrain
              exact hstay ⟨hstopping, .inl (by simpa using hdrain)⟩
  | readyParked =>
      simp only [stepExecutor] at h
      split at h <;> cases h
      exact .wake
  | notifySpace event =>
      obtain ⟨left, hnotify, heq⟩ := Option.map_eq_some_iff.mp h
      cases heq
      exact .notifySpace event hnotify
  | begin event =>
      simp only [stepExecutor] at h
      split at h
      · next hactive =>
          cases h
          exact .grant event hactive
      · next hinactive =>
          cases h
          exact .miss event (by simpa using hinactive)
  | drop =>
      cases h
      exact .drop
  | callback event phase =>
      by_cases hdone : ∃ threw, phase = .done threw
      · obtain ⟨threw, rfl⟩ := hdone
        cases h
        cases threw with
        | true => exact .callbackThrew event
        | false => exact .callbackDone event
      · have hstep : (stepCallback i s contexts event flag phase).map
            (fun r => (r.1, r.2.1, ExecutorPhase.callback event r.2.2)) =
            some (s', contexts', phase') := by
          cases phase with
          | done threw => exact absurd ⟨threw, rfl⟩ hdone
          | _ => exact h
        obtain ⟨r, hr, heq⟩ := Option.map_eq_some_iff.mp hstep
        cases heq
        exact .callback (stepCallback_sound hr)
  | handler | done => cases h

/-- The steps of `stop_delivery(drain)`. -/
inductive StopStep (t : T) (s : SubscriberState T E) (finished : Finset T) (drain : Bool) :
    StopPhase → SubscriberState T E → StopPhase → Prop
  | direct (hdirect : s.options.delivery ≠ .isolated) :
      StopStep t s finished drain .lockMailbox s .done
  | stopMailbox (hisolated : s.options.delivery = .isolated) :
      StopStep t s finished drain .lockMailbox (s.stopMailbox drain) .notifyReady
  | notifyReady :
      StopStep t s finished drain .notifyReady { s with mailboxReady := ∅ } .notifySpace
  | notifySpace :
      StopStep t s finished drain .notifySpace { s with mailboxSpace := ∅ } .lockJoin
  | lockJoin (hfree : s.executorJoin = none) :
      StopStep t s finished drain .lockJoin { s with executorJoin := some t } .join
  | joinNone (hnone : s.executor = none) : StopStep t s finished drain .join s .unlockJoin
  | joinSelf (hself : s.executor = some t) : StopStep t s finished drain .join s .unlockJoin
  | joined {u : T} (hu : s.executor = some u) (hne : u ≠ t) (hfinished : u ∈ finished) :
      StopStep t s finished drain .join { s with executor := none } .unlockJoin
  | unlockJoin :
      StopStep t s finished drain .unlockJoin { s with executorJoin := none } .done

/-- So does `stepStop`. -/
theorem stepStop_sound {t : T} {s s' : SubscriberState T E} {finished : Finset T} {drain : Bool}
    {phase phase' : StopPhase} (h : stepStop t s finished drain phase = some (s', phase')) :
    StopStep t s finished drain phase s' phase' := by
  cases phase with
  | lockMailbox =>
      simp only [stepStop] at h
      split at h
      · next hisolated =>
          cases h
          exact .stopMailbox hisolated
      · next hdirect =>
          cases h
          exact .direct hdirect
  | notifyReady =>
      cases h
      exact .notifyReady
  | notifySpace =>
      cases h
      exact .notifySpace
  | lockJoin =>
      simp only [stepStop] at h
      split at h <;> cases h
      next hfree => exact .lockJoin hfree
  | join =>
      simp only [stepStop] at h
      split at h
      · next hnone =>
          cases h
          exact .joinNone hnone
      · next u hu =>
          split at h
          · next heq =>
              cases h
              subst heq
              exact .joinSelf hu
          · next hne =>
              split at h
              · next hfinished =>
                  cases h
                  exact .joined hu hne hfinished
              · cases h
  | unlockJoin =>
      cases h
      exact .unlockJoin
  | done => cases h

end EventDispatcher
