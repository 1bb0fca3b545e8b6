import EventDispatcher.Lib.CondVar
import EventDispatcher.Dispatcher.Lifecycle
import EventDispatcher.Dispatcher.Invocations
import EventDispatcher.Dispatcher.ShutdownGuard

/-!
# The waits of the callers

`shutdown` waits on `lifecycle_changed_` for the call that is bringing the dispatcher down, and
`unsubscribe` waits on `no_callbacks_` for the invocations of its subscriber.  Both are woken by a
`notify_all` that comes after the critical section that ended the wait, so a thread can be parked
although it might go on.  Then another thread is already on its way to wake it: both variables
follow the moves of `CondVar`.
-/

namespace EventDispatcher

open Transition SubscriberState

variable {T E : Type} {Q : QueuePolicy T (Publication E)}

/-- `lifecycle_changed_`; the two stopping states keep a `shutdown` call there. -/
def DispatcherMem.changedVar (m : DispatcherMem Q) : CondVar T :=
  ⟨m.life.changed, m.life.state.stopping = true⟩

/-- `no_callbacks_`; the invocations under way keep an `unsubscribe` there. -/
def SubscriberState.idleVar (s : SubscriberState T E) : CondVar T :=
  ⟨s.noCallbacks, s.inFlight ≠ 0⟩

/-- `no_callbacks_` of subscriber `i`. -/
def DispatcherMem.idleVar (i : ℕ) (m : DispatcherMem Q) : CondVar T := (m.subs i).idleVar

/-- The part that a `shutdown` call plays for `lifecycle_changed_`. -/
def ShutdownPhase.changedRole : ShutdownPhase T → CondRole
  | .changedParked => .parked
  | .notifyChanged => .signalling
  | _ => .away

/-- What the frame has to do with `lifecycle_changed_`. -/
def Frame.changedRole : Frame T E → CondRole
  | .shutdown _ phase => phase.changedRole
  | _ => .away

/-- The part that a callback plays for `no_callbacks_`. -/
def CallbackPhase.idleRole : CallbackPhase → CondRole
  | .notifyIdle _ => .signalling
  | _ => .away

/-- The part that `try_invoke` plays for `no_callbacks_`. -/
def InvokePhase.idleRole : InvokePhase → CondRole
  | .callback phase => phase.idleRole
  | _ => .away

/-- The part that an executor plays for `no_callbacks_`. -/
def ExecutorPhase.idleRole : ExecutorPhase E → CondRole
  | .callback _ phase => phase.idleRole
  | _ => .away

/-- The part that an `unsubscribe` call plays for `no_callbacks_`. -/
def UnsubscribePhase.idleRole : UnsubscribePhase → CondRole
  | .idleParked => .parked
  | _ => .away

/-- What the frame has to do with `no_callbacks_` of subscriber `i`. -/
def Frame.idleRole (i : ℕ) : Frame T E → CondRole
  | .worker (.invoke _ _ _ _ j phase) => if j = i then phase.idleRole else .away
  | .executor j phase => if j = i then phase.idleRole else .away
  | .invoke j _ phase => if j = i then phase.idleRole else .away
  | .unsubscribe j phase => if j = i then phase.idleRole else .away
  | _ => .away

/-- The role of a frame that may be missing. -/
def nextRole {F : Type} (role : F → CondRole) (f : Option F) : CondRole :=
  (f.map role).getD .away

/-- The role of a thread is the role of its top frame. -/
def topRole (role : Frame T E → CondRole) (l : ThreadLoc Q) : CondRole :=
  nextRole role l.stack.head?

/-- The state `stopping` or later. -/
def LifecycleState.Ending (state : LifecycleState) : Prop :=
  state.stopping = true ∨ state = .stopped

/-- Nobody waits for idleness inside a callback of the same frame. -/
theorem CallbackPhase.idleRole_ne_parked (phase : CallbackPhase) : phase.idleRole ≠ .parked := by
  cases phase <;> simp [CallbackPhase.idleRole]

theorem InvokePhase.idleRole_ne_parked (phase : InvokePhase) : phase.idleRole ≠ .parked := by
  cases phase with
  | callback phase => exact phase.idleRole_ne_parked
  | _ => simp [InvokePhase.idleRole]

theorem ExecutorPhase.idleRole_ne_parked (phase : ExecutorPhase (Publication E)) :
    phase.idleRole ≠ .parked := by
  cases phase with
  | callback event phase => exact phase.idleRole_ne_parked
  | _ => simp [ExecutorPhase.idleRole]

/-- A callback is one invocation. -/
theorem CallbackPhase.held_le_one (phase : CallbackPhase) : phase.held ≤ 1 := by
  cases phase <;> simp [CallbackPhase.held]

/-- `try_invoke` holds one invocation at most. -/
theorem InvokePhase.held_le_one (phase : InvokePhase) : phase.held ≤ 1 := by
  cases phase with
  | callback phase => exact phase.held_le_one
  | _ => simp [InvokePhase.held]

/-- An executor holds one invocation at most. -/
theorem ExecutorPhase.held_le_one (phase : ExecutorPhase (Publication E)) : phase.held ≤ 1 := by
  cases phase with
  | callback event phase => exact phase.held_le_one
  | _ => simp [ExecutorPhase.held]

section Steps

variable [DecidableEq T] {s s' : SubscriberState T E} {contexts contexts' : Contexts}
  {flag : Bool} {t : T} {i : ℕ}

/-- `try_invoke` takes no step once it has returned. -/
theorem InvokeStep.not_done {event : E} {phase phase' : InvokePhase}
    (h : InvokeStep flag t i s contexts event phase s' contexts' phase') (threw : Bool) :
    phase ≠ .done threw := by
  intro hdone
  cases h with
  | park hphase | overflow hphase | refused hphase | copyThrew hphase | mail hphase =>
      simp [Entering, hdone] at hphase
  | _ => cases hdone

/-- An executor takes no step once it has left its loop. -/
theorem ExecutorStep.not_done {phase phase' : ExecutorPhase E}
    (h : ExecutorStep t i s contexts phase s' contexts' phase') : phase ≠ .done := by
  cases h <;> simp

end Steps

/-- A variable of the dispatcher that user code and the queue have nothing to do with. -/
structure Monitored (role : Frame T E → CondRole) (var : DispatcherMem Q → CondVar T) : Prop where
  user : ∀ f : Frame T E, f.user = true → role f = .away
  inQueue : ∀ f : Frame T E, f.inQueue = true → role f = .away
  finished : ∀ (f f' : Frame T E) threw, f.finishUser threw = some f' → role f' = .away
  start : ∀ i, role (.executor i .lockMailbox) = .away
  entered : ∀ (m m' : DispatcherMem Q) call f, Dispatcher.enter m call = some (m', f) →
    role f = .away ∧ var m' = var m
  constructed : ∀ m : DispatcherMem Q, m.life.state = .created →
    var (m.setLifecycle .running) = var m
  threads : ∀ (m : DispatcherMem Q) threads, var { m with threads := threads } = var m
  queue : ∀ (m : DispatcherMem Q) queue accepted destroyed,
    var (m.setQueue queue accepted destroyed) = var m

namespace Dispatcher

section Roles

/-- User code has no part in either condition variable. -/
theorem user_roles {f : Frame T E} (h : f.user = true) :
    f.changedRole = .away ∧ ∀ i, f.idleRole i = .away := by
  unfold Frame.user at h
  split at h <;> first | exact ⟨rfl, fun i => ite_self _⟩ | exact ⟨rfl, fun _ => rfl⟩ | cases h

/-- Nor has a frame inside the queue. -/
theorem inQueue_roles {f : Frame T E} (h : f.inQueue = true) :
    f.changedRole = .away ∧ ∀ i, f.idleRole i = .away := by
  unfold Frame.inQueue at h
  split at h <;> first | exact ⟨rfl, fun _ => rfl⟩ | cases h

/-- Nor has a frame that user code has just returned to. -/
theorem finishUser_roles {f f' : Frame T E} {threw : Bool} (h : f.finishUser threw = some f') :
    f'.changedRole = .away ∧ ∀ i, f'.idleRole i = .away := by
  unfold Frame.finishUser at h
  split at h <;> cases h <;> cases threw <;>
    first | exact ⟨rfl, fun i => ite_self _⟩ | exact ⟨rfl, fun _ => rfl⟩

/-- Nor has a call that has just been made. -/
theorem enter_roles {m m' : DispatcherMem Q} {call : Call T E} {f : Frame T E}
    (h : enter m call = some (m', f)) :
    f.changedRole = .away ∧ ∀ i, f.idleRole i = .away := by
  cases call with
  | unsubscribe i | invoke i event =>
      simp only [enter] at h
      split at h <;> cases h
      exact ⟨rfl, fun i => ite_self _⟩
  | _ =>
      cases h
      exact ⟨rfl, fun _ => rfl⟩

/-- What touches `lifecycle_changed_` and the state that it guards. -/
theorem changedVar_monitored :
    Monitored (Q := Q) (Frame.changedRole (E := E)) DispatcherMem.changedVar where
  user _ h := (user_roles h).1
  inQueue _ h := (inQueue_roles h).1
  finished _ _ _ h := (finishUser_roles h).1
  start _ := rfl
  entered m m' call f h := by
    refine ⟨(enter_roles h).1, ?_⟩
    unfold DispatcherMem.changedVar
    rw [(enter_apart h).2]
  constructed m h := by
    unfold DispatcherMem.changedVar
    rw [h]
    rfl
  threads _ _ := rfl
  queue _ _ _ _ := rfl

/-- What touches `no_callbacks_` and the counter that it guards. -/
theorem idleVar_monitored (i : ℕ) :
    Monitored (Q := Q) (Frame.idleRole (E := E) i) (DispatcherMem.idleVar i) where
  user _ h := (user_roles h).2 i
  inQueue _ h := (inQueue_roles h).2 i
  finished _ _ _ h := (finishUser_roles h).2 i
  start _ := ite_self _
  entered m m' call f h := by
    refine ⟨(enter_roles h).2 i, ?_⟩
    unfold DispatcherMem.idleVar
    rw [(enter_holds h i).2]
  constructed _ _ := rfl
  threads _ _ := rfl
  queue _ _ _ _ := rfl

end Roles

variable [DecidableEq T] {setup : Setup T} {t : T} {m m' : DispatcherMem Q} {l l' : ThreadLoc Q}
  {c : DispatcherChoice Q}

omit [DecidableEq T] in
/-- The part of a thread is that of its top frame. -/
theorem topRole_cons {role : Frame T E → CondRole} {f : Frame T E} {rest : List (Frame T E)}
    (hstack : l.stack = f :: rest) : topRole role l = role f := by
  rw [topRole, hstack]
  rfl

omit [DecidableEq T] in
/-- A stack whose frames all stand in user code. -/
theorem nextRole_user {role : Frame T E → CondRole} {var : DispatcherMem Q → CondVar T}
    (hvar : Monitored role var) {stack : List (Frame T E)} (huser : ∀ f ∈ stack, f.user = true) :
    nextRole role stack.head? = .away := by
  cases stack with
  | nil => rfl
  | cons f rest => exact hvar.user f (huser f List.mem_cons_self)

/-- **Step rule**: a variable moves as the top frame moves it. -/
theorem condMove_of_frame {role : Frame T E → CondRole} {var : DispatcherMem Q → CondVar T}
    (hvar : Monitored role var) (hl : InOrder l) (hstep : step setup t c m l = some (m', l'))
    (hframe : ∀ {q' contexts' flag thread f f' rest}, l.stack = f :: rest →
      stepFrame setup t m l.queue l.contexts flag thread f = some (m', q', contexts', f') →
      CondMove t (var m) (role f) (var m') (nextRole role f')) :
    CondMove t (var m) (topRole role l) (var m') (topRole role l') := by
  have hquiet : topRole role l = .away → topRole role l' = .away → var m' = var m →
      CondMove t (var m) (topRole role l) (var m') (topRole role l') := by
    intro hbefore hafter hsame
    rw [hbefore, hafter, hsame]
    exact .quiet rfl id
  have hempty : l.stack = [] → topRole role l = .away := by
    intro hstack
    rw [topRole, hstack]
    rfl
  cases step_shape hstep with
  | constructed hstack hclient hcreated =>
      exact hquiet (hempty hstack) (hempty hstack) (hvar.constructed m hcreated)
  | start hstack hentry => exact hquiet (hempty hstack) (hvar.start _) (hvar.threads m _)
  | call huser henter =>
      obtain ⟨hnew, hsame⟩ := hvar.entered _ _ _ _ henter
      refine hquiet ?_ hnew hsame
      cases hstack : l.stack with
      | nil => exact hempty hstack
      | cons f rest =>
          rw [hstack] at huser
          rw [topRole_cons hstack]
          exact hvar.user f huser
  | finish hstack hfinish =>
      refine hquiet ?_ (hvar.finished _ _ _ hfinish) rfl
      rw [topRole_cons hstack]
      refine hvar.user _ ?_
      unfold Frame.finishUser at hfinish
      split at hfinish <;> first | rfl | cases hfinish
  | @frame _ _ _ _ _ f f' rest hstack hmove =>
      simp only [step, hstack, Option.map_eq_some_iff] at hstep
      obtain ⟨⟨m₁, q₁, contexts₁, f₁⟩, hr, heq⟩ := hstep
      obtain ⟨rfl, hloc⟩ := Prod.mk.inj heq
      have hnext := List.append_cancel_right (congrArg ThreadLoc.stack hloc)
      obtain rfl : f₁ = f' := by
        cases f₁ <;> cases f' <;> simp_all
      rw [topRole_cons hstack]
      have hmoved := hframe hstack hr
      cases f₁ with
      | some g => exact hmoved
      | none =>
          have hsuspended := hl.suspended
          rw [hstack] at hsuspended
          rw [show topRole role _ = .away from nextRole_user hvar hsuspended]
          exact hmoved
  | queue hstack hin hbusy hq =>
      have haway : topRole role l = .away := by rw [topRole_cons hstack, hvar.inQueue _ hin]
      exact hquiet haway haway (hvar.queue _ _ _ _)

section Changed

variable {q q' : Q.Loc} {contexts contexts' : Contexts} {flag : Bool} {thread : Option T}
  {f : Frame T E} {f' : Option (Frame T E)}

/-- `shutdown` looks at the state, for the first time. -/
theorem lockLifecycle_changed {policy : ShutdownPolicy} {phase' : Option (ShutdownPhase T)}
    (h : stepShutdown setup.workers t m q contexts policy flag .lockLifecycle =
      some (m', q', phase')) :
    CondMove t m.changedVar .away m'.changedVar (nextRole ShutdownPhase.changedRole phase') := by
  simp only [stepShutdown] at h
  split at h
  · split at h
    · cases h
      exact .quiet rfl id
    · split at h
      · next hstopping =>
          cases h
          refine .park (by simp) rfl ?_
          obtain hstopping | hstopping := hstopping <;>
            simp [DispatcherMem.changedVar, hstopping, LifecycleState.stopping]
      · cases h
        exact .quiet rfl fun _ => stopping_stopping policy
  · cases h

/-- `shutdown` waits, and looks again. -/
theorem changedParked_changed {policy : ShutdownPolicy} {phase' : Option (ShutdownPhase T)}
    (hending : m.life.state.Ending)
    (h : stepShutdown setup.workers t m q contexts policy flag .changedParked =
      some (m', q', phase')) :
    CondMove t m.changedVar .parked m'.changedVar (nextRole ShutdownPhase.changedRole phase') := by
  simp only [stepShutdown] at h
  split at h
  · split at h
    · cases h
      exact .wake rfl id (by simp [nextRole, ShutdownPhase.changedRole])
    · cases h
  · next hnotified =>
      split at h
      · split at h
        · cases h
          exact .leave hnotified rfl id
        · next hstopped =>
            cases h
            exact .park (by simp) rfl (hending.resolve_right hstopped)
      · cases h

/-- The other steps block the variable at most, or are those of the call that has stored
`stopped`. -/
theorem changed_cases (h : FrameStep setup flag t m q contexts f m' q' contexts' f') :
    (∃ policy phase, f = .shutdown policy phase ∧
        (phase = .lockLifecycle ∨ phase = .changedParked)) ∨
      CondMove t m.changedVar f.changedRole m'.changedVar (nextRole Frame.changedRole f') := by
  have hquiet : f.changedRole = .away → nextRole Frame.changedRole f' = .away →
      m'.life = m.life →
      CondMove t m.changedVar f.changedRole m'.changedVar (nextRole Frame.changedRole f') := by
    intro hbefore hafter hlife
    rw [hbefore, hafter, DispatcherMem.changedVar, DispatcherMem.changedVar, hlife]
    exact .quiet rfl id
  cases h with
  | invoke hframe hstep => cases hframe <;> exact .inr (hquiet rfl rfl rfl)
  | stop hframe hstep => cases hframe <;> exact .inr (hquiet rfl rfl rfl)
  | publishCounted | publishNext | deactivate | deactivateAgain =>
      exact .inr (hquiet rfl rfl (by simp))
  | subscribeLock | subscribeRefused | subscribeReturned => exact .inr (.quiet rfl id)
  | shutdownStopped policy | shutdownWait policy | shutdownBegin policy =>
      exact .inl ⟨policy, _, rfl, .inl rfl⟩
  | shutdownWoken policy | shutdownWaitOn policy => exact .inl ⟨policy, _, rfl, .inr rfl⟩
  | storeStopped => exact .inr (.unblock rfl)
  | notifyChanged => exact .inr (.notifyAll rfl)
  | _ => exact .inr (hquiet rfl rfl rfl)

/-- **Step lemma** for `lifecycle_changed_`. -/
theorem stepFrame_changed (hending : f.changedRole = .parked → m.life.state.Ending)
    (h : stepFrame setup t m q contexts flag thread f = some (m', q', contexts', f')) :
    CondMove t m.changedVar f.changedRole m'.changedVar (nextRole Frame.changedRole f') := by
  obtain ⟨policy, phase, rfl, hphase⟩ | hmove := changed_cases (stepFrame_sound h)
  · obtain ⟨r, hr, heq⟩ := Option.map_eq_some_iff.mp h
    cases heq
    have hnext : nextRole Frame.changedRole (r.2.2.map (Frame.shutdown (E := E) policy)) =
        nextRole ShutdownPhase.changedRole r.2.2 := by
      cases r.2.2 <;> rfl
    rw [hnext]
    obtain rfl | rfl := hphase
    · exact lockLifecycle_changed hr
    · exact changedParked_changed (hending rfl) hr
  · exact hmove

end Changed

/-- The dispatcher does not come back from `stopping`. -/
theorem StepShape.ending (h : StepShape setup t m l c m' l') (hending : m.life.state.Ending) :
    m'.life.state.Ending := by
  obtain hlife | ⟨hcreated, _, _⟩ | ⟨flag, f, f', rest, q, q', contexts, contexts', _, _, hstep⟩ :=
    h.life_cases
  · rw [hlife]
    exact hending
  · rw [hcreated] at hending
    simp [LifecycleState.Ending, LifecycleState.stopping] at hending
  · obtain hsame | ⟨_, _, policy, _, hstate, _⟩ | ⟨_, hstate, _⟩ := hstep.state_cases
    · rw [hsame]
      exact hending
    · rw [hstate]
      exact .inl (stopping_stopping policy)
    · exact .inr hstate

section Idle

variable {q q' : Q.Loc} {contexts contexts' : Contexts} {flag : Bool} {thread : Option T}
  {f : Frame T E} {f' : Option (Frame T E)} {i : ℕ}

/-- `execute_callback` on `no_callbacks_`: whoever takes the counter to zero signals. -/
theorem stepCallback_idle {s s' : SubscriberState T E} {event : E} {phase phase' : CallbackPhase}
    (h : stepCallback i s contexts event flag phase = some (s', contexts', phase')) :
    CondMove t s.idleVar phase.idleRole s'.idleVar phase'.idleRole := by
  cases phase with
  | running | done => cases h
  | countDelivered threw =>
      cases h
      split <;> exact .quiet rfl id
  | finish threw =>
      cases h
      split
      · exact .unblock rfl
      · next hbusy => exact .quiet rfl fun _ => hbusy
  | notifyIdle threw =>
      cases h
      exact .notifyAll rfl
  | _ =>
      cases h
      exact .quiet rfl id

/-- `begin_invocation` leaves `no_callbacks_` in order: the counter only grows. -/
theorem grant_idle {s : SubscriberState T E} (hpos : 0 ≤ s.inFlight) :
    CondMove t s.idleVar .away s.grant.idleVar .away := by
  refine .quiet rfl ?_
  intro hbusy
  have hbusy : s.inFlight ≠ 0 := hbusy
  change s.inFlight + 1 ≠ 0
  omega

/-- A step of `try_invoke`, seen from `no_callbacks_`. -/
theorem stepInvoke_idle {s s' : SubscriberState T E} {event : E} {phase phase' : InvokePhase}
    (hpos : 0 ≤ s.inFlight)
    (h : stepInvoke t i s contexts event flag thread phase = some (s', contexts', phase')) :
    CondMove t s.idleVar phase.idleRole s'.idleVar phase'.idleRole := by
  cases stepInvoke_sound h with
  | callback hstep =>
      cases hstep <;>
        · simp only [stepInvoke, Option.map_eq_some_iff] at h
          obtain ⟨r, hr, heq⟩ := h
          have hmove := stepCallback_idle (t := t) hr
          simp only [Prod.mk.injEq, InvokePhase.callback.injEq] at heq
          rw [heq.1, heq.2.2] at hmove
          exact hmove
  | grantSerial | grant => exact grant_idle hpos
  | park hphase | overflow hphase | refused hphase | copyThrew hphase | mail hphase =>
      obtain rfl | ⟨rfl, _⟩ := hphase <;> exact .quiet rfl id
  | _ => exact .quiet rfl id

/-- A step of the executor, seen from `no_callbacks_`. -/
theorem stepExecutor_idle {s s' : SubscriberState T E} {phase phase' : ExecutorPhase E}
    (hpos : 0 ≤ s.inFlight)
    (h : stepExecutor t i s contexts flag thread phase = some (s', contexts', phase')) :
    CondMove t s.idleVar phase.idleRole s'.idleVar phase'.idleRole := by
  cases stepExecutor_sound h with
  | callback hstep =>
      cases hstep <;>
        · simp only [stepExecutor, Option.map_eq_some_iff] at h
          obtain ⟨r, hr, heq⟩ := h
          have hmove := stepCallback_idle (t := t) hr
          simp only [Prod.mk.injEq, ExecutorPhase.callback.injEq] at heq
          rw [heq.1, heq.2.2.2] at hmove
          exact hmove
  | grant => exact grant_idle hpos
  | _ => exact .quiet rfl id

omit [DecidableEq T] in
/-- A write to one subscriber does not touch the condition variable of another. -/
@[simp] theorem idleVar_setSub (m : DispatcherMem Q) (j i : ℕ)
    (s : SubscriberState T (Publication E)) :
    (m.setSub j s).idleVar i = if j = i then s.idleVar else m.idleVar i := by
  unfold DispatcherMem.idleVar
  by_cases hij : j = i
  · subst hij
    simp
  · simp [hij, Function.update_of_ne (Ne.symm hij)]

/-- A move of subscriber `j`, as subscriber `i` sees it. -/
theorem condMove_setSub {j : ℕ} {s : SubscriberState T (Publication E)} {r r' : CondRole}
    (h : CondMove t (m.subs j).idleVar r s.idleVar r') :
    CondMove t (m.idleVar i) (if j = i then r else .away) ((m.setSub j s).idleVar i)
      (if j = i then r' else .away) := by
  rw [idleVar_setSub]
  by_cases hij : j = i
  · subst hij
    simp only [if_true]
    exact h
  · simp only [hij, if_false]
    exact .quiet rfl id

/-- A step that leaves `no_callbacks_` and the counter alone. -/
theorem condMove_same {j : ℕ} {s : SubscriberState T (Publication E)}
    (hwaiters : s.noCallbacks = (m.subs j).noCallbacks)
    (hinFlight : s.inFlight = (m.subs j).inFlight) :
    CondMove t (m.idleVar i) .away ((m.setSub j s).idleVar i) .away := by
  have hsame : s.idleVar = (m.subs j).idleVar := by
    rw [SubscriberState.idleVar, SubscriberState.idleVar, hwaiters, hinFlight]
  have hmove : CondMove t (m.subs j).idleVar .away s.idleVar .away := by
    rw [hsame]
    exact .quiet rfl id
  simpa using condMove_setSub (i := i) hmove

omit [DecidableEq T] in
/-- `stop_delivery` touches neither the waiters nor the counter. -/
theorem stopStep_idle {s s' : SubscriberState T E} {finished : Finset T} {drain : Bool}
    {phase phase' : StopPhase} (h : StopStep t s finished drain phase s' phase') :
    s'.noCallbacks = s.noCallbacks ∧ s'.inFlight = s.inFlight := by
  cases h with
  | stopMailbox =>
      unfold SubscriberState.stopMailbox
      split <;> exact ⟨rfl, rfl⟩
  | _ => exact ⟨rfl, rfl⟩

/-- A step inside `try_invoke`, back from the frame to the subscriber. -/
theorem stepFrame_invoke {j : ℕ} {event : Publication E} {F : InvokePhase → Frame T E}
    {phase : InvokePhase} (hF : InvokeFrame j event F) (hphase : ∀ threw, phase ≠ .done threw)
    (h : stepFrame setup t m q contexts flag thread (F phase) = some (m', q', contexts', f')) :
    ∃ s phase', stepInvoke t j (m.subs j) contexts event flag thread phase =
        some (s, contexts', phase') ∧ m' = m.invokeSub j s ∧ f' = some (F phase') := by
  cases hF with
  | worker snapshot subs events =>
      cases phase with
      | done threw => exact absurd rfl (hphase threw)
      | _ =>
          simp only [stepFrame, stepWorker, Option.map_eq_some_iff] at h
          obtain ⟨_, ⟨r, hr, rfl⟩, heq⟩ := h
          cases heq
          exact ⟨_, _, hr, rfl, rfl⟩
  | direct =>
      cases phase with
      | done threw => exact absurd rfl (hphase threw)
      | _ =>
          simp only [stepFrame, Option.map_eq_some_iff] at h
          obtain ⟨r, hr, heq⟩ := h
          cases heq
          exact ⟨_, _, hr, rfl, rfl⟩

/-- A step of an executor frame is a step of the executor of its subscriber. -/
theorem stepFrame_executor {j : ℕ} {phase : ExecutorPhase (Publication E)} (hphase : phase ≠ .done)
    (h : stepFrame setup t m q contexts flag thread (.executor j phase) =
      some (m', q', contexts', f')) :
    ∃ s phase', stepExecutor t j (m.subs j) contexts flag thread phase =
        some (s, contexts', phase') ∧ m' = m.invokeSub j s ∧ f' = some (.executor j phase') := by
  cases phase with
  | done => exact absurd rfl hphase
  | _ =>
      simp only [stepFrame, Option.map_eq_some_iff] at h
      obtain ⟨r, hr, heq⟩ := h
      cases heq
      exact ⟨_, _, hr, rfl, rfl⟩

/-- **Step lemma** for `no_callbacks_`. -/
theorem stepFrame_idle (hm : Known m) (hpos : ∀ j, 0 ≤ (m.subs j).inFlight)
    (h : stepFrame setup t m q contexts flag thread f = some (m', q', contexts', f')) :
    CondMove t (m.idleVar i) (f.idleRole i) (m'.idleVar i) (nextRole (Frame.idleRole i) f') := by
  have hquiet : f.idleRole i = .away → nextRole (Frame.idleRole i) f' = .away →
      m'.subs i = m.subs i →
      CondMove t (m.idleVar i) (f.idleRole i) (m'.idleVar i) (nextRole (Frame.idleRole i) f') := by
    intro hbefore hafter hsubs
    rw [hbefore, hafter, DispatcherMem.idleVar, DispatcherMem.idleVar, hsubs]
    exact .quiet rfl id
  cases stepFrame_sound h with
  | invoke hframe hstep =>
      obtain ⟨s, phase', hr, hmem, hnext⟩ := stepFrame_invoke hframe hstep.not_done h
      have hmove := condMove_setSub (i := i) (stepInvoke_idle (hpos _) hr)
      rw [hmem, hnext]
      cases hframe <;> exact hmove
  | executor hstep =>
      obtain ⟨s, phase', hr, hmem, hnext⟩ := stepFrame_executor hstep.not_done h
      have hmove := condMove_setSub (i := i) (stepExecutor_idle (hpos _) hr)
      rw [hmem, hnext]
      exact hmove
  | stop hframe hstep =>
      obtain ⟨hwaiters, hinFlight⟩ := stopStep_idle hstep
      have hmove := condMove_same (t := t) (i := i) hwaiters hinFlight
      cases hframe with
      | unsubscribe self => simpa [Frame.idleRole, nextRole, UnsubscribePhase.idleRole] using hmove
      | shutdown policy todo => exact hmove
  | subscribeConstruct callback options hvalid =>
      have hfresh := hm.fresh m.registry.nextId le_rfl
      have hsame : m.allocateId.subs m.registry.nextId = { options := {} } := hfresh
      refine condMove_same (m := m.allocateId) ?_ ?_
      · rw [hsame]
      · rw [hsame]
  | subscribeSpawn => exact condMove_same rfl rfl
  | deactivate j | deactivateAgain j =>
      have hmove := condMove_same (m := m) (t := t) (i := i) (j := j)
        (s := (m.subs j).deactivate) rfl rfl
      simpa [Frame.idleRole, nextRole, UnsubscribePhase.idleRole, DispatcherMem.idleVar] using hmove
  | idlePark j hbusy => exact condMove_setSub (.park (by simp [UnsubscribePhase.idleRole]) rfl hbusy)
  | idleWake j => exact condMove_setSub (.wake rfl id (by simp [UnsubscribePhase.idleRole]))
  | publishCounted | publishNext => exact hquiet rfl rfl (by simp)
  | nextSub | invoked | invokeThrew | invokeReturned | executorDone | retireLock | retireFound |
    retireAbsent | retireFailed | retireKeep | retireSkip | retireStore | retireUnlock |
    selfReturned | stopDone | idleReturned =>
      refine hquiet ?_ ?_ rfl <;> simp [Frame.idleRole, nextRole, InvokePhase.idleRole,
        ExecutorPhase.idleRole, UnsubscribePhase.idleRole]
  | _ => exact hquiet rfl rfl rfl

end Idle

section Run

variable {s : Config T (DispatcherMem Q) (ThreadLoc Q)}
  {ok : Config T (DispatcherMem Q) (ThreadLoc Q) → T × DispatcherChoice Q → Prop}

/-- The roles of the threads. -/
def rolesOf (role : Frame T E → CondRole) (loc : T → ThreadLoc Q) (t : T) : CondRole :=
  topRole role (loc t)

/-- Only the part of the moving thread changes. -/
theorem rolesOf_update (role : Frame T E → CondRole) (loc : T → ThreadLoc Q) (t : T)
    (l : ThreadLoc Q) : rolesOf role (Function.update loc t l) =
      Function.update (rolesOf role loc) t (topRole role l) := by
  funext u
  exact Function.apply_update (fun _ => topRole role) loc t l u

/-- At the start nobody has a part. -/
theorem started_roles {role : Frame T E → CondRole} (hworker : role (.worker (.callPop [])) = .away)
    (t : T) : rolesOf role (started setup Q).loc t = .away := by
  simp only [rolesOf, topRole, started]
  split
  · exact hworker
  · rfl

/-- The invariant of `lifecycle_changed_`. -/
structure ChangedInv (s : Config T (DispatcherMem Q) (ThreadLoc Q)) : Prop where
  var : s.mem.changedVar.Inv (rolesOf Frame.changedRole s.loc)
  ending : ∀ t, rolesOf Frame.changedRole s.loc t = .parked → s.mem.life.state.Ending

/-- **Run lemma** for `lifecycle_changed_`. -/
theorem changedInv_reach : ∀ s, (system setup Q).Reach ok s → ChangedInv s := by
  refine interleave_invariant ?_ ?_
  · intro s hs
    rw [show s = _ from hs]
    refine ⟨⟨by simp [started, DispatcherMem.changedVar], ?_⟩, ?_⟩
    · intro hwaiting
      exact absurd rfl hwaiting.ne_empty
    · intro t hparked
      rw [started_roles rfl] at hparked
      cases hparked
  · intro s t c m l hs hinv _ hstep
    have hmove := condMove_of_frame changedVar_monitored (inOrder_reach s hs t) hstep ?_
    · refine ⟨?_, ?_⟩
      · simp only
        rw [rolesOf_update]
        exact hinv.var.step hmove
      · intro u hparked
        simp only at hparked ⊢
        rw [rolesOf_update] at hparked
        by_cases hut : u = t
        · subst hut
          rw [Function.update_self] at hparked
          rw [hparked] at hmove
          obtain hstopping | hbefore := CondVar.parked_cases hmove
          · exact .inl hstopping
          · exact (step_shape hstep).ending (hinv.ending u hbefore)
        · rw [Function.update_of_ne hut] at hparked
          exact (step_shape hstep).ending (hinv.ending u hparked)
    · intro q' contexts' flag thread f f' rest hstack hframe
      refine stepFrame_changed ?_ hframe
      intro hparked
      refine hinv.ending t ?_
      rw [rolesOf, topRole_cons hstack, hparked]

/-- **Run lemma** for `no_callbacks_`. -/
theorem idleInv_reach [Fintype T] (i : ℕ) : ∀ s, (system setup Q).Reach ok s →
    (s.mem.idleVar i).Inv (rolesOf (Frame.idleRole i) s.loc) := by
  refine interleave_invariant ?_ ?_
  · intro s hs
    rw [show s = _ from hs]
    refine ⟨by simp [started, DispatcherMem.idleVar, SubscriberState.idleVar], ?_⟩
    intro hwaiting
    exact absurd rfl hwaiting.ne_empty
  · intro s t c m l hs hinv _ hstep
    have hmove := condMove_of_frame (idleVar_monitored i) (inOrder_reach s hs t) hstep ?_
    · simp only
      rw [rolesOf_update]
      exact hinv.step hmove
    · intro q' contexts' flag thread f f' rest _ hframe
      refine stepFrame_idle (allotted_reach s hs).mem ?_ hframe
      intro j
      rw [(invocationInv_reach s hs).counted j]
      exact Int.natCast_nonneg _

omit [DecidableEq T] in
/-- A thread with a role stands on top of its stack. -/
theorem exists_top {role : Frame T E → CondRole} {loc : T → ThreadLoc Q}
    (h : rolesOf role loc t ≠ .away) :
    ∃ f rest, (loc t).stack = f :: rest ∧ role f = rolesOf role loc t := by
  unfold rolesOf topRole at *
  cases hstack : (loc t).stack with
  | nil =>
      rw [hstack] at h
      exact absurd rfl h
  | cons f rest => exact ⟨f, rest, rfl, rfl⟩

variable [Fintype T]

omit [DecidableEq T] in
/-- While the dispatcher is stopping, a call is bringing it down. -/
theorem exists_owner (hlife : LifeInv s) (hstopping : s.mem.life.state.stopping = true) :
    ∃ u policy phase, Frame.shutdown policy phase ∈ (s.loc u).stack ∧ phase.owns = true := by
  by_contra hnone
  have hzero : tally owners s.loc = 0 := by
    apply tally_eq_zero
    intro u
    apply List.sum_eq_zero
    intro n hn
    obtain ⟨f, hf, rfl⟩ := List.mem_map.mp hn
    cases f with
    | shutdown policy phase =>
        have howns : phase.owns = false := by
          rw [Bool.eq_false_iff]
          intro howns
          exact hnone ⟨u, policy, phase, hf, howns⟩
        simp [Frame.owner, howns]
    | _ => rfl
  rw [hlife.one, if_pos hstopping] at hzero
  cases hzero

omit [DecidableEq T] [Fintype T] in
/-- A frame that is not in user code is the top one. -/
theorem stack_of_mem (hl : InOrder l) {f : Frame T E} (hf : f ∈ l.stack) (huser : f.user = false) :
    ∃ rest, l.stack = f :: rest := by
  have hsuspended := hl.suspended
  cases hstack : l.stack with
  | nil =>
      rw [hstack] at hf
      cases hf
  | cons g rest =>
      rw [hstack] at hf hsuspended
      obtain rfl | hf := List.mem_cons.mp hf
      · exact ⟨rest, rfl⟩
      · rw [hsuspended f hf] at huser
        cases huser

/-- **Waiting for a shutdown.**  A thread parked on `lifecycle_changed_` is in its `shutdown` call,
and another thread is in the one that is bringing the dispatcher down, or has done so and is going
to wake everybody. -/
theorem shutdown_waits_justified (hs : (system setup Q).Reachable s)
    (ht : t ∈ s.mem.life.changed) :
    (∃ policy rest, (s.loc t).stack = .shutdown policy .changedParked :: rest) ∧
      ∃ u ≠ t, ∃ policy phase rest, (s.loc u).stack = .shutdown policy phase :: rest ∧
        (phase.owns = true ∨ phase = .notifyChanged) := by
  have hinv := changedInv_reach s hs
  have hparked := hinv.var.parked t ht
  obtain ⟨f, rest, hstack, hrole⟩ := exists_top (t := t) (by rw [hparked]; simp)
  rw [hparked] at hrole
  have htop : ∃ policy, f = .shutdown policy .changedParked := by
    cases f with
    | shutdown policy phase =>
        cases phase with
        | changedParked => exact ⟨policy, rfl⟩
        | _ => cases hrole
    | _ => cases hrole
  obtain ⟨policy, rfl⟩ := htop
  refine ⟨⟨policy, rest, hstack⟩, ?_⟩
  by_cases hstopping : s.mem.life.state.stopping = true
  · obtain ⟨u, policy', phase, hmem, howns⟩ := exists_owner (lifeInv_reach s hs) hstopping
    obtain ⟨rest', hstack'⟩ := stack_of_mem (inOrder_reach s hs u) hmem rfl
    refine ⟨u, ?_, policy', phase, rest', hstack', .inl howns⟩
    intro hut
    rw [hut, hstack] at hstack'
    cases hstack'
    cases howns
  · obtain ⟨u, hut, hsignalling⟩ := hinv.var.signaller ht hstopping
    obtain ⟨g, rest', hstack', hrole'⟩ := exists_top (t := u) (by rw [hsignalling]; simp)
    rw [hsignalling] at hrole'
    cases g with
    | shutdown policy' phase =>
        cases phase with
        | notifyChanged => exact ⟨u, hut, policy', _, rest', hstack', .inr rfl⟩
        | _ => cases hrole'
    | _ => cases hrole'

omit [DecidableEq T] [Fintype T] in
/-- Only `unsubscribe` waits on `no_callbacks_`. -/
theorem frame_of_idleParked {f : Frame T E} {i : ℕ} (h : f.idleRole i = .parked) :
    f = .unsubscribe i .idleParked := by
  unfold Frame.idleRole at h
  split at h
  · split at h
    · exact absurd h (InvokePhase.idleRole_ne_parked _)
    · cases h
  · split at h
    · exact absurd h (ExecutorPhase.idleRole_ne_parked _)
    · cases h
  · split at h
    · exact absurd h (InvokePhase.idleRole_ne_parked _)
    · cases h
  · next j phase =>
      split at h
      · next hij =>
          subst hij
          cases phase with
          | idleParked => rfl
          | _ => cases h
      · cases h
  · cases h

omit [DecidableEq T] [Fintype T] in
/-- A frame is inside one invocation of a subscriber at most. -/
theorem holds_le_one (f : Frame T E) (i : ℕ) : f.holds i ≤ 1 := by
  unfold Frame.holds
  split
  · split <;> simp [InvokePhase.held_le_one]
  · split <;> simp [ExecutorPhase.held_le_one]
  · split <;> simp [InvokePhase.held_le_one]
  · exact Nat.zero_le 1

omit [DecidableEq T] [Fintype T] in
/-- An invocation under way in user code is a callback that runs. -/
theorem callback_of_holds {f : Frame T E} {i : ℕ} (huser : f.user = true) (hholds : f.holds i ≠ 0) :
    f.callback = some i := by
  unfold Frame.user at huser
  split at huser
  · simp only [Frame.holds] at hholds
    split at hholds
    · next hij => rw [← hij]; rfl
    · exact absurd rfl hholds
  · exact absurd rfl hholds
  · simp only [Frame.holds] at hholds
    split at hholds
    · next hij => rw [← hij]; rfl
    · exact absurd rfl hholds
  · simp [Frame.holds, ExecutorPhase.held] at hholds
  · simp only [Frame.holds] at hholds
    split at hholds
    · next hij => rw [← hij]; rfl
    · exact absurd rfl hholds
  · exact absurd rfl hholds
  · cases huser

omit [DecidableEq T] in
/-- While the counter is not zero, some frame holds an invocation. -/
theorem exists_holder {i : ℕ} (hinv : InvocationInv s) (hbusy : (s.mem.subs i).inFlight ≠ 0) :
    ∃ u, ∃ f ∈ (s.loc u).stack, f.holds i ≠ 0 := by
  by_contra hnone
  apply hbusy
  rw [hinv.counted i, tally_eq_zero]
  · rfl
  · intro u
    apply List.sum_eq_zero
    intro n hn
    obtain ⟨f, hf, rfl⟩ := List.mem_map.mp hn
    by_contra hne
    exact hnone ⟨u, f, hf, hne⟩

omit [Fintype T] in
/-- A callback of `i` on its own stack would have kept the thread from waiting. -/
theorem holds_of_parked (hs : (system setup Q).Reachable s) {i : ℕ} {rest : List (Frame T E)}
    (hstack : (s.loc t).stack = .unsubscribe i .idleParked :: rest) :
    ∀ f ∈ (s.loc t).stack, f.holds i = 0 := by
  have horder := inOrder_reach s hs t
  have hself := horder.self _ _ i false hstack rfl
  have hout : some i ∉ (s.loc t).contexts := by
    simpa using hself.symm
  intro g hg
  by_contra hholds
  refine hout (mem_contexts_of_callback horder.chained hg (callback_of_holds ?_ hholds))
  rw [hstack] at hg
  obtain rfl | hg := List.mem_cons.mp hg
  · exact absurd rfl hholds
  · have hsuspended := horder.suspended
    rw [hstack] at hsuspended
    exact hsuspended g hg

/-- **Waiting for callbacks.**  A thread parked on `no_callbacks_` of subscriber `i` is in its
`unsubscribe` call and holds no invocation of `i`, and another thread is inside one, or has finished
the last one and is going to wake everybody. -/
theorem unsubscribe_waits_justified (hs : (system setup Q).Reachable s) {i : ℕ}
    (ht : t ∈ (s.mem.subs i).noCallbacks) :
    (∃ rest, (s.loc t).stack = .unsubscribe i .idleParked :: rest) ∧
      (∀ f ∈ (s.loc t).stack, f.holds i = 0) ∧
      ∃ u ≠ t, ∃ f ∈ (s.loc u).stack, f.holds i = 1 ∨ f.idleRole i = .signalling := by
  have hinv := idleInv_reach i s hs
  have hparked := hinv.parked t ht
  obtain ⟨f, rest, hstack, hrole⟩ := exists_top (t := t) (by rw [hparked]; simp)
  rw [hparked] at hrole
  obtain rfl := frame_of_idleParked hrole
  have hnone := holds_of_parked hs hstack
  refine ⟨⟨rest, hstack⟩, hnone, ?_⟩
  by_cases hbusy : (s.mem.subs i).inFlight ≠ 0
  · obtain ⟨u, g, hg, hholds⟩ := exists_holder (invocationInv_reach s hs) hbusy
    have hone : g.holds i = 1 := by
      have hle := holds_le_one g i
      omega
    refine ⟨u, ?_, g, hg, .inl hone⟩
    rintro rfl
    exact hholds (hnone g hg)
  · obtain ⟨u, hut, hsignalling⟩ := hinv.signaller ht hbusy
    obtain ⟨g, rest', hstack', hrole'⟩ := exists_top (t := u) (by rw [hsignalling]; simp)
    rw [hsignalling] at hrole'
    refine ⟨u, hut, g, ?_, .inr hrole'⟩
    rw [hstack']
    exact List.mem_cons_self

end Run

/-- One client is draining, and another one waits for it. -/
theorem shutdown_waits_justified_of_two :
    ∃ s : Config (Fin 5) (DispatcherMem (mutexPolicy (Fin 5) (Publication ℕ) 2))
        (ThreadLoc (mutexPolicy (Fin 5) (Publication ℕ) 2)),
      (system crowdSetup _).Reachable s ∧ 2 ∈ s.mem.life.changed ∧ ∃ u ≠ 2, ∃ policy phase rest,
        (s.loc u).stack = .shutdown policy phase :: rest ∧
          (phase.owns = true ∨ phase = .notifyChanged) := by
  obtain ⟨s, hs, hp⟩ := System.exists_reach_of_run
    (system crowdSetup (mutexPolicy (Fin 5) (Publication ℕ) 2)) (fun _ _ => True) (fun _ _ => true)
    (s := started crowdSetup _) rfl
    (List.flatten [[(1, .constructed)], drainingOn 1, [(2, .call (.shutdown .discard))],
      advance 2 2])
    (fun s => decide (2 ∈ s.mem.life.changed)) (fun _ _ _ _ => trivial) (by decide +kernel)
  have hwaiting := of_decide_eq_true hp
  exact ⟨s, hs, hwaiting, (shutdown_waits_justified hs hwaiting).2⟩

/-- The client waits for the callback that runs on the worker. -/
theorem unsubscribe_waits_justified_of_callback :
    ∃ s : Config (Fin 3) (DispatcherMem (mutexPolicy (Fin 3) (Publication ℕ) 2))
        (ThreadLoc (mutexPolicy (Fin 3) (Publication ℕ) 2)),
      (system smallSetup _).Reachable s ∧ 1 ∈ (s.mem.subs 1).noCallbacks ∧
        (∀ f ∈ (s.loc 1).stack, f.holds 1 = 0) ∧
        ∃ u ≠ 1, ∃ f ∈ (s.loc u).stack, f.holds 1 = 1 ∨ f.idleRole 1 = .signalling := by
  obtain ⟨s, hs, hp⟩ := System.exists_reach_of_run
    (system smallSetup (mutexPolicy (Fin 3) (Publication ℕ) 2)) (fun _ _ => True) (fun _ _ => true)
    (s := started smallSetup _) rfl
    (List.flatten [[(1, .constructed)], subscribing {}, publishing 7, working 6,
      [(1, .call (.unsubscribe 1))], advance 1 9])
    (fun s => decide (1 ∈ (s.mem.subs 1).noCallbacks)) (fun _ _ _ _ => trivial) (by decide +kernel)
  have hwaiting := of_decide_eq_true hp
  exact ⟨s, hs, hwaiting, (unsubscribe_waits_justified hs hwaiting).2⟩

end Dispatcher

end EventDispatcher
