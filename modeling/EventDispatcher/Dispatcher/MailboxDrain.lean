import EventDispatcher.Dispatcher.Executors
import EventDispatcher.Dispatcher.MailboxFifo
import EventDispatcher.Dispatcher.MailboxOffers

/-!
# Draining an isolated subscriber

An executor leaves its loop only when it has been told to stop and, unless the mailbox was
cleared, has emptied it; from then on nothing is accepted.  A `shutdown(drain)` that has
returned has joined the executor of every subscriber that is still active, so such a
subscriber has received everything it has accepted.  And before it has stopped a subscriber
the workers were gone, so nothing was refused.
-/

namespace EventDispatcher

open Transition SubscriberState

variable {T E : Type} {Q : QueuePolicy T (Publication E)}

/-- The executor may leave, or has left, its loop. -/
def SubscriberState.Exited {E : Type} (s : SubscriberState T E) : Prop :=
  s.executorStopping = true ∧ (s.drainMailbox = false ∨ s.mailbox = [])

/-- A mailbox that is being stopped accepts nothing, and the executor leaves in order. -/
structure ExitAt (s : SubscriberState T (Publication E))
    (o : Option (ExecutorPhase (Publication E))) : Prop where
  closed : s.executorStopping = true → s.mailboxAccepting = false
  done : o = some .done → s.Exited
  dropping : o = some .drop → s.active = false

/-- A `shutdown` is always a `shutdown(drain)`, on a thread that the dispatcher does not own. -/
def DrainCalls (setup : Setup T) (_ : Config T (DispatcherMem Q) (ThreadLoc Q))
    (a : T × DispatcherChoice Q) : Prop :=
  ∀ policy, a.2 = .call (.shutdown policy) → policy = .drain ∧ Dispatcher.Client setup a.1

/-- A dispatcher does not hand out its registry, so nobody else calls `try_invoke`. -/
def NoDirectCalls (_ : Config T (DispatcherMem Q) (ThreadLoc Q)) (a : T × DispatcherChoice Q) :
    Prop :=
  ∀ i event, a.2 ≠ .call (.invoke i event)

/-- The step is the critical section of `enqueue_isolated`, and the copy of the event throws. -/
def CopyThrows [DecidableEq T] (s : Config T (DispatcherMem Q) (ThreadLoc Q))
    (a : T × DispatcherChoice Q) : Prop :=
  ∃ i event phase, (parts i (s.loc a.1).stack).head? = some (.invoke event phase) ∧
    Entering a.1 (s.mem.subs i) phase ∧
    (enqueueIsolated a.1 (s.mem.subs i) event a.2.flag).2 = .done true

section Steps

variable [DecidableEq T] {flag : Bool} {t : T} {next i : ℕ} {finished : Finset T}
  {s s' : SubscriberState T (Publication E)} {contexts contexts' : Contexts} {p p' : Part E}
  {o o' : Option (ExecutorPhase (Publication E))}

/-- What a step can do to the mailbox and to the flags that stop it. -/
theorem PartStep.mailbox_cases (h : PartStep flag t next i finished s p s' p') :
    (i = next ∧ ∃ options, s' = { options := options }) ∨
      (s'.mailbox = s.mailbox ∧ s'.mailboxAccepting = s.mailboxAccepting ∧
        s'.executorStopping = s.executorStopping ∧ s'.drainMailbox = s.drainMailbox) ∨
      (∃ event phase, p = .invoke event phase ∧ s.mailboxAccepting = true ∧ s' = s.mail event) ∨
      (∃ event rest, s.mailbox = event :: rest ∧ s' = { s with mailbox := rest }) ∨
      ∃ drain, p = .stop drain .lockMailbox ∧ s' = s.stopMailbox drain := by
  cases h with
  | construct options hnext => exact .inl ⟨hnext, options, rfl⟩
  | invoke hstep =>
      cases hstep with
      | mail hphase haccepting =>
          exact .inr (.inr (.inl ⟨_, _, rfl, haccepting, rfl⟩))
      | callback hstep => cases hstep <;> exact .inr (.inl ⟨rfl, rfl, rfl, rfl⟩)
      | _ => exact .inr (.inl ⟨rfl, rfl, rfl, rfl⟩)
  | executor hstep =>
      cases hstep with
      | take hmailbox => exact .inr (.inr (.inr (.inl ⟨_, _, hmailbox, rfl⟩)))
      | callback hstep => cases hstep <;> exact .inr (.inl ⟨rfl, rfl, rfl, rfl⟩)
      | _ => exact .inr (.inl ⟨rfl, rfl, rfl, rfl⟩)
  | stop hstep =>
      cases hstep with
      | stopMailbox => exact .inr (.inr (.inr (.inr ⟨_, rfl, rfl⟩)))
      | _ => exact .inr (.inl ⟨rfl, rfl, rfl, rfl⟩)
  | _ => exact .inr (.inl ⟨rfl, rfl, rfl, rfl⟩)

omit [DecidableEq T] in
theorem stopMailbox_flags (s : SubscriberState T E) (drain : Bool) :
    (s.stopMailbox drain).mailboxAccepting = false ∧
      (s.stopMailbox drain).executorStopping = true ∧
      (s.stopMailbox drain).drainMailbox = (s.drainMailbox && drain) ∧
      (s.stopMailbox drain).mailbox = if drain then s.mailbox else [] := by
  cases drain <;> exact ⟨rfl, rfl, rfl, rfl⟩

/-- Nothing comes after an executor that has left its loop. -/
theorem PartStep.exited (h : PartStep flag t next i finished s p s' p') (hnew : i ≠ next)
    (hclosed : s.executorStopping = true → s.mailboxAccepting = false) (hexited : s.Exited) :
    s'.Exited := by
  obtain ⟨hstopping, hempty⟩ := hexited
  rcases h.mailbox_cases with ⟨hnext, _⟩ | ⟨hmailbox, _, hstopping', hdrain⟩ |
    ⟨event, phase, _, haccepting, _⟩ | ⟨event, rest, hmailbox, rfl⟩ | ⟨drain, _, rfl⟩
  · exact absurd hnext hnew
  · exact ⟨by rw [hstopping', hstopping], by rw [hmailbox, hdrain]; exact hempty⟩
  · rw [hclosed hstopping] at haccepting
    cases haccepting
  · refine ⟨hstopping, .inl (hempty.resolve_right ?_)⟩
    rw [hmailbox]
    simp
  · obtain ⟨_, hstopping', hdrain, hmailbox⟩ := stopMailbox_flags s drain
    refine ⟨hstopping', ?_⟩
    rw [hdrain, hmailbox]
    cases drain with
    | true => simpa using hempty
    | false => exact .inl (Bool.and_false _)

theorem PartStep.closed (h : PartStep flag t next i finished s p s' p')
    (hclosed : s.executorStopping = true → s.mailboxAccepting = false) :
    s'.executorStopping = true → s'.mailboxAccepting = false := by
  rcases h.mailbox_cases with ⟨_, options, rfl⟩ | ⟨_, haccepting, hstopping, _⟩ |
    ⟨event, phase, _, haccepting, rfl⟩ | ⟨event, rest, _, rfl⟩ | ⟨drain, _, rfl⟩
  · rintro ⟨⟩
  · rw [haccepting, hstopping]
    exact hclosed
  · exact hclosed
  · exact hclosed
  · exact fun _ => (stopMailbox_flags s drain).1

theorem PartStep.inactive (h : PartStep flag t next i finished s p s' p') (hnew : i ≠ next)
    (hinactive : s.active = false) : s'.active = false := by
  cases h with
  | construct options hnext => exact absurd hnext hnew
  | invoke hstep => exact (hstep.accounted.inactive hinactive).1
  | executor hstep => exact (hstep.accounted.inactive hinactive).1
  | stop hstep => exact ((hstep.accounted 0).inactive hinactive).1
  | deactivate | deactivateAgain => rfl
  | _ => exact hinactive

/-- The ways in which a subscriber can miss an event. -/
theorem PartStep.missed_cases (h : PartStep flag t next i finished s p s' p') :
    (i = next ∧ ∃ options, s' = { options := options }) ∨
      (s'.metrics.dropped = s.metrics.dropped ∧ s'.metrics.rejected = s.metrics.rejected ∧
        s'.missed = s.missed) ∨
      (∃ event phase, p = .invoke event phase ∧ Entering t s phase ∧
        (s.options.guarantee = .bestEffort ∨ s.mailboxAccepting = false ∨
          (flag = true ∧ s.mailboxAccepting = true ∧
            (s.mailbox.length ≤ s.options.mailboxCapacity →
              s.mailbox.length < s.options.mailboxCapacity)))) ∨
      (∃ event, p = .invoke event .reject) ∨
      ((∃ event, p = .executor (.begin event)) ∧ s.active = false) ∨
      p = .executor .drop ∨ p = .stop false .lockMailbox := by
  cases h with
  | construct options hnext => exact .inl ⟨hnext, options, rfl⟩
  | invoke hstep =>
      cases hstep with
      | overflow hphase hbestEffort =>
          exact .inr (.inr (.inl ⟨_, _, rfl, hphase, .inl hbestEffort⟩))
      | refused hphase hclosed =>
          exact .inr (.inr (.inl ⟨_, _, rfl, hphase, .inr (.inl hclosed)⟩))
      | copyThrew hphase hflag haccepting hroom =>
          exact .inr (.inr (.inl ⟨_, _, rfl, hphase, .inr (.inr ⟨hflag, haccepting, hroom⟩)⟩))
      | reject => exact .inr (.inr (.inr (.inl ⟨_, rfl⟩)))
      | callback hstep => cases hstep <;> exact .inr (.inl ⟨rfl, rfl, rfl⟩)
      | _ => exact .inr (.inl ⟨rfl, rfl, rfl⟩)
  | executor hstep =>
      cases hstep with
      | miss event hinactive =>
          exact .inr (.inr (.inr (.inr (.inl ⟨⟨event, rfl⟩, hinactive⟩))))
      | drop => exact .inr (.inr (.inr (.inr (.inr (.inl rfl)))))
      | callback hstep => cases hstep <;> exact .inr (.inl ⟨rfl, rfl, rfl⟩)
      | _ => exact .inr (.inl ⟨rfl, rfl, rfl⟩)
  | @stop drain _ _ _ hstep =>
      cases hstep with
      | stopMailbox =>
          cases drain with
          | true => exact .inr (.inl ⟨rfl, rfl, rfl⟩)
          | false => exact .inr (.inr (.inr (.inr (.inr (.inr rfl)))))
      | _ => exact .inr (.inl ⟨rfl, rfl, rfl⟩)
  | _ => exact .inr (.inl ⟨rfl, rfl, rfl⟩)

/-- The copy throws where `enqueue_isolated` gets as far as copying. -/
theorem enqueueIsolated_throws {event : Publication E} (haccepting : s.mailboxAccepting = true)
    (hroom : s.mailbox.length < s.options.mailboxCapacity) :
    (enqueueIsolated t s event true).2 = .done true := by
  simp [enqueueIsolated, haccepting, hroom, hroom.ne]

/-- **Step lemma.** -/
theorem ExecutorMove.exitAt (h : ExecutorMove flag t next i finished s o s' o')
    (hunused : i = next → o = none) (hat : ExitAt s o) : ExitAt s' o' := by
  cases h with
  | other hstep =>
      refine ⟨hstep.closed hat.closed, ?_, ?_⟩
      · intro hdone
        refine hstep.exited ?_ hat.closed (hat.done hdone)
        intro hnext
        rw [hunused hnext] at hdone
        cases hdone
      · intro hdrop
        refine hstep.inactive ?_ (hat.dropping hdrop)
        intro hnext
        rw [hunused hnext] at hdrop
        cases hdrop
  | start => exact ⟨hat.closed, by rintro ⟨⟩, by rintro ⟨⟩⟩
  | step hstep =>
      cases hstep with
      | leave hstopping hdone => exact ⟨hat.closed, fun _ => ⟨hstopping, hdone⟩, by rintro ⟨⟩⟩
      | miss event hinactive => exact ⟨hat.closed, by rintro ⟨⟩, fun _ => hinactive⟩
      | callback hstep => cases hstep <;> exact ⟨hat.closed, by rintro ⟨⟩, by rintro ⟨⟩⟩
      | _ => exact ⟨hat.closed, by rintro ⟨⟩, by rintro ⟨⟩⟩
  | finish event previous threw =>
      exact ⟨hat.closed, by rintro ⟨⟩, by rintro ⟨⟩⟩
  | handled => exact ⟨hat.closed, by rintro ⟨⟩, by rintro ⟨⟩⟩
  | done => exact ⟨hat.closed, by rintro ⟨⟩, by rintro ⟨⟩⟩

end Steps

section Frames

variable [DecidableEq T] {setup : Setup T} {flag : Bool} {t : T} {m m' : DispatcherMem Q}
  {q q' : Q.Loc} {contexts contexts' : Contexts} {f : Frame T E} {f' : Option (Frame T E)}

/-- A thread finishes at the end of its thread function. -/
theorem FrameStep.finished_cases (h : FrameStep setup flag t m q contexts f m' q' contexts' f') :
    m'.threads.finished = m.threads.finished ∨
      (m' = m.finish t ∧ ((∃ phase, f = .worker phase) ∨ ∃ i, f = .executor i .done)) := by
  cases h with
  | workerDone => exact .inr ⟨rfl, .inl ⟨_, rfl⟩⟩
  | executorDone i => exact .inr ⟨rfl, .inr ⟨i, rfl⟩⟩
  | _ => exact .inl (by simp)

/-- The policy of a `shutdown` is the one it was called with. -/
theorem FrameStep.policy_eq (h : FrameStep setup flag t m q contexts f m' q' contexts' f')
    {policy : ShutdownPolicy} {phase : ShutdownPhase T} (hg : f' = some (.shutdown policy phase)) :
    ∃ phase', f = .shutdown policy phase' := by
  cases h with
  | invoke hframe hstep => cases hframe <;> cases hg
  | stop hframe hstep =>
      cases hframe with
      | unsubscribe self => cases hg
      | shutdown policy todo =>
          cases hg
          exact ⟨_, rfl⟩
  | _ => cases hg <;> exact ⟨_, rfl⟩

/-- `try_invoke` is only left. -/
theorem FrameStep.direct_eq (h : FrameStep setup flag t m q contexts f m' q' contexts' f')
    {i : ℕ} {event : Publication E} {phase : InvokePhase} (hg : f' = some (.invoke i event phase)) :
    ∃ phase', f = .invoke i event phase' := by
  cases h with
  | invoke hframe hstep =>
      cases hframe with
      | worker snapshot subs events => cases hg
      | direct =>
          cases hg
          exact ⟨_, rfl⟩
  | stop hframe hstep => cases hframe <;> cases hg
  | _ => cases hg

/-- A subscriber whose snapshot is about to be stored has its executor, if it needs one. -/
theorem FrameStep.store_cases (h : FrameStep setup flag t m q contexts f m' q' contexts' f')
    {callback : Bool} {options : SubscriptionOptions} {i : ℕ} {next : List ℕ}
    (hg : f' = some (.subscribe callback options (.store i next))) :
    f.builds = some (i, options) ∧
      ((options.delivery ≠ .isolated ∧ m' = m) ∨ ∃ u, m' = m.spawn i u) := by
  cases h with
  | invoke hframe hstep => cases hframe <;> cases hg
  | stop hframe hstep => cases hframe <;> cases hg
  | subscribeSpawn callback options id next hisolated u hu =>
      cases hg
      exact ⟨rfl, .inr ⟨u, rfl⟩⟩
  | subscribeNoExecutor callback options id next hdirect =>
      cases hg
      exact ⟨rfl, .inl ⟨hdirect, rfl⟩⟩
  | _ => cases hg

end Frames

namespace Dispatcher

variable [DecidableEq T] {setup : Setup T}
  {ok : Config T (DispatcherMem Q) (ThreadLoc Q) → T × DispatcherChoice Q → Prop}

section Executors

variable [Fintype T]

/-- **Run lemma.** -/
theorem exitAt_reach : ∀ s, (system setup Q).Reach ok s → ∀ i o, Runs i s o →
    ExitAt (s.mem.subs i) o := by
  refine executor_invariant (I := fun _ s o => ExitAt s o) ?_ ?_
  · intro i
    exact ⟨by rintro ⟨⟩, by rintro ⟨⟩, by rintro ⟨⟩⟩
  · intro s t c i o s' o' hreach _ hruns hat hmove
    exact hmove.exitAt (fun hnext => hruns.none_of_unused (allotted_reach s hreach) hnext.ge) hat

/-- Wherever an executor is told to stop, the mailbox takes nothing. -/
theorem closed_reach {s : Config T (DispatcherMem Q) (ThreadLoc Q)}
    (hs : (system setup Q).Reach ok s) (i : ℕ) :
    (s.mem.subs i).executorStopping = true → (s.mem.subs i).mailboxAccepting = false := by
  obtain ⟨o, ho⟩ := exists_runs i s
  exact (exitAt_reach s hs i o ho).closed

/-- What an executor that has finished, or has been joined, has left behind. -/
structure ExitInv (s : Config T (DispatcherMem Q) (ThreadLoc Q)) : Prop where
  finished : ∀ i u, (s.mem.subs i).executor = some u → u ∈ s.mem.threads.finished →
    (s.mem.subs i).Exited
  joined : ∀ i ∈ s.mem.history.published, (s.mem.subs i).options.delivery = .isolated →
    (s.mem.subs i).executor = none → (s.mem.subs i).Exited
  stored : ∀ t callback options i next, .subscribe callback options (.store i next) ∈ (s.loc t).stack →
    (s.mem.subs i).options.delivery = .isolated → (s.mem.subs i).executor = none →
    (s.mem.subs i).Exited

/-- **Run lemma.** -/
theorem exitInv_reach : ∀ s, (system setup Q).Reach ok s → ExitInv s := by
  refine interleave_invariant ?_ ?_
  · rintro s rfl
    refine ⟨by rintro i u ⟨⟩, by simp [started], ?_⟩
    intro t callback options i next hmem
    simp only [started] at hmem
    split at hmem <;> simp at hmem
  · intro s t c m l hreach hinv _ hstep
    have hshape := step_shape hstep
    have hallotted := allotted_reach s hreach
    have hknown := hallotted.mem
    have hexecutor := executorInv_reach s hreach
    have hthreads := threadInv_reach s hreach
    have hregistry := registryInv_reach s hreach
    have hexited : ∀ i, i < s.mem.registry.nextId → (s.mem.subs i).Exited → (m.subs i).Exited := by
      intro i hi
      obtain ⟨p, p', hpart, _⟩ := hshape.partStep hknown i
      exact hpart.exited hi.ne (closed_reach hreach i)
    have hthere : ∀ {i u}, (s.mem.subs i).executor = some u → i < s.mem.registry.nextId := by
      intro i u hu
      by_contra hlt
      rw [hknown.fresh i (Nat.not_lt.mp hlt)] at hu
      cases hu
    -- an executor is lost only when it is joined
    have hnone : ∀ i, i < s.mem.registry.nextId →
        ((s.mem.subs i).options.delivery = .isolated → (s.mem.subs i).executor = none →
          (s.mem.subs i).Exited) →
        (m.subs i).options.delivery = .isolated → (m.subs i).executor = none →
        (m.subs i).Exited := by
      intro i hi hbefore hisolated hnone
      obtain ⟨p, p', hpart, _⟩ := hshape.partStep hknown i
      rw [hpart.options_eq.resolve_right hi.ne] at hisolated
      refine hexited i hi ?_
      rcases hshape.executor_cases hknown i with hsame | ⟨_, u, hfinished, hu⟩ |
        ⟨u, _, _, _, _, _, hsome, _⟩
      · exact hbefore hisolated (by rw [← hsame]; exact hnone)
      · exact hinv.finished i u hu hfinished
      · rw [hsome] at hnone
        cases hnone
    refine ⟨?_, ?_, ?_⟩
    · intro i u hu hfinished
      have hbefore : (s.mem.subs i).executor = some u := by
        rcases hshape.executor_cases hknown i with hsame | ⟨hnone, _⟩ |
          ⟨v, f, rest, hv, _, _, hsome, hspawn⟩
        · rw [← hsame]
          exact hu
        · simp only [hnone] at hu
          cases hu
        · simp only [hsome, Option.some.injEq] at hu
          subst hu
          simp only [hspawn, DispatcherMem.spawn_threads_finished] at hfinished
          exact absurd hfinished (hthreads.unstarted v hv).2.2.1
      refine hexited i (hthere hbefore) ?_
      by_cases hold : u ∈ s.mem.threads.finished
      · exact hinv.finished i u hbefore hold
      · obtain rfl : u = t := by
          by_contra hut
          exact hold (hshape.finished_of_ne hut hfinished)
        cases hshape with
        | call huser henter =>
            rw [(enter_mem henter).2] at hfinished
            exact absurd hfinished hold
        | @frame _ _ _ _ _ f f' rest hstack hframe =>
            have htop : f ∈ (s.loc u).stack := by
              rw [hstack]
              exact List.mem_cons_self
            rcases hframe.finished_cases with hsame | ⟨_, ⟨phase, rfl⟩ | ⟨j, rfl⟩⟩
            · rw [hsame] at hfinished
              exact absurd hfinished hold
            · have hworker := (hthreads.placed u _ htop).1
              exact absurd (hexecutor.owned i u hbefore).1 (setup.disjoint u hworker)
            · obtain rfl : i = j :=
                hexecutor.injective i j u hbefore (hthreads.placed u _ htop).1
              exact (exitAt_reach s hreach i (some .done) ⟨u, htop⟩).done rfl
        | _ => exact absurd hfinished hold
    · intro i hi
      by_cases hold : i ∈ s.mem.history.published
      · exact hnone i (hregistry.ok.allocated i hold) (hinv.joined i hold)
      · rcases hshape.current_cases with ⟨_, hsame⟩ |
          ⟨callback, options, id, next, rest, hstack, rfl, _⟩ | ⟨_, _, kept, _, _, rfl, _⟩
        · simp only [hsame] at hi
          exact absurd hi hold
        · obtain rfl : i = id := by
            rcases List.mem_append.mp hi with hi | hi
            · exact absurd hi hold
            · exact List.mem_singleton.mp hi
          exact hinv.stored t callback options i next (by rw [hstack]; exact List.mem_cons_self)
        · exact absurd hi hold
    · intro u
      by_cases hut : u = t
      · subst hut
        simp only [Function.update_self]
        have hall : ∀ f ∈ l.stack, ∀ callback options i next,
            f = .subscribe callback options (.store i next) →
            (m.subs i).options.delivery = .isolated → (m.subs i).executor = none →
            (m.subs i).Exited := by
          refine hshape.forall_frames (inOrder_reach s hreach u)
            (P := fun f => ∀ i options, f.builds = some (i, options) →
              (s.mem.subs i).options = options) (hexecutor.building u) ?_ ?_ ?_ ?_ ?_ ?_
          · rintro f huser _ callback options i next rfl
            cases huser
          · rintro i _ callback options j next ⟨⟩
          · rintro call f henter callback options j next rfl
            exact absurd (enter_apart henter).1.locks (by simp [Frame.locks])
          · rintro f f' threw hfinish _ callback options j next rfl
            exact absurd (finishUser_apart hfinish).locks (by simp [Frame.locks])
          · rintro f hin _ callback options j next rfl
            cases hin
          · rintro flag q q' contexts contexts' f f' hframe hbuilding g hg callback options j next
              rfl hisolated hnone
            obtain ⟨hbuilds, ⟨hdirect, rfl⟩ | ⟨v, rfl⟩⟩ := hframe.store_cases hg
            · rw [hbuilding j options hbuilds] at hisolated
              exact absurd hisolated hdirect
            · simp at hnone
        intro callback options i next hmem
        exact hall _ hmem callback options i next rfl
      · simp only [Function.update_of_ne hut]
        intro callback options i next hmem
        exact hnone i (hallotted.frames u _ hmem i List.mem_cons_self)
          (hinv.stored u callback options i next hmem)

end Executors

/-- **Run lemma**: the `shutdown` calls there are. -/
theorem drainCalls_reach (hok : ∀ s a, ok s a → DrainCalls setup s a) :
    ∀ s, (system setup Q).Reach ok s → ∀ t policy phase,
      .shutdown policy phase ∈ (s.loc t).stack → policy = .drain ∧ Client setup t := by
  intro s hs t policy phase hmem
  refine frames_reach (P := fun t f => ∀ policy phase, f = .shutdown policy phase →
    policy = .drain ∧ Client setup t) ?_ ?_ ?_ ?_ ?_ s hs t _ hmem policy phase rfl
  · rintro t policy phase ⟨⟩
  · rintro t i policy phase ⟨⟩
  · rintro s t call m f hcalls henter policy phase rfl
    refine hok _ _ hcalls policy ?_
    cases phase with
    | guard => rw [(enter_guarded henter).2 policy rfl]
    | _ => cases (enter_guarded henter).1
  · rintro t f f' threw hfinish _ policy phase rfl
    unfold Frame.finishUser at hfinish
    split at hfinish <;> cases hfinish
  · rintro flag t q q' contexts contexts' f f' m m' hframe hf g hg policy phase rfl
    obtain ⟨phase', rfl⟩ := hframe.policy_eq hg
    exact hf policy phase' rfl

/-- **Run lemma**: without calls of it there is no `try_invoke` outside the workers. -/
theorem noDirectCalls_reach (hok : ∀ s a, ok s a → NoDirectCalls s a) :
    ∀ s, (system setup Q).Reach ok s → ∀ t i event phase,
      .invoke i event phase ∉ (s.loc t).stack := by
  intro s hs t i event phase hmem
  refine frames_reach (P := fun _ f => ∀ i event phase, f ≠ .invoke i event phase)
    ?_ ?_ ?_ ?_ ?_ s hs t _ hmem i event phase rfl
  · rintro t i event phase ⟨⟩
  · rintro t j i event phase ⟨⟩
  · rintro s t call m f hcalls henter i event phase rfl
    cases call with
    | invoke j event => exact hok _ _ hcalls j event rfl
    | unsubscribe j =>
        simp only [enter] at henter
        split at henter <;> cases henter
    | _ => cases henter
  · rintro t f f' threw hfinish hf i event phase rfl
    unfold Frame.finishUser at hfinish
    split at hfinish <;> cases hfinish
    exact hf _ _ _ rfl
  · rintro flag t q q' contexts contexts' f f' m m' hframe hf g hg i event phase rfl
    obtain ⟨phase', rfl⟩ := hframe.direct_eq hg
    exact hf i event phase' rfl

/-- A subscriber that is active has been active all the time. -/
theorem active_before {s : Config T (DispatcherMem Q) (ThreadLoc Q)} {t : T}
    {c : DispatcherChoice Q} {m : DispatcherMem Q} {l : ThreadLoc Q}
    (hs : (system setup Q).Reach ok s) (hstep : step setup t c s.mem (s.loc t) = some (m, l))
    {i : ℕ} (hactive : (m.subs i).active = true) : (s.mem.subs i).active = true := by
  rw [← Bool.not_eq_false]
  intro hinactive
  rw [(((step_shape hstep).accounted (allotted_reach s hs).mem i).inactive hinactive).1] at hactive
  cases hactive

section Run

variable [Fintype T]

/-- Whoever stops an active subscriber drains it, after the workers. -/
theorem stops_active (hok : ∀ s a, ok s a → DrainCalls setup s a)
    {s : Config T (DispatcherMem Q) (ThreadLoc Q)} (hs : (system setup Q).Reach ok s) {t : T}
    {i : ℕ} (hactive : (s.mem.subs i).active = true) {drain : Bool} {phase : StopPhase}
    (hpart : .stop drain phase ∈ parts i (s.loc t).stack) :
    drain = true ∧ WorkersGone setup s.mem := by
  obtain ⟨f, hf, hpart⟩ := List.mem_map.mp hpart
  rcases part_stop_cases hpart with ⟨self, rfl⟩ | ⟨policy, todo, rfl, rfl⟩
  · rw [(invocationInv_reach s hs).deactivated t _ hf i self rfl] at hactive
    cases hactive
  · obtain ⟨rfl, _⟩ := drainCalls_reach hok s hs t _ _ hf
    exact ⟨rfl, (shutdownInv_reach s hs).progress t _ hf rfl⟩

/-- An active subscriber under `shutdown(drain)`. -/
structure DrainAt (setup : Setup T) (m : DispatcherMem Q) (i : ℕ) : Prop where
  drains : (m.subs i).drainMailbox = true
  accepts : (m.subs i).mailboxAccepting = false → WorkersGone setup m

/-- **Run lemma.** -/
theorem drainAt_reach (hok : ∀ s a, ok s a → DrainCalls setup s a) :
    ∀ s, (system setup Q).Reach ok s → ∀ i, (s.mem.subs i).active = true → DrainAt setup s.mem i := by
  refine interleave_invariant ?_ ?_
  · rintro s rfl i _
    exact ⟨rfl, by rintro ⟨⟩⟩
  · intro s t c m l hreach hinv _ hstep i hactive
    have hshape := step_shape hstep
    have hbefore := active_before hreach hstep hactive
    have hat := hinv i hbefore
    have hgone : WorkersGone setup s.mem → WorkersGone setup m :=
      fun h => workersGone_mono h hshape.finished_subset
    obtain ⟨p, p', hpart, hreplaced⟩ := hshape.partStep (allotted_reach s hreach).mem i
    simp only
    rcases hpart.mailbox_cases with ⟨_, options, heq⟩ | ⟨_, haccepting, _, hdrain⟩ |
      ⟨event, phase, _, haccepting, heq⟩ | ⟨event, rest, _, heq⟩ | ⟨drain, rfl, heq⟩
    · exact ⟨by rw [heq], by rw [heq]; rintro ⟨⟩⟩
    · exact ⟨by rw [hdrain, hat.drains], by rw [haccepting]; exact fun h => hgone (hat.accepts h)⟩
    · refine ⟨by rw [heq]; exact hat.drains, ?_⟩
      rw [heq]
      intro hclosed
      cases haccepting.symm.trans hclosed
    · exact ⟨by rw [heq]; exact hat.drains, by rw [heq]; exact fun h => hgone (hat.accepts h)⟩
    · obtain ⟨rfl, hworkers⟩ := stops_active hok hreach hbefore (hreplaced.mem_of_ne (by simp))
      refine ⟨?_, fun _ => hgone hworkers⟩
      rw [heq, (stopMailbox_flags _ true).2.2.1, hat.drains]
      rfl

/-- A `shutdown(drain)` that has returned has joined the executors of the active subscribers. -/
theorem drain_joins (hok : ∀ s a, ok s a → DrainCalls setup s a)
    {s : Config T (DispatcherMem Q) (ThreadLoc Q)} (hs : (system setup Q).Reach ok s)
    (hreturned : s.mem.shutdownReturned = true) {i : ℕ} (hactive : (s.mem.subs i).active = true) :
    ¬ Alive s.mem i := by
  refine (joinInv_reach (P := fun m i => (m.subs i).active = true) ?_ ?_ ?_ s hs).stopped
    ((shutdownInv_reach s hs).returned hreturned) i hactive
  · intro s hs t f hf howner
    cases f with
    | shutdown policy phase => exact (drainCalls_reach hok s hs t policy phase hf).2
    | _ => cases howner
  · intro s t c m l hs hstep i
    exact active_before hs hstep
  · rintro s t c policy rest hs _ hstack i hactive ⟨u, hu, _⟩
    have hregistry := registryInv_reach s hs
    have hlife := lifeInv_reach s hs
    have hstate := hlife.owned t (.shutdown policy .loadSnapshot)
      (by rw [hstack]; exact List.mem_cons_self) policy rfl
    rcases (executorInv_reach s hs).registered i (by rw [hu]; simp) with
      hpublished | ⟨v, callback, options, next, hmem⟩
    · exact hregistry.ok.complete i hpublished hactive
    · rw [hlife.running v _ hmem rfl] at hstate
      cases policy <;> cases hstate

/-- An active isolated subscriber has then received everything it has accepted. -/
theorem drain_complete (hok : ∀ s a, ok s a → DrainCalls setup s a)
    {s : Config T (DispatcherMem Q) (ThreadLoc Q)} (hs : (system setup Q).Reach ok s)
    (hreturned : s.mem.shutdownReturned = true) {i : ℕ} (hi : i ∈ s.mem.history.published)
    (hisolated : (s.mem.subs i).options.delivery = .isolated)
    (hactive : (s.mem.subs i).active = true) :
    (s.mem.subs i).received = (s.mem.subs i).mailed := by
  have hdead := drain_joins hok hs hreturned hactive
  have hexit := exitInv_reach s hs
  have hdrains := (drainAt_reach hok s hs i hactive).drains
  have hexited : (s.mem.subs i).Exited := by
    cases hexecutor : (s.mem.subs i).executor with
    | none => exact hexit.joined i hi hisolated hexecutor
    | some u =>
        refine hexit.finished i u hexecutor ?_
        by_contra hnot
        exact hdead ⟨u, hexecutor, hnot⟩
  have hnone : Runs i s none := by
    intro t phase hmem
    have hplaced := (threadInv_reach s hs).placed t _ hmem
    exact hdead ⟨t, hplaced.1, hplaced.2.2⟩
  cases fifoAt_reach s hs i none hnone hisolated with
  | intact hmailed =>
      rw [hmailed, hexited.2.resolve_left (by rw [hdrains]; simp)]
      simp [carried]
  | cleared hmailbox hclosed hstopped =>
      rw [hdrains] at hstopped
      cases hstopped
  | dead hinactive =>
      rw [hactive] at hinactive
      cases hinactive

/-- Nothing has been lost of what was offered to subscriber `i`. -/
structure Lossless (s : SubscriberState T (Publication E)) : Prop where
  dropped : s.metrics.dropped = 0
  rejected : s.metrics.rejected = 0
  missed : s.missed = []

/-- **Run lemma.** -/
theorem lossless_reach (hdrain : ∀ s a, ok s a → DrainCalls setup s a)
    (hdirect : ∀ s a, ok s a → NoDirectCalls s a) (hcopy : ∀ s a, ok s a → ¬ CopyThrows s a) :
    ∀ s, (system setup Q).Reach ok s → ∀ i, (s.mem.subs i).options.delivery = .isolated →
      (s.mem.subs i).options.guarantee = .lossless → (s.mem.subs i).active = true →
      Lossless (s.mem.subs i) := by
  refine interleave_invariant ?_ ?_
  · rintro s rfl i _ _ _
    exact ⟨rfl, rfl, rfl⟩
  · intro s t c m l hreach hinv hok hstep i hisolated hlossless hactive
    have hshape := step_shape hstep
    have hbefore := active_before hreach hstep hactive
    obtain ⟨p, p', hpart, hreplaced⟩ := hshape.partStep (allotted_reach s hreach).mem i
    simp only at hisolated hlossless ⊢
    by_cases hnext : ∃ options, m.subs i = { options := options }
    · obtain ⟨options, heq⟩ := hnext
      rw [heq]
      exact ⟨rfl, rfl, rfl⟩
    · have hoptions : (m.subs i).options = (s.mem.subs i).options := by
        rcases hpart.options_eq with hoptions | hi
        · exact hoptions
        · generalize m.subs i = s' at hpart hnext ⊢
          cases hpart with
          | construct options => exact absurd ⟨options, rfl⟩ hnext
          | invoke hstep => exact hstep.options_eq
          | executor hstep => exact hstep.options_eq
          | stop hstep => exact hstep.options_eq
          | _ => rfl
      rw [hoptions] at hisolated hlossless
      have hat := hinv i hisolated hlossless hbefore
      have hmem : ∀ {r : Part E}, p = r → r ≠ .idle → r ∈ parts i (s.loc t).stack := by
        rintro r rfl hr
        exact hreplaced.mem_of_ne hr
      rcases hpart.missed_cases with ⟨_, hfresh⟩ | ⟨hdropped, hrejected, hmissed⟩ |
        ⟨event, phase, rfl, hphase, hlost⟩ | ⟨event, rfl⟩ | ⟨_, hinactive⟩ | rfl | rfl
      · exact absurd hfresh hnext
      · exact ⟨hdropped.trans hat.dropped, hrejected.trans hat.rejected, hmissed.trans hat.missed⟩
      · exfalso
        have hpart := hmem rfl (by simp)
        rcases hlost with hbestEffort | hclosed | ⟨hflag, haccepting, hroom⟩
        · rw [hlossless] at hbestEffort
          cases hbestEffort
        · -- the worker that is refused would have finished
          obtain ⟨f, hf, hfpart⟩ := List.mem_map.mp hpart
          have hgone := (drainAt_reach hdrain s hreach i hbefore).accepts hclosed
          rcases part_invoke_cases hfpart with ⟨snapshot, subs, events, rfl⟩ | rfl
          · have hplaced := (threadInv_reach s hreach).placed t _ hf
            exact hplaced.2 (hgone t hplaced.1)
          · exact noDirectCalls_reach hdirect s hreach t i event phase hf
        · refine hcopy s (t, c) hok ⟨i, event, phase, ?_, hphase, ?_⟩
          · obtain ⟨rest, hfront | ⟨hidle, _⟩, _⟩ := hreplaced
            · rw [hfront]
              rfl
            · cases hidle
          · simp only [hflag]
            exact enqueueIsolated_throws haccepting (hroom (mailbox_bounded s hreach i))
      · exact absurd hisolated ((partOk_reach s hreach i t _ (hmem rfl (by simp))).2 rfl)
      · rw [hbefore] at hinactive
        cases hinactive
      · have hruns : Runs i s (some .drop) := ⟨t, mem_parts_executor.mp (hmem rfl (by simp))⟩
        have hinactive := (exitAt_reach s hreach i _ hruns).dropping rfl
        rw [hbefore] at hinactive
        cases hinactive
      · cases (stops_active hdrain hreach hbefore (hmem rfl (by simp))).1

/-- What has been offered to subscriber `i`, and how it has fared. -/
structure OfferInv (i : ℕ) (s : Config T (DispatcherMem Q) (ThreadLoc Q))
    (offered : List (Publication E)) : Prop where
  counted : (s.mem.subs i).metrics.offered = UInt64.ofNat offered.length
  accepted : s.mem.registry.nextId ≤ i ∨ ((s.mem.subs i).options.delivery = .isolated ∧
    (s.mem.subs i).options.guarantee = .lossless ∧ (s.mem.subs i).active = true) →
    Accepted i s offered

/-- **Step lemma** for the offers of a run. -/
theorem OfferInv.step {s : Config T (DispatcherMem Q) (ThreadLoc Q)} {t : T}
    {c : DispatcherChoice Q} {m : DispatcherMem Q} {l : ThreadLoc Q} {i : ℕ}
    {offered : List (Publication E)} (h : OfferInv i s offered) (hs : (system setup Q).Reach ok s)
    (hstep : step setup t c s.mem (s.loc t) = some (m, l))
    (hkept : (m.subs i).options = (s.mem.subs i).options →
      (s.mem.subs i).options.delivery = .isolated →
      (s.mem.subs i).options.guarantee = .lossless → (m.subs i).active = true →
      (m.subs i).missed = (s.mem.subs i).missed) :
    OfferInv i ⟨m, Function.update s.loc t l⟩
      (recordOffer i s (t, c) ⟨m, Function.update s.loc t l⟩ offered) := by
  have hshape := step_shape hstep
  have hallotted := allotted_reach s hs
  obtain ⟨p, p', hpart, hreplaced, hoffers⟩ := hshape.partStep_offered hallotted.mem i
  constructor
  · simp only [recordOffer, hoffers, List.length_append, UInt64.ofNat_add]
    rw [hpart.offered_eq, h.counted]
  · intro hafter
    by_cases hi : s.mem.registry.nextId ≤ i
    · have hidle : p = .idle := by
        by_contra hne
        exact hne (parts_idle_of_unused hallotted hi t (hreplaced.mem_of_ne hne))
      subst hidle
      exact (h.accepted (.inl hi)).step hreplaced hoffers hpart.offered_of_idle
    · obtain ⟨hisolated, hlossless, hactive⟩ := hafter.resolve_left fun hle =>
        hi (hshape.nextId_le.trans hle)
      have hoptions : (m.subs i).options = (s.mem.subs i).options :=
        hpart.options_eq.resolve_right fun heq => hi heq.ge
      simp only [hoptions] at hisolated hlossless
      refine (h.accepted (.inr ⟨hisolated, hlossless, active_before hs hstep hactive⟩)).step
        hreplaced hoffers (hpart.offered_of_kept ?_ (hkept hoptions hisolated hlossless hactive))
      rw [hoptions, hisolated]

/-- **Run lemma** for the offers. -/
theorem offerInv_reach (hdrain : ∀ s a, ok s a → DrainCalls setup s a)
    (hdirect : ∀ s a, ok s a → NoDirectCalls s a) (hcopy : ∀ s a, ok s a → ¬ CopyThrows s a)
    {i : ℕ} {s : Config T (DispatcherMem Q) (ThreadLoc Q)} {offered : List (Publication E)}
    (hrun : (offersTo setup Q i).Steps (fun p a => ok p.1 a) (started setup Q, []) (s, offered)) :
    (system setup Q).Reach ok s ∧ OfferInv i s offered := by
  refine hrun.watched_within (I := OfferInv i) (fun _ _ h => h) (.init rfl) ⟨rfl, ?_⟩ ?_
  · intro _
    unfold Accepted
    rw [show tally (partSum Part.waiting i) (started setup Q).loc = 0 from ?_]
    · rfl
    · refine tally_eq_zero fun t => ?_
      simp only [started, partSum, parts]
      split <;> rfl
  · rintro s offered ⟨t, c⟩ s' hs hinv hok hstep
    have hs' : (system setup Q).Reach ok s' := .step hs hok hstep
    obtain ⟨m, l, hprog, rfl⟩ := Config.step_eq_some hstep
    refine hinv.step hs hprog ?_
    intro hoptions hisolated hlossless hactive
    have hlost := lossless_reach hdrain hdirect hcopy
    have hbefore := active_before hs hprog hactive
    have hnow := hlost _ hs' i (by rw [hoptions, hisolated]) (by rw [hoptions, hlossless]) hactive
    exact hnow.missed.trans (hlost s hs i hisolated hlossless hbefore).missed.symm

/-- Behind a `shutdown(drain)` no thread has an offer in its hands. -/
theorem waiting_of_drain (hdirect : ∀ s a, ok s a → NoDirectCalls s a)
    {s : Config T (DispatcherMem Q) (ThreadLoc Q)} (hs : (system setup Q).Reach ok s)
    (hreturned : s.mem.shutdownReturned = true) (i : ℕ) :
    tally (partSum Part.waiting i) s.loc = 0 := by
  have hgone := (shutdownInv_reach s hs).stopped ((shutdownInv_reach s hs).returned hreturned)
  refine tally_eq_zero fun t => ?_
  unfold partSum
  apply List.sum_eq_zero
  intro w hw
  obtain ⟨p, hp, rfl⟩ := List.mem_map.mp hw
  cases p with
  | invoke event phase =>
      exfalso
      obtain ⟨f, hf, hpart⟩ := List.mem_map.mp hp
      obtain ⟨snapshot, subs, events, rfl⟩ | rfl := part_invoke_cases hpart
      · have hplaced := (threadInv_reach s hs).placed t _ hf
        exact hplaced.2 (hgone t hplaced.1)
      · exact noDirectCalls_reach hdirect s hs t i event phase hf
  | _ => rfl

/-- How the events offered to subscriber `i` compare with those accepted. -/
structure AllAccepted (i : ℕ) (s : Config T (DispatcherMem Q) (ThreadLoc Q))
    (offered : List (Publication E)) : Prop where
  /-- `offered_` is their number, modulo `2 ^ 64` -/
  counted : (s.mem.subs i).metrics.offered = UInt64.ofNat offered.length
  /-- what has not been accepted is in the hands of a thread that will offer it again -/
  accepted : Accepted i s offered
  drained : s.mem.shutdownReturned = true → offered.Perm (s.mem.subs i).mailed

/-- **Isolated delivery** is bounded, never overlaps and keeps the order; after a
`shutdown(drain)` an active subscriber has received everything it has accepted.  Unless a copy
has thrown, a lossless one has missed nothing and has accepted all that it was offered. -/
theorem isolated_delivery (setup : Setup T) (Q : QueuePolicy T (Publication E)) :
    (∀ s, (system setup Q).Reachable s → ∀ i, (s.mem.subs i).options.delivery = .isolated →
      (s.mem.subs i).mailbox.length ≤ (s.mem.subs i).options.mailboxCapacity ∧
      executing i s ≤ 1 ∧ (s.mem.subs i).received <+: (s.mem.subs i).mailed) ∧
    (∀ s, (system setup Q).Reach (DrainCalls setup) s → s.mem.shutdownReturned = true →
      ∀ i ∈ s.mem.history.published, (s.mem.subs i).options.delivery = .isolated →
        (s.mem.subs i).active = true → (s.mem.subs i).received = (s.mem.subs i).mailed) ∧
    ∀ s, (system setup Q).Reach
        (fun s a => DrainCalls setup s a ∧ NoDirectCalls s a ∧ ¬ CopyThrows s a) s →
      ∀ i, (s.mem.subs i).options.delivery = .isolated →
        (s.mem.subs i).options.guarantee = .lossless → (s.mem.subs i).active = true →
        Lossless (s.mem.subs i) ∧
        ∀ offered, (offersTo setup Q i).Steps
            (fun p a => DrainCalls setup p.1 a ∧ NoDirectCalls p.1 a ∧ ¬ CopyThrows p.1 a)
            (started setup Q, []) (s, offered) → AllAccepted i s offered := by
  refine ⟨?_, ?_, ?_⟩
  · intro s hs i hisolated
    obtain ⟨o, ho⟩ := exists_runs i s
    exact ⟨mailbox_bounded s hs i, executing_le_one hs hisolated,
      (fifoAt_reach s hs i o ho hisolated).received_in_order⟩
  · intro s hs hreturned i hi hisolated hactive
    exact drain_complete (fun _ _ h => h) hs hreturned hi hisolated hactive
  · intro s hs i hisolated hlossless hactive
    have hdrain : ∀ s a, DrainCalls setup s a ∧ NoDirectCalls (Q := Q) s a ∧ ¬ CopyThrows s a →
        DrainCalls setup s a := fun _ _ h => h.1
    refine ⟨lossless_reach hdrain (fun _ _ h => h.2.1) (fun _ _ h => h.2.2) s hs i hisolated
      hlossless hactive, ?_⟩
    intro offered hrun
    obtain ⟨_, hinv⟩ := offerInv_reach hdrain (fun _ _ h => h.2.1) (fun _ _ h => h.2.2) hrun
    have haccepted := hinv.accepted (.inr ⟨hisolated, hlossless, hactive⟩)
    refine ⟨hinv.counted, haccepted, ?_⟩
    intro hreturned
    unfold Accepted at haccepted
    rw [waiting_of_drain (fun _ _ h => h.2.1) hs hreturned i, add_zero] at haccepted
    exact Multiset.coe_eq_coe.mp haccepted

end Run

theorem not_copyThrows {s : Config T (DispatcherMem Q) (ThreadLoc Q)} {a : T × DispatcherChoice Q}
    (hflag : a.2.flag = false) : ¬ CopyThrows s a := by
  rintro ⟨i, event, phase, _, _, hthrows⟩
  rw [hflag] at hthrows
  unfold enqueueIsolated at hthrows
  split_ifs at hthrows <;> first | contradiction | cases hthrows

/-- What the schedules below keep to. -/
def drainTest (setup : Setup T) (a : T × DispatcherChoice Q) : Bool :=
  !a.2.flag && match a.2 with
    | .call (.shutdown policy) => policy = .drain && decide (Client setup a.1)
    | .call (.invoke _ _) => false
    | _ => true

/-- A step that passes the test meets the conditions. -/
theorem drainTest_sound {s : Config T (DispatcherMem Q) (ThreadLoc Q)} {a : T × DispatcherChoice Q}
    (h : drainTest setup a = true) :
    DrainCalls setup s a ∧ NoDirectCalls s a ∧ ¬ CopyThrows s a := by
  simp only [drainTest, Bool.and_eq_true, Bool.not_eq_true'] at h
  obtain ⟨hflag, hcall⟩ := h
  refine ⟨?_, ?_, not_copyThrows hflag⟩
  · intro policy heq
    simpa [heq] using hcall
  · intro i event heq
    simp [heq] at hcall

/-- The theorem applies where a lossless subscriber has received the one event that it was offered
and a `shutdown(drain)` has returned. -/
theorem isolated_delivery_drained :
    ∃ s, (system smallSetup (mutexPolicy (Fin 3) (Publication ℕ) 2)).Reach
        (fun s a => DrainCalls smallSetup s a ∧ NoDirectCalls s a ∧ ¬ CopyThrows s a) s ∧
      s.mem.shutdownReturned = true ∧ (s.mem.subs 1).received = [⟨0, 7⟩] ∧
      (s.mem.subs 1).received = (s.mem.subs 1).mailed ∧ Lossless (s.mem.subs 1) ∧
      AllAccepted 1 s [⟨0, 7⟩] := by
  have hran : ((offersTo smallSetup (mutexPolicy (Fin 3) (Publication ℕ) 2) 1).run
      (fun _ a => drainTest smallSetup a) (started smallSetup _, [])
      (List.flatten [[(1, .constructed)],
        subscribing { delivery := .isolated, guarantee := .lossless, mailboxCapacity := 1 },
        publishing 7, working 8, [(2, .start)], advance 2 4, [(2, .finish false)], advance 2 5,
        drainingOn 1, leavingOn 0, advance 1 7, advance 2 2, advance 1 6])).any
      (fun p => p.1.mem.shutdownReturned && decide ((p.1.mem.subs 1).received = [⟨0, 7⟩]) &&
        decide (1 ∈ p.1.mem.history.published) &&
        decide ((p.1.mem.subs 1).options.delivery = .isolated) &&
        decide ((p.1.mem.subs 1).options.guarantee = .lossless) && (p.1.mem.subs 1).active &&
        decide (p.2 = [⟨0, 7⟩])) = true := by decide +kernel
  obtain ⟨⟨s, offered⟩, hrun, hp⟩ := (Option.any_eq_true _ _).mp hran
  simp only [Bool.and_eq_true, decide_eq_true_eq] at hp
  obtain ⟨⟨⟨⟨⟨⟨hreturned, hreceived⟩, hpublished⟩, hisolated⟩, hlossless⟩, hactive⟩, rfl⟩ := hp
  have hsteps : (offersTo smallSetup (mutexPolicy (Fin 3) (Publication ℕ) 2) 1).Steps
      (fun p a => DrainCalls smallSetup p.1 a ∧ NoDirectCalls p.1 a ∧ ¬ CopyThrows p.1 a)
      (started smallSetup _, []) (s, [⟨0, 7⟩]) :=
    System.run_steps (fun _ _ h => drainTest_sound h) hrun
  have hs : (system smallSetup (mutexPolicy (Fin 3) (Publication ℕ) 2)).Reach
      (fun s a => DrainCalls smallSetup s a ∧ NoDirectCalls s a ∧ ¬ CopyThrows s a) s :=
    reach_of_offersTo hsteps
  obtain ⟨_, hdrained, hkept⟩ := isolated_delivery smallSetup (mutexPolicy (Fin 3) (Publication ℕ) 2)
  obtain ⟨hnone, hall⟩ := hkept s hs 1 hisolated hlossless hactive
  exact ⟨s, hs, hreturned, hreceived,
    hdrained s (hs.mono fun _ _ h => h.1) hreturned 1 hpublished hisolated hactive, hnone,
    hall _ hsteps⟩

end Dispatcher

end EventDispatcher
