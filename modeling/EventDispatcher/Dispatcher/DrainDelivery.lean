import EventDispatcher.Dispatcher.Deliveries

/-!
# Draining delivers exactly once

Over the mutex-based queue a worker leaves its loop only when a pop has told it that the queue
is closed and empty; the stop tokens of the publications never reach the pops of the workers.
So when a `shutdown(drain)` has joined the workers, everything that the queue ever accepted has
been broadcast, and everything that was owed has been handed over.
-/

namespace EventDispatcher

open Transition SubscriberState

variable {T E : Type} [DecidableEq T]

namespace MutexQueueThreads

variable {E : Type} {t : T} {m m' : MutexQueueMem T E} {l l' : MutexQueueLoc E}

/-- `stopped` is only answered to a thread that was asked to stop. -/
theorem lockPop_stopped {wait : Bool}
    (h : lockPop t m wait = some (m', .outside (some (.pop .stopped)))) : m.stop t = true := by
  unfold lockPop at h
  split at h
  · cases h
  · next hgo =>
      split at h
      · next hnone =>
          obtain ⟨hwait, hnotEmpty⟩ := Bool.and_eq_true_iff.mp hnone
          have hempty : m.ring.notEmpty = false := by simpa using hnotEmpty
          simpa [hwait, hempty] using hgo
      · split at h
        · unfold MutexQueue.emptyResult at h
          split at h <;> cases h
        · obtain ⟨r, _, hr⟩ := Option.map_eq_some_iff.mp h
          cases hr

/-- A pop returns `stopped` only to a thread whose token has been asked to stop. -/
theorem stopped_of_step {c : MutexQueueChoice T E}
    (h : step t c m l = some (m', .outside (some (.pop .stopped)))) :
    l = .outside (some (.pop .stopped)) ∨ m.stop t = true := by
  cases l with
  | outside last =>
      cases c with
      | requestStop target =>
          cases h
          exact .inl rfl
      | call op => cases op <;> cases h
      | _ => cases h
  | pop wait =>
      cases c with
      | lock throws => exact .inr (lockPop_stopped h)
      | _ => cases h
  | popParked =>
      cases c with
      | lock throws =>
          simp only [step] at h
          split at h
          · cases h
          · exact .inr (lockPop_stopped h)
      | _ => cases h
  | popNotify event | pushNotify =>
      cases c with
      | notifyOne u =>
          obtain ⟨left, _, hr⟩ := Option.map_eq_some_iff.mp h
          cases hr
      | _ => cases h
  | push kind event | pushTimedOut event | pushParked kind event =>
      have hfailed := step_effect h
      cases hfailed with
      | popFailed hl => rcases hl with hl | ⟨_, hl⟩ <;> cases hl
  | _ =>
      cases c <;> cases h

/-- A call begins with the token of its caller. -/
theorem stop_of_call {op : QueueOp E} (h : step t (.call op) m l = some (m', l')) :
    m'.stop = Function.update m.stop t op.stop ∧ l' = .start op := by
  cases l with
  | outside last =>
      cases h
      exact ⟨rfl, rfl⟩
  | _ => cases h

/-- A stop request reaches its target only. -/
theorem stop_of_request {target : T} (h : step t (.requestStop target) m l = some (m', l')) :
    m'.stop = Function.update m.stop target true := by
  cases l with
  | outside last =>
      cases h
      rfl
  | _ => cases h

/-- Inside an operation no token changes. -/
theorem stop_of_busy {c : MutexQueueChoice T E} (h : step t c m l = some (m', l'))
    (hbusy : ∀ last, l ≠ .outside last) : m'.stop = m.stop := by
  cases step_effect h with
  | call op last | requestStop target last => exact absurd rfl (hbusy _)
  | _ => rfl

end MutexQueueThreads

section Frames

variable {Q : QueuePolicy T (Publication E)} {setup : Setup T} {flag : Bool} {t : T}
  {m m' : DispatcherMem Q} {q q' : Q.Loc} {contexts contexts' : Contexts} {f : Frame T E}
  {f' : Option (Frame T E)}

/-- The push of a publication. -/
def Frame.pushes : Frame T E → Bool
  | .publish _ _ _ _ .pushing => true
  | _ => false

/-- A thread is in the table of the publishing threads while its push lasts. -/
theorem FrameStep.publishing_cases
    (h : FrameStep setup flag t m q contexts f m' q' contexts' f') :
    (m'.threads.publishing = m.threads.publishing ∧ f.pushes = false) ∨
      (m'.threads.publishing = insert t m.threads.publishing ∧ ∃ g, f' = some g ∧ g.pushes = true) ∨
      m'.threads.publishing = m.threads.publishing.erase t := by
  cases h with
  | publishCall => exact .inr (.inl ⟨rfl, _, rfl, rfl⟩)
  | publishReturned | publishThrew => exact .inr (.inr rfl)
  | publishCounted | publishNext | deactivate | deactivateAgain => exact .inl ⟨by simp, rfl⟩
  | invoke hframe hstep => cases hframe <;> exact .inl ⟨rfl, rfl⟩
  | stop hframe hstep => cases hframe <;> exact .inl ⟨rfl, rfl⟩
  | _ => exact .inl ⟨rfl, rfl⟩

/-- A worker is in a pop because it has called one. -/
theorem FrameStep.popping_cases (h : FrameStep setup flag t m q contexts f m' q' contexts' f')
    {batch : List (Publication E)} (hg : f' = some (.worker (.popping batch))) :
    Q.step t (Q.call (.pop batch.isEmpty false)) m.queue q = some (m'.queue, q') := by
  cases h with
  | callPop batch hstep =>
      cases hg
      exact hstep
  | invoke hframe hstep => cases hframe <;> cases hg
  | stop hframe hstep => cases hframe <;> cases hg
  | _ => cases hg

/-- Only workers broadcast. -/
theorem FrameStep.batches_cases (h : FrameStep setup flag t m q contexts f m' q' contexts' f') :
    m'.history.batches = m.history.batches ∨ ∃ phase, f = .worker phase := by
  cases h with
  | acquireNone | acquire => exact .inr ⟨_, rfl⟩
  | publishCounted | publishNext | deactivate | deactivateAgain => exact .inl (by simp)
  | _ => exact .inl rfl

/-- No step outside the queue destroys an event. -/
theorem FrameStep.destroyed_eq (h : FrameStep setup flag t m q contexts f m' q' contexts' f') :
    m'.history.destroyed = m.history.destroyed := by
  cases h with
  | publishCounted | publishNext | deactivate | deactivateAgain => simp
  | _ => rfl

omit [DecidableEq T] in
/-- `stop_delivery` deactivates nobody. -/
theorem StopStep.active_eq {s s' : SubscriberState T E} {finished : Finset T} {drain : Bool}
    {phase phase' : StopPhase} (h : StopStep t s finished drain phase s' phase') :
    s'.active = s.active := by
  cases h with
  | stopMailbox => cases drain <;> rfl
  | _ => rfl

omit [DecidableEq T] in
/-- Nor does a callback. -/
theorem CallbackStep.active_eq {i : ℕ} {s s' : SubscriberState T E} {event : E}
    {phase phase' : CallbackPhase}
    (h : CallbackStep i s contexts event phase s' contexts' phase') : s'.active = s.active := by
  cases h <;> rfl

/-- Nor does `try_invoke`. -/
theorem InvokeStep.active_eq {i : ℕ} {s s' : SubscriberState T E} {event : E}
    {phase phase' : InvokePhase}
    (h : InvokeStep flag t i s contexts event phase s' contexts' phase') :
    s'.active = s.active := by
  cases h with
  | callback hstep => exact hstep.active_eq
  | _ => rfl

/-- Nor does an executor. -/
theorem ExecutorStep.active_eq {i : ℕ} {s s' : SubscriberState T E}
    {phase phase' : ExecutorPhase E}
    (h : ExecutorStep t i s contexts phase s' contexts' phase') : s'.active = s.active := by
  cases h with
  | callback hstep => exact hstep.active_eq
  | _ => rfl

/-- A subscriber is deactivated in `unsubscribe` only. -/
theorem FrameStep.active_cases (h : FrameStep setup flag t m q contexts f m' q' contexts' f') :
    ((∀ i, (m.subs i).active = true → (m'.subs i).active = true) ∧
        m'.history.unsubscribed = m.history.unsubscribed) ∨
      ∃ j, m' = (m.setSub j (m.subs j).deactivate).recordUnsubscribed j := by
  have hset : ∀ {j : ℕ} {s : SubscriberState T (Publication E)},
      ((m.subs j).active = true → s.active = true) →
      ∀ i, (m.subs i).active = true → (Function.update m.subs j s i).active = true := by
    intro j s hs i hi
    by_cases hij : i = j
    · subst hij
      simpa using hs hi
    · rwa [Function.update_of_ne hij]
  cases h with
  | deactivate j | deactivateAgain j => exact .inr ⟨j, rfl⟩
  | invoke hframe hstep => exact .inl ⟨hset fun hi => hstep.active_eq.trans hi, rfl⟩
  | executor hstep => exact .inl ⟨hset fun hi => hstep.active_eq.trans hi, rfl⟩
  | stop hframe hstep => exact .inl ⟨hset fun hi => hstep.active_eq.trans hi, rfl⟩
  | subscribeConstruct => exact .inl ⟨hset fun _ => rfl, rfl⟩
  | subscribeSpawn => exact .inl ⟨hset id, rfl⟩
  | idlePark | idleWake => exact .inl ⟨hset id, rfl⟩
  | publishCounted | publishNext => exact .inl (by simp)
  | _ => exact .inl ⟨fun _ => id, rfl⟩

end Frames

namespace Dispatcher

omit [DecidableEq T] in
/-- User code is not inside a publication of its frame. -/
theorem user_pushes {f : Frame T E} (h : f.user = true) : f.pushes = false := by
  unfold Frame.user at h
  split at h <;> first | rfl | cases h

omit [DecidableEq T] in
/-- A call records no event. -/
theorem enter_records {Q : QueuePolicy T (Publication E)} {m m' : DispatcherMem Q}
    {call : Call T E} {f : Frame T E} (h : enter m call = some (m', f)) :
    m'.history.unsubscribed = m.history.unsubscribed ∧
      m'.history.accepted = m.history.accepted ∧
      m'.history.destroyed = m.history.destroyed := by
  cases call with
  | unsubscribe i | invoke i event =>
      simp only [enter] at h
      split at h <;> cases h
      exact ⟨rfl, rfl, rfl⟩
  | _ =>
      cases h
      exact ⟨rfl, rfl, rfl⟩

section Publishing

variable {Q : QueuePolicy T (Publication E)} {setup : Setup T}
  {ok : Config T (DispatcherMem Q) (ThreadLoc Q) → T × DispatcherChoice Q → Prop}

/-- **Run lemma**: a thread in the table is in its push. -/
theorem publishing_reach : ∀ s, (system setup Q).Reach ok s → ∀ t ∈ s.mem.threads.publishing,
    ∃ f ∈ (s.loc t).stack.head?, f.pushes = true := by
  refine interleave_invariant ?_ ?_
  · intro s hs t ht
    rw [show s = _ from hs] at ht
    simp [started] at ht
  · intro s t c m l hs hinv _ hstep u hu
    simp only at hu ⊢
    have hother : u ≠ t → u ∈ s.mem.threads.publishing →
        ∃ f ∈ (Function.update s.loc t l u).stack.head?, f.pushes = true := by
      intro hut hbefore
      rw [Function.update_of_ne hut]
      exact hinv u hbefore
    -- a thread that is in its push takes no other step
    have hmine : ∀ {f rest}, (s.loc t).stack = f :: rest → f.pushes = false →
        t ∉ s.mem.threads.publishing := by
      intro f rest hstack hf hbefore
      obtain ⟨g, hg, hpushes⟩ := hinv t hbefore
      rw [hstack] at hg
      cases hg
      rw [hpushes] at hf
      cases hf
    have hidle : (s.loc t).stack = [] → t ∉ s.mem.threads.publishing := by
      intro hstack hbefore
      obtain ⟨g, hg, _⟩ := hinv t hbefore
      rw [hstack] at hg
      cases hg
    by_cases hut : u = t
    · subst hut
      rw [Function.update_self]
      cases step_shape hstep with
      | constructed hstack | start hstack => exact absurd hu (hidle hstack)
      | call huser henter =>
          rw [(enter_mem henter).2] at hu
          cases hstack : (s.loc u).stack with
          | nil => exact absurd hu (hidle hstack)
          | cons f rest =>
              rw [hstack] at huser
              exact absurd hu (hmine hstack (user_pushes huser))
      | finish hstack hfinish =>
          have huser := (finishUser_account hfinish (.outside none)).1
          exact absurd hu (hmine hstack (user_pushes huser))
      | frame hstack hframe =>
          rcases hframe.publishing_cases with ⟨hsame, hf⟩ | ⟨_, g, rfl, hg⟩ | herased
          · rw [hsame] at hu
            exact absurd hu (hmine hstack hf)
          · exact ⟨g, rfl, hg⟩
          · rw [herased] at hu
            exact absurd rfl (Finset.ne_of_mem_erase hu)
      | queue hstack => exact hinv u hu
    · refine hother hut ?_
      cases step_shape hstep with
      | call huser henter =>
          rw [(enter_mem henter).2] at hu
          exact hu
      | frame hstack hframe =>
          rcases hframe.publishing_cases with ⟨hsame, _⟩ | ⟨hinserted, _⟩ | herased
          · rwa [hsame] at hu
          · rw [hinserted] at hu
            exact Finset.mem_of_mem_insert_of_ne hu hut
          · rw [herased] at hu
            exact Finset.mem_of_mem_erase hu
      | _ => exact hu

end Publishing

section Delivered

variable {Q : QueuePolicy T (Publication E)} {setup : Setup T} {t : T} {m m' : DispatcherMem Q}
  {l l' : ThreadLoc Q} {c : DispatcherChoice Q}

/-- Only the first critical section of `unsubscribe` deactivates. -/
theorem StepShape.active_cases (h : StepShape setup t m l c m' l') :
    ((∀ i, (m.subs i).active = true → (m'.subs i).active = true) ∧
        m'.history.unsubscribed = m.history.unsubscribed) ∨
      ∃ j, m' = (m.setSub j (m.subs j).deactivate).recordUnsubscribed j := by
  cases h with
  | call huser henter =>
      obtain ⟨hsubs, _⟩ := enter_history henter
      exact .inl ⟨by simp [hsubs], (enter_records henter).1⟩
  | frame hstack hstep => exact hstep.active_cases
  | _ => exact .inl ⟨fun _ => id, rfl⟩

omit [DecidableEq T] in
/-- A deactivation before the return of `shutdown` is recorded. -/
theorem mem_recordUnsubscribed {i : ℕ} (h : ¬ m.shutdownReturned = true) :
    i ∈ (m.recordUnsubscribed i).history.unsubscribed := by
  rw [DispatcherMem.recordUnsubscribed, if_neg h]
  exact List.mem_cons_self

/-- What is recorded stays so. -/
theorem StepShape.unsubscribed_subset (h : StepShape setup t m l c m' l') {i : ℕ}
    (hi : i ∈ m.history.unsubscribed) : i ∈ m'.history.unsubscribed := by
  rcases h.active_cases with ⟨_, hsame⟩ | ⟨j, rfl⟩
  · rwa [hsame]
  · unfold DispatcherMem.recordUnsubscribed
    split
    · exact hi
    · exact List.mem_cons_of_mem _ hi

/-- Only a worker that has not finished broadcasts. -/
theorem StepShape.batches_of_not_worker (h : StepShape setup t m l c m' l')
    (hplaced : ∀ f ∈ l.stack, Placed setup m t f)
    (hnot : t ∈ setup.workers → t ∈ m.threads.finished) :
    m'.history.batches = m.history.batches := by
  cases h with
  | call huser henter => exact (enter_history henter).2.1
  | @frame _ _ _ _ _ f _ _ hstack hstep =>
      rcases hstep.batches_cases with hsame | ⟨phase, rfl⟩
      · exact hsame
      · obtain ⟨hworker, hunfinished⟩ := hplaced (.worker phase) (by
          rw [hstack]
          exact List.mem_cons_self)
        exact absurd (hnot hworker) hunfinished
  | _ => rfl

/-- Subscriber `i` has received everything that was published after it had its handle and has
been broadcast. -/
def Delivered (i : ℕ) (m : DispatcherMem Q) : Prop :=
  m.books.broadcast.filter (fun event => i ∈ m.history.due event.id) ≤
    ((m.subs i).received : Multiset (Publication E))

variable [Fintype T] {M : QueueModel Q}
  {ok : Config T (DispatcherMem Q) (ThreadLoc Q) → T × DispatcherChoice Q → Prop}
  {s : Config T (DispatcherMem Q) (ThreadLoc Q)}

/-- **Step lemma**: without workers this stays so. -/
theorem Delivered.step {i : ℕ} (h : Delivered i s.mem) (hs : (system setup Q).Reach ok s)
    (hledger : Ledger M s) (hgone : WorkersGone setup s.mem)
    (hstep : StepShape setup t s.mem (s.loc t) c m' l') : Delivered i m' := by
  have hbatches := hstep.batches_of_not_worker ((threadInv_reach s hs).placed t) (hgone t)
  have hbroadcast : m'.books.broadcast = s.mem.books.broadcast := by
    simp [Books.broadcast, hbatches]
  unfold Delivered
  rw [hbroadcast, hstep.due_filter hledger i]
  refine h.trans (Multiset.coe_le.mpr ?_)
  exact (hstep.received_kept (allotted_reach s hs).mem i).sublist.subperm

/-- Only a worker that has not finished owes anything. -/
theorem ahead_of_not_worker (hs : (system setup Q).Reach ok s)
    (hnot : t ∈ setup.workers → t ∈ s.mem.threads.finished) (i : ℕ) : ahead i (s.loc t) = [] := by
  refine List.flatMap_eq_nil_iff.mpr fun f hf => ?_
  cases f with
  | worker phase =>
      obtain ⟨hworker, hunfinished⟩ := (threadInv_reach s hs).placed t _ hf
      exact absurd (hnot hworker) hunfinished
  | _ => rfl

/-- A subscriber that is undisturbed when a `shutdown(drain)` has returned. -/
theorem delivered_of_returned (hdrain : ∀ s a, ok s a → DrainCalls setup s a)
    (hdirect : ∀ s a, ok s a → NoDirectCalls s a) (hempty : Q.contents Q.mem₀ = [])
    (hidle : M.view Q.loc₀ = .outside none) (hs : (system setup Q).Reach ok s)
    (hreturned : s.mem.shutdownReturned = true) {i : ℕ} (hun : Undisturbed (s.mem.subs i)) :
    Delivered i s.mem := by
  have hshutdown := shutdownInv_reach s hs
  have hgone := hshutdown.stopped (hshutdown.returned hreturned)
  have hdue := due_le_handed (M := M) hdirect hempty hidle s hs i hun
  have hhanded : handed i s = ((s.mem.subs i).got : Multiset (Publication E)) := by
    unfold handed
    rw [tally_eq_zero, add_zero]
    intro t
    rw [ahead_of_not_worker hs (hgone t) i]
    rfl
  rw [hhanded] at hdue
  by_cases hnone : s.mem.books.broadcast.filter (fun event => i ∈ s.mem.history.due event.id) = 0
  · unfold Delivered
    rw [hnone]
    exact Multiset.zero_le _
  · -- somebody has published for it, so it has its handle
    obtain ⟨event, hevent⟩ := Multiset.exists_mem_of_ne_zero hnone
    have hpublished := (registryInv_reach s hs).ok.handles i
      (due_subscribed s hs _ i (Multiset.mem_filter.mp hevent).2)
    refine hdue.trans (le_of_eq ?_)
    unfold got
    split
    · next hisolated =>
        rw [drain_complete hdrain hs hreturned hpublished hisolated hun.1]
    · rfl

/-- **Run lemma.**  A subscriber that has been deactivated was so before a `shutdown` returned,
or had received everything. -/
theorem delivered_reach {P : SubscriptionOptions → Prop}
    (hdrain : ∀ s a, ok s a → DrainCalls setup s a)
    (hdirect : ∀ s a, ok s a → NoDirectCalls s a) (hempty : Q.contents Q.mem₀ = [])
    (hidle : M.view Q.loc₀ = .outside none)
    (hkept : ∀ s, (system setup Q).Reach ok s → ∀ i, P (s.mem.subs i).options →
      (s.mem.subs i).active = true → Undisturbed (s.mem.subs i)) :
    ∀ s, (system setup Q).Reach ok s → ∀ i, (s.mem.subs i).active = true ∨
      i ∈ s.mem.history.unsubscribed ∨
      (WorkersGone setup s.mem ∧ (P (s.mem.subs i).options → Delivered i s.mem)) := by
  refine interleave_invariant ?_ ?_
  · intro s hs i
    rw [show s = _ from hs]
    exact .inl rfl
  · intro s t c m l hs hinv _ hstep i
    have hshape := step_shape hstep
    have hknown := (allotted_reach s hs).mem
    have hledger := ledger_reach hempty hidle s hs.reachable
    -- what was settled stays settled
    have hlater : (m.subs i).options = (s.mem.subs i).options → WorkersGone setup s.mem →
        (P (s.mem.subs i).options → Delivered i s.mem) →
        WorkersGone setup m ∧ (P (m.subs i).options → Delivered i m) := by
      intro hoptions hgone hdelivered
      refine ⟨workersGone_mono hgone hshape.finished_subset, ?_⟩
      rw [hoptions]
      exact fun hP => (hdelivered hP).step hs hledger hgone hshape
    by_cases hactive : (s.mem.subs i).active = true
    · rcases hshape.active_cases with ⟨hkeep, _⟩ | ⟨j, heq⟩
      · exact .inl (hkeep i hactive)
      · simp only [heq, DispatcherMem.recordUnsubscribed_subs, DispatcherMem.setSub_subs] at *
        by_cases hij : i = j
        · subst hij
          by_cases hreturned : s.mem.shutdownReturned = true
          · have hshutdown := shutdownInv_reach s hs
            refine .inr (.inr (hlater (by simp)
              (hshutdown.stopped (hshutdown.returned hreturned)) fun hP => ?_))
            exact delivered_of_returned (M := M) hdrain hdirect hempty hidle hs hreturned
              (hkept s hs i hP hactive)
          · exact .inr (.inl (mem_recordUnsubscribed hreturned))
        · left
          rwa [Function.update_of_ne hij]
    · rcases hinv i with hstill | hunsubscribed | ⟨hgone, hdelivered⟩
      · exact absurd hstill hactive
      · exact .inr (.inl (hshape.unsubscribed_subset hunsubscribed))
      · obtain ⟨p, p', hpart, _⟩ := hshape.partStep hknown i
        have hallocated : i ≠ s.mem.registry.nextId := by
          intro hi
          rw [hknown.fresh i hi.ge] at hactive
          exact hactive rfl
        exact .inr (.inr (hlater (hpart.options_eq.resolve_right hallocated) hgone hdelivered))

omit [Fintype T] in
/-- **Run lemma**: nothing is destroyed without a `shutdown(discard)`. -/
theorem destroyed_of_drain (hdrain : ∀ s a, ok s a → DrainCalls setup s a) :
    ∀ s, (system setup Q).Reach ok s → s.mem.history.destroyed = [] := by
  refine interleave_invariant ?_ ?_
  · intro s hs
    rw [show s = _ from hs]
    rfl
  · intro s t c m l hs hinv _ hstep
    cases step_shape hstep with
    | call huser henter => rw [(enter_records henter).2.2, hinv]
    | frame hstack hframe =>
        rw [hframe.destroyed_eq, hinv]
    | @queue choice qm q' f rest hstack hin hbusy hqueue =>
        simp only [DispatcherMem.setQueue_history_destroyed, hinv, List.nil_append]
        unfold destroyed
        split
        · next phase =>
            obtain ⟨hpolicy, _⟩ := drainCalls_reach hdrain s hs t .discard phase (by
              rw [hstack]
              exact List.mem_cons_self)
            cases hpolicy
        · rfl
    | _ => exact hinv

end Delivered

section Mutex

variable {capacity : ℕ} {setup : Setup T} {t : T}
  {m m' : DispatcherMem (mutexPolicy T (Publication E) capacity)}
  {l l' : ThreadLoc (mutexPolicy T (Publication E) capacity)}
  {c : DispatcherChoice (mutexPolicy T (Publication E) capacity)}
  {ok : Config T (DispatcherMem (mutexPolicy T (Publication E) capacity)) (ThreadLoc _) →
    T × DispatcherChoice (mutexPolicy T (Publication E) capacity) → Prop}

/-- Nobody has stopped the pop that the thread is in. -/
def Unstopped (m : DispatcherMem (mutexPolicy T (Publication E) capacity)) (t : T)
    (l : ThreadLoc (mutexPolicy T (Publication E) capacity)) : Prop :=
  ∀ batch, .worker (.popping batch) ∈ l.stack.head? →
    m.queue.stop t = false ∧ l.queue ≠ .outside (some (.pop .stopped))

/-- **Step lemma**, for the moving thread. -/
theorem StepShape.unstopped (h : StepShape setup t m l c m' l') (horder : InOrder l)
    (hbefore : Unstopped m t l) : Unstopped m' t l' := by
  intro batch hhead
  cases h with
  | constructed hstack | start hstack =>
      simp [hstack] at hhead
  | call huser henter =>
      cases hhead
      cases (enter_base henter).1
  | finish hstack hfinish =>
      cases hhead
      unfold Frame.finishUser at hfinish
      split at hfinish <;> cases hfinish
  | @frame _ _ _ q' _ f f' rest hstack hstep =>
      cases f' with
      | some g =>
          cases hhead
          obtain ⟨hstop, hloc⟩ := MutexQueueThreads.stop_of_call (hstep.popping_cases rfl)
          refine ⟨by rw [hstop, Function.update_self]; rfl, ?_⟩
          simp only [hloc]
          rintro ⟨⟩
      | none =>
          have hsuspended := horder.suspended
          rw [hstack] at hsuspended
          cases hsuspended _ (List.mem_of_mem_head? hhead)
  | queue hstack hin hbusy hstep =>
      obtain ⟨hstop, hnot⟩ := hbefore batch hhead
      have hinside : ∀ last, l.queue ≠ .outside last := by
        intro last heq
        rw [heq] at hbusy
        cases hbusy
      have hkept := MutexQueueThreads.stop_of_busy hstep hinside
      refine ⟨(congrFun hkept t).trans hstop, ?_⟩
      intro heq
      simp only at heq
      rw [heq] at hstep
      rcases MutexQueueThreads.stopped_of_step hstep with hthere | hasked
      · exact hnot hthere
      · rw [hstop] at hasked
        cases hasked

/-- **Step lemma**, for the others: a stop request does not reach a thread that is in a pop. -/
theorem StepShape.unstopped_of_ne (h : StepShape setup t m l c m' l') {u : T}
    {lu : ThreadLoc (mutexPolicy T (Publication E) capacity)} (hut : u ≠ t)
    (hpublishing : u ∈ m.threads.publishing → ∃ f ∈ lu.stack.head?, f.pushes = true)
    (hbefore : Unstopped m u lu) : Unstopped m' u lu := by
  intro batch hhead
  obtain ⟨hstop, hnot⟩ := hbefore batch hhead
  refine ⟨?_, hnot⟩
  have hcall : ∀ {op : QueueOp (Publication E)} {q q' : MutexQueueLoc (Publication E)}
      {qm : MutexQueueMem T (Publication E)},
      MutexQueueThreads.step t (.call op) m.queue q = some (qm, q') → qm.stop u = false := by
    intro op q q' qm hstep
    rw [(MutexQueueThreads.stop_of_call hstep).1, Function.update_of_ne hut, hstop]
  cases h with
  | call huser henter => rw [enter_queue henter, hstop]
  | frame hstack hstep =>
      cases hstep with
      | callPop batch hstep => exact hcall hstep
      | publishCall event kind stop rest hstep => exact hcall hstep
      | callClose policy hstep => exact hcall hstep
      | stopIssued target htarget hstep =>
          rw [MutexQueueThreads.stop_of_request hstep, Function.update_of_ne, hstop]
          rintro rfl
          obtain ⟨f, hf, hpushes⟩ := hpublishing htarget
          obtain rfl := Option.mem_unique hf hhead
          cases hpushes
      | publishCounted | publishNext | deactivate | deactivateAgain => simpa using hstop
      | _ => exact hstop
  | queue hstack hin hbusy hstep =>
      have hinside : ∀ last, l.queue ≠ .outside last := by
        intro last heq
        rw [heq] at hbusy
        cases hbusy
      exact (congrFun (MutexQueueThreads.stop_of_busy hstep hinside) u).trans hstop
  | _ => exact hstop

/-- **Run lemma.** -/
theorem unstopped_reach : ∀ s, (system setup _).Reach ok s → ∀ t, Unstopped s.mem t (s.loc t) := by
  refine interleave_invariant ?_ ?_
  · intro s hs t batch hhead
    rw [show s = _ from hs] at hhead
    simp only [started] at hhead
    split at hhead <;> cases hhead
  · intro s t c m l hs hinv _ hstep
    have hshape := step_shape hstep
    refine (Function.forall_update_iff s.loc fun u l => Unstopped m u l).mpr ⟨?_, ?_⟩
    · exact hshape.unstopped (inOrder_reach s hs t) (hinv t)
    · intro u hut
      exact hshape.unstopped_of_ne hut (publishing_reach s hs u) (hinv u)

/-- How a worker comes to its end. -/
theorem worker_finishes {w : T} (h : StepShape setup t m l c m' l') (hworker : w ∈ setup.workers)
    (hplaced : ∀ f ∈ l.stack, Placed setup m t f) (hbefore : w ∉ m.threads.finished)
    (hafter : w ∈ m'.threads.finished) :
    w = t ∧ l.stack.head? = some (.worker (.popping [])) ∧
      (l.queue = .outside (some (.pop .closed)) ∨ l.queue = .outside (some (.pop .stopped))) := by
  cases h with
  | call huser henter =>
      rw [(enter_mem henter).2] at hafter
      exact absurd hafter hbefore
  | @frame _ _ _ _ _ f _ _ hstack hstep =>
      have hmem : f ∈ l.stack := by
        rw [hstack]
        exact List.mem_cons_self
      cases hstep with
      | @workerDone result hidle hlast hresult =>
          refine ⟨(Finset.mem_insert.mp hafter).resolve_right hbefore, by rw [hstack]; rfl, ?_⟩
          generalize l.queue = q at hidle hlast
          cases q with
          | outside last =>
              obtain rfl : last = some (.pop result) := hlast
              exact hresult.imp (fun h => by rw [h]) fun h => by rw [h]
          | _ => cases hidle
      | executorDone i =>
          obtain rfl := (Finset.mem_insert.mp hafter).resolve_right hbefore
          exact absurd (hplaced _ hmem).2.1 (setup.disjoint w hworker)
      | publishCounted | publishNext | deactivate | deactivateAgain =>
          exact absurd (by simpa using hafter) hbefore
      | _ => exact absurd hafter hbefore
  | _ => exact absurd hafter hbefore

/-- **A worker that has left its loop has seen the queue closed and empty.** -/
theorem sealed_of_finished [Fintype T] (hcap : capacity ≠ 0) :
    ∀ s, (system setup (mutexPolicy T (Publication E) capacity)).Reach ok s →
      ∀ w ∈ setup.workers, w ∈ s.mem.threads.finished → MutexQueueThreads.Sealed s.mem.queue := by
  refine interleave_invariant ?_ ?_
  · intro s hs w _ hfinished
    rw [show s = _ from hs] at hfinished
    simp [started] at hfinished
  · intro s t c m l hs hinv _ hstep w hworker hfinished
    have hshape := step_shape hstep
    have hkeep := hshape.closed (mutexSeal T (Publication E) hcap) hs.reachable
    by_cases hbefore : w ∈ s.mem.threads.finished
    · exact hkeep (hinv w hworker hbefore)
    · obtain ⟨rfl, hhead, hclosed | hstopped⟩ := worker_finishes hshape hworker
        ((threadInv_reach s hs).placed t) hbefore hfinished
      · refine hkeep (MutexQueueThreads.sealed_reach (Nat.pos_of_ne_zero hcap) _
          (mutex_reach T _ (queue_reach s hs)) w ?_)
        change MutexQueueThreads.seals (s.loc w).queue = true
        rw [hclosed]
        rfl
      · exact absurd hstopped (unstopped_reach s hs w [] hhead).2

end Mutex

end Dispatcher

section Accounts

variable {T : Type}

/-- Every accepted event that was published after subscriber `i` had its handle has reached its
callback once, unless `i` was unsubscribed before a `shutdown` returned. -/
def DeliveredOnce (h : History T E) (i : ℕ) : Prop :=
  ∀ event ∈ h.accepted, i ∈ h.due event.id → i ∉ h.unsubscribed →
    h.invocations.filter (fun p => p.1 = i ∧ p.2.id = event.id) = [(i, event)]

/-- What has become of the publications when a `shutdown(drain)` has returned. -/
structure DrainAccounts (h : History T E) (metrics : DispatcherMetrics) : Prop where
  /-- the accepted events are those whose publication returned `success` -/
  accepted_iff : ∀ id, id ∈ h.accepted.map Publication.id ↔ (id, .returned .success) ∈ h.returned
  /-- no two of them belong to one publication -/
  distinct : (h.accepted.map Publication.id).Nodup
  dequeued : (h.dequeued.map Prod.snd).Perm h.accepted
  broadcast : (h.batches.flatMap Prod.snd).Perm h.accepted
  one_worker : ∀ event ∈ h.accepted, ∃! worker, (worker, event) ∈ h.dequeued
  one_batch : ∀ event ∈ h.accepted, ∃! k : ℕ, ∃ b, h.batches[k]? = some b ∧ event ∈ b.2
  dropped : metrics.dropped = 0
  /-- no callback is entered twice for one publication -/
  at_most_once : ∀ i id, (h.invocations.filter fun p => p.1 = i ∧ p.2.id = id).length ≤ 1
  /-- nothing that was not accepted reaches a callback -/
  only_accepted : ∀ p ∈ h.invocations, p.2 ∈ h.accepted

/-- A key occurs at most once in a list without repetition. -/
theorem filter_key_length_le {A B : Type} [DecidableEq B] {key : A → B} {l : List A}
    (h : (l.map key).Nodup) (b : B) : (l.filter fun a => key a = b).length ≤ 1 := by
  have hcount := List.nodup_iff_count_le_one.mp h b
  rwa [List.count, List.countP_map, List.countP_eq_length_filter] at hcount

/-- A list of one element at most that has one. -/
theorem eq_singleton_of_mem {A : Type} {l : List A} {a : A} (hlength : l.length ≤ 1)
    (hmem : a ∈ l) : l = [a] := by
  cases l with
  | nil => cases hmem
  | cons b rest =>
      obtain rfl := List.length_eq_zero_iff.mp (Nat.le_of_succ_le_succ hlength |> Nat.le_zero.mp)
      rw [List.mem_singleton.mp hmem]

/-- Where an element of a concatenation without repetition comes from. -/
theorem unique_index_of_flatMap {A B : Type} {f : A → List B} {l : List A} {b : B}
    (h : (l.flatMap f).Nodup) (hb : b ∈ l.flatMap f) :
    ∃! k : ℕ, ∃ a, l[k]? = some a ∧ b ∈ f a := by
  obtain ⟨a, ha, hba⟩ := List.mem_flatMap.mp hb
  obtain ⟨k, hk⟩ := List.mem_iff_getElem?.mp ha
  refine ⟨k, ⟨a, hk, hba⟩, ?_⟩
  rintro j ⟨a', hj, hba'⟩
  have hdisjoint := (List.nodup_flatMap.mp h).2
  by_contra hjk
  obtain ⟨hjlt, rfl⟩ := List.getElem?_eq_some_iff.mp hj
  obtain ⟨hklt, rfl⟩ := List.getElem?_eq_some_iff.mp hk
  rcases Nat.lt_or_gt_of_ne hjk with hlt | hlt
  · exact List.pairwise_iff_getElem.mp hdisjoint j k hjlt hklt hlt hba' hba
  · exact List.pairwise_iff_getElem.mp hdisjoint k j hklt hjlt hlt hba hba'

end Accounts

namespace Dispatcher

/-- A subscriber that has received what was due to it has been called once for each event. -/
theorem deliveredOnce_of_delivered {Q : QueuePolicy T (Publication E)} {setup : Setup T}
    {ok : Config T (DispatcherMem Q) (ThreadLoc Q) → T × DispatcherChoice Q → Prop}
    {s : Config T (DispatcherMem Q) (ThreadLoc Q)} (hs : (system setup Q).Reach ok s)
    (hpairs : (s.mem.history.invocations.map fun p => (p.1, p.2.id)).Nodup)
    (hbroadcast : (s.mem.history.batches.flatMap Prod.snd).Perm s.mem.history.accepted) {i : ℕ}
    (h : i ∉ s.mem.history.unsubscribed → Delivered i s.mem) :
    DeliveredOnce s.mem.history i := by
  intro event hevent hdue hsubscribed
  refine eq_singleton_of_mem ?_ ?_
  · have hkey := filter_key_length_le hpairs (i, event.id)
    simpa only [Prod.mk.injEq] using hkey
  · have hmem : event ∈ (s.mem.subs i).received := by
      refine Multiset.mem_of_le (h hsubscribed) (Multiset.mem_filter.mpr ⟨?_, hdue⟩)
      exact hbroadcast.mem_iff.mpr hevent
    rw [← invoked_eq s hs i] at hmem
    obtain ⟨p, hp, rfl⟩ := List.mem_map.mp hmem
    obtain ⟨hin, hfst⟩ := List.mem_filter.mp hp
    obtain rfl : p.1 = i := by simpa using hfst
    exact List.mem_filter.mpr ⟨hin, by simp⟩

variable [Fintype T] {capacity : ℕ}

/-- The books after a `shutdown(drain)`, over the mutex-based queue. -/
theorem settled_of_drain (hcap : capacity ≠ 0) {setup : Setup T}
    {ok : Config T (DispatcherMem (mutexPolicy T (Publication E) capacity)) (ThreadLoc _) →
      T × DispatcherChoice (mutexPolicy T (Publication E) capacity) → Prop}
    (hdrain : ∀ s a, ok s a → DrainCalls setup s a)
    {s : Config T (DispatcherMem (mutexPolicy T (Publication E) capacity)) (ThreadLoc _)}
    (hs : (system setup _).Reach ok s) (hreturned : s.mem.shutdownReturned = true)
    (hquiet : ¬ InPublication s) :
    (s.mem.history.dequeued.map Prod.snd).Perm s.mem.history.accepted ∧
      (s.mem.history.batches.flatMap Prod.snd).Perm s.mem.history.accepted ∧
      s.mem.books.acceptedIds = successes s.mem.history.returned ∧ s.mem.metrics.dropped = 0 := by
  have hshutdown := shutdownInv_reach s hs
  have hstopped := hshutdown.returned hreturned
  have hledger := ledger_reach (M := mutexModel T (Publication E) hcap) rfl rfl s
    hs.reachable
  obtain ⟨haccepted, htaken, hids, _, hdropped⟩ :=
    hledger.settle fun t => account_of_stopped hs.reachable hstopped hquiet t
  obtain ⟨w, hw⟩ := List.exists_mem_of_ne_nil _ setup.workers_ne
  have hcontents : s.mem.queue.ring.contents = [] :=
    (sealed_of_finished hcap s hs w hw (hshutdown.stopped hstopped w hw)).2
  have hdestroyed := destroyed_of_drain hdrain s hs
  have hdequeued : s.mem.books.taken = (s.mem.books.accepted : Multiset (Publication E)) := by
    rw [haccepted, Books.settled, DispatcherMem.books_destroyed, DispatcherMem.books_contents,
      hdestroyed, show (mutexPolicy T (Publication E) capacity).contents s.mem.queue = [] from
      hcontents]
    simp
  refine ⟨Multiset.coe_eq_coe.mp hdequeued, Multiset.coe_eq_coe.mp (htaken.symm.trans hdequeued), hids, ?_⟩
  rw [hdropped, hdestroyed]
  rfl

/-- **Draining delivers exactly once.**  Over the mutex-based queue, when a `shutdown(drain)` has
returned and no publication is under way, every event whose publication returned `success` has
been dequeued by one worker, broadcast in one batch, and passed once to the callback of every
subscriber that had its handle in time; an isolated subscriber has to be lossless for that, and
the copies of the events must not throw. -/
theorem drain_delivers_once (hcap : capacity ≠ 0) (setup : Setup T)
    {s : Config T (DispatcherMem (mutexPolicy T (Publication E) capacity)) (ThreadLoc _)}
    (hs : (system setup _).Reach (fun s a => DrainCalls setup s a ∧ NoDirectCalls s a) s)
    (hreturned : s.mem.shutdownReturned = true) (hquiet : ¬ InPublication s) :
    DrainAccounts s.mem.history s.mem.metrics ∧
      (∀ i, (s.mem.subs i).options.delivery ≠ .isolated → DeliveredOnce s.mem.history i) ∧
      ((system setup _).Reach
          (fun s a => DrainCalls setup s a ∧ NoDirectCalls s a ∧ ¬ CopyThrows s a) s →
        ∀ i, (s.mem.subs i).options.delivery = .isolated →
          (s.mem.subs i).options.guarantee = .lossless → DeliveredOnce s.mem.history i) := by
  have hledger := ledger_reach (M := mutexModel T (Publication E) hcap) rfl rfl s
    hs.reachable
  obtain ⟨hdequeued, hbroadcast, hids, hdropped⟩ :=
    settled_of_drain hcap (fun _ _ h => h.1) hs hreturned hquiet
  have hnodup := hledger.accepted_nodup
  have hpairs : (s.mem.history.invocations.map fun p => (p.1, p.2.id)).Nodup :=
    nodup_invocations (fun _ _ h => h.2) hledger hs
  -- a subscriber with its handle is settled, or still active
  have hsettled : ∀ {ok : Config T (DispatcherMem (mutexPolicy T (Publication E) capacity))
        (ThreadLoc _) → T × DispatcherChoice (mutexPolicy T (Publication E) capacity) → Prop}
      {P : SubscriptionOptions → Prop} {i : ℕ}, (∀ s a, ok s a → DrainCalls setup s a) →
      (∀ s a, ok s a → NoDirectCalls s a) →
      (∀ s, (system setup _).Reach ok s → ∀ i, P (s.mem.subs i).options →
        (s.mem.subs i).active = true → Undisturbed (s.mem.subs i)) →
      (system setup _).Reach ok s → P (s.mem.subs i).options → DeliveredOnce s.mem.history i := by
    intro ok P i hdrain hdirect hkept hs hP
    refine deliveredOnce_of_delivered hs hpairs hbroadcast fun hsubscribed => ?_
    rcases delivered_reach (M := mutexModel T (Publication E) hcap) hdrain hdirect rfl rfl hkept s
      hs i with hactive | hunsubscribed | ⟨_, hdelivered⟩
    · exact delivered_of_returned (M := mutexModel T (Publication E) hcap) hdrain hdirect rfl rfl hs
        hreturned (hkept s hs i hP hactive)
    · exact absurd hunsubscribed hsubscribed
    · exact hdelivered hP
  refine ⟨?_, ?_, ?_⟩
  · exact
      { accepted_iff := by
          intro id
          rw [← mem_successes, ← hids]
          rfl
        distinct := hnodup
        dequeued := hdequeued
        broadcast := hbroadcast
        one_worker := by
          intro event hevent
          have hall : (s.mem.history.dequeued.map Prod.snd ++ []).Nodup := by
            rw [List.append_nil]
            exact hdequeued.nodup_iff.mpr hnodup.of_map
          rcases either_of_nodup hall (by
            rw [List.append_nil]
            exact hdequeued.mem_iff.mpr hevent) with ⟨hone, _⟩ | ⟨_, hnone⟩
          · exact hone
          · cases hnone
        one_batch := by
          intro event hevent
          exact unique_index_of_flatMap (hbroadcast.nodup_iff.mpr hnodup.of_map)
            (hbroadcast.mem_iff.mpr hevent)
        dropped := hdropped
        at_most_once := by
          intro i id
          have hkey := filter_key_length_le hpairs (i, id)
          simpa only [Prod.mk.injEq] using hkey
        only_accepted := fun p hp => accepted_of_invoked (fun _ _ h => h.2) hledger hs hp }
  · intro i hdelivery
    refine hsettled (P := fun options => options.delivery ≠ .isolated) (fun _ _ h => h.1)
      (fun _ _ h => h.2) ?_ hs hdelivery
    intro s _ i hdirect hactive
    exact ⟨hactive, fun hisolated => absurd hisolated hdirect⟩
  · intro hcopies i hdelivery hguarantee
    refine hsettled (P := fun options => options.delivery = .isolated ∧
      options.guarantee = .lossless) (fun _ _ h => h.1) (fun _ _ h => h.2.1) ?_ hcopies
      ⟨hdelivery, hguarantee⟩
    intro s hs i hlossless hactive
    refine ⟨hactive, fun _ => ?_⟩
    exact (lossless_reach (fun _ _ h => h.1) (fun _ _ h => h.2.1) (fun _ _ h => h.2.2) s hs i
      hlossless.1 hlossless.2 hactive).missed

/-- A lossless subscriber gets its handle, an event is published, the dispatcher is drained, and
the theorem applies. -/
theorem drain_delivers_once_of_one :
    ∃ (h : History (Fin 3) ℕ) (metrics : DispatcherMetrics), DrainAccounts h metrics ∧
      DeliveredOnce h 1 ∧ h.accepted = [⟨0, 7⟩] ∧ h.due 0 = [1] ∧ h.unsubscribed = [] := by
  obtain ⟨s, hs, hp⟩ := System.exists_reach_of_run
    (system smallSetup (mutexPolicy (Fin 3) (Publication ℕ) 2))
    (fun s a => DrainCalls smallSetup s a ∧ NoDirectCalls s a ∧ ¬ CopyThrows s a)
    (fun _ a => drainTest smallSetup a) (s := started smallSetup _) rfl
    (List.flatten [[(1, .constructed)],
      subscribing { delivery := .isolated, guarantee := .lossless, mailboxCapacity := 1 },
      publishing 7, working 8, [(2, .start)], advance 2 4, [(2, .finish false)], advance 2 5,
      drainingOn 1, leavingOn 0, advance 1 7, advance 2 2, advance 1 6])
    (fun s => s.mem.shutdownReturned && decide (∀ t, (s.loc t).stack = []) &&
      decide ((s.mem.subs 1).options.delivery = .isolated) &&
      decide ((s.mem.subs 1).options.guarantee = .lossless) &&
      decide (s.mem.history.accepted = [⟨0, 7⟩]) && decide (s.mem.history.due 0 = [1]) &&
      decide (s.mem.history.unsubscribed = []))
    (fun a _ s htest => drainTest_sound htest) (by decide +kernel)
  simp only [Bool.and_eq_true, decide_eq_true_eq] at hp
  obtain ⟨⟨⟨⟨⟨⟨hreturned, hstacks⟩, hisolated⟩, hlossless⟩, haccepted⟩, hdue⟩, hunsubscribed⟩ := hp
  have hquiet : ¬ InPublication s := by
    rintro ⟨t, _, _, _, _, _, hmem⟩
    rw [hstacks t] at hmem
    cases hmem
  obtain ⟨haccounts, _, hdelivered⟩ := drain_delivers_once (by decide : 2 ≠ 0) smallSetup
    (hs.mono fun _ _ h => ⟨h.1, h.2.1⟩) hreturned hquiet
  exact ⟨s.mem.history, s.mem.metrics, haccounts, hdelivered hs 1 hisolated hlossless, haccepted,
    hdue, hunsubscribed⟩

end Dispatcher

end EventDispatcher
