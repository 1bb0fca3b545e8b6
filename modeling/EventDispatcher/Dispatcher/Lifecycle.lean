import EventDispatcher.Dispatcher.Contexts

/-!
# The lifecycle protocol

`subscribe` holds `lifecycle_mutex_` from its check of the state to its return, and
`shutdown` changes the state only while nobody holds the mutex.  So a subscriber is
registered only while the dispatcher is running, and exactly one `shutdown` call, the
one that has left `running`, closes the queue, joins the workers and stops the
delivery.
-/

namespace EventDispatcher

open Transition SubscriberState

variable {T E : Type} {Q : QueuePolicy T (Publication E)}

/-- The frame holds `lifecycle_mutex_`. -/
def Frame.locks : Frame T E → Bool
  | .subscribe _ _ .lockLifecycle => false
  | .subscribe _ _ _ => true
  | _ => false

/-- The frame is inside `registry_core::subscribe`, or about to enter it. -/
def Frame.registering : Frame T E → Bool
  | .subscribe _ _ .lockLifecycle => false
  | .subscribe _ _ (.unlockLifecycle _) => false
  | .subscribe _ _ _ => true
  | _ => false

/-- The `shutdown` call has left `running` and has not stored `stopped`. -/
def ShutdownPhase.owns : ShutdownPhase T → Bool
  | .guard => false
  | .lockLifecycle => false
  | .changedParked => false
  | .notifyChanged => false
  | _ => true

/-- The policy of the `shutdown` call that is bringing the dispatcher down. -/
def Frame.owner : Frame T E → Option ShutdownPolicy
  | .shutdown policy phase => if phase.owns then some policy else none
  | _ => none

/-- One of the two stopping states. -/
def LifecycleState.stopping : LifecycleState → Bool
  | .drainStopping => true
  | .discardStopping => true
  | _ => false

/-- Every worker has returned from `run`. -/
def WorkersGone (setup : Setup T) (m : DispatcherMem Q) : Prop :=
  ∀ w ∈ setup.workers, w ∈ m.threads.finished

/-- How far the call that brings the dispatcher down has come with the workers. -/
def ShutdownProgress (setup : Setup T) (m : DispatcherMem Q) (policy : ShutdownPolicy) :
    ShutdownPhase T → Prop
  | .countDropped _ => policy = .discard
  | .joinWorkers todo => ∀ w ∈ setup.workers, w ∈ todo ∨ w ∈ m.threads.finished
  | .loadSnapshot => policy = .drain → WorkersGone setup m
  | .stop _ _ => policy = .drain → WorkersGone setup m
  | .storeStopped => WorkersGone setup m
  | .notifyChanged => m.life.state = .stopped
  | _ => True

/-- How far a `shutdown` call has got, read off the state; other frames say nothing. -/
def Progress (setup : Setup T) (m : DispatcherMem Q) : Frame T E → Prop
  | .shutdown policy phase => ShutdownProgress setup m policy phase
  | _ => True

section Frames

variable [DecidableEq T] {setup : Setup T} {flag : Bool} {t : T} {m m' : DispatcherMem Q}
  {q q' : Q.Loc} {contexts contexts' : Contexts} {f : Frame T E} {f' : Option (Frame T E)}

/-- Who locks `lifecycle_mutex_`, and who unlocks it. -/
theorem FrameStep.mutex_cases (h : FrameStep setup flag t m q contexts f m' q' contexts' f') :
    (m'.life.mutex = m.life.mutex ∧ ∀ g ∈ f', g.locks = f.locks) ∨
      (m.life.mutex = none ∧ m'.life.mutex = some t) ∨
      (f.locks = true ∧ f' = none) := by
  cases h with
  | invoke hframe hstep => cases hframe <;> exact .inl ⟨rfl, by rintro g ⟨⟩; rfl⟩
  | stop hframe hstep => cases hframe <;> exact .inl ⟨rfl, by rintro g ⟨⟩; rfl⟩
  | subscribeLock callback options hmutex => exact .inr (.inl ⟨hmutex, rfl⟩)
  | subscribeRefused callback options hmutex => exact .inr (.inl ⟨hmutex, rfl⟩)
  | subscribeReturned callback options result => exact .inr (.inr ⟨rfl, rfl⟩)
  | publishCounted | publishNext | deactivate | deactivateAgain =>
      refine .inl ⟨by simp, ?_⟩
      intro g hg
      cases hg <;> rfl
  | _ =>
      refine .inl ⟨rfl, ?_⟩
      intro g hg
      cases hg <;> rfl

/-- The state changes only while nobody holds the mutex. -/
theorem FrameStep.state_cases (h : FrameStep setup flag t m q contexts f m' q' contexts' f') :
    m'.life.state = m.life.state ∨
      (m.life.mutex = none ∧ (m.life.state = .created ∨ m.life.state = .running) ∧
        ∃ policy, f = .shutdown policy .lockLifecycle ∧
          m'.life.state = Dispatcher.stopping policy ∧ f' = some (.shutdown policy .callClose)) ∨
      (m.life.mutex = none ∧ m'.life.state = .stopped ∧
        ∃ policy, f = .shutdown policy .storeStopped ∧
          f' = some (.shutdown policy .notifyChanged)) := by
  cases h with
  | shutdownBegin policy hmutex hstate =>
      exact .inr (.inl ⟨hmutex, hstate, policy, rfl, rfl, rfl⟩)
  | storeStopped policy hmutex => exact .inr (.inr ⟨hmutex, rfl, policy, rfl, rfl⟩)
  | publishCounted | publishNext | deactivate | deactivateAgain => exact .inl (by simp)
  | _ => exact .inl rfl

/-- `subscribe` goes on only if it has found the dispatcher running. -/
theorem FrameStep.registering_running (h : FrameStep setup flag t m q contexts f m' q' contexts' f')
    {g : Frame T E} (hg : g ∈ f') (hregistering : g.registering = true) :
    f.registering = true ∨ m.life.state = .running := by
  cases h with
  | invoke hframe hstep => cases hframe <;> cases hg <;> cases hregistering
  | stop hframe hstep => cases hframe <;> cases hg <;> cases hregistering
  | subscribeLock callback options hmutex hrunning => exact .inr hrunning
  | _ => cases hg <;> first | exact .inl rfl | cases hregistering

/-- Only the two state changes make and unmake the `shutdown` call that brings the
dispatcher down. -/
theorem FrameStep.owner_cases (h : FrameStep setup flag t m q contexts f m' q' contexts' f') :
    (m'.life.state = m.life.state ∧ f'.bind Frame.owner = f.owner) ∨
      (m.life.state.stopping = false ∧ f.owner = none ∧ ∃ policy,
        m'.life.state = Dispatcher.stopping policy ∧ f'.bind Frame.owner = some policy) ∨
      (f.owner.isSome = true ∧ m'.life.state = .stopped ∧ f'.bind Frame.owner = none) := by
  cases h with
  | invoke hframe hstep => cases hframe <;> exact .inl ⟨rfl, rfl⟩
  | stop hframe hstep => cases hframe <;> exact .inl ⟨rfl, rfl⟩
  | shutdownBegin policy hmutex hstate =>
      refine .inr (.inl ⟨?_, rfl, policy, rfl, rfl⟩)
      rcases hstate with hstate | hstate <;> rw [hstate] <;> rfl
  | storeStopped policy hmutex => exact .inr (.inr ⟨rfl, rfl, rfl⟩)
  | publishCounted | publishNext | deactivate | deactivateAgain => exact .inl ⟨by simp, rfl⟩
  | _ => exact .inl ⟨rfl, rfl⟩

/-- A thread that has finished stays so. -/
theorem FrameStep.finished_subset (h : FrameStep setup flag t m q contexts f m' q' contexts' f') :
    m.threads.finished ⊆ m'.threads.finished := by
  cases h <;> simp

/-- `stopped` is final. -/
theorem FrameStep.stopped_stable (h : FrameStep setup flag t m q contexts f m' q' contexts' f')
    (hstopped : m.life.state = .stopped) : m'.life.state = .stopped := by
  rcases h.state_cases with hsame | ⟨_, hstate, _⟩ | ⟨_, hstate, _⟩
  · rw [hsame, hstopped]
  · rw [hstopped] at hstate
    rcases hstate with hstate | hstate <;> cases hstate
  · exact hstate

/-- The workers are joined one after the other. -/
theorem FrameStep.progress (h : FrameStep setup flag t m q contexts f m' q' contexts' f')
    (hf : Progress setup m f) : ∀ g ∈ f', Progress setup m' g := by
  cases h with
  | invoke hframe hstep =>
      rintro g ⟨⟩
      cases hframe <;> trivial
  | stop hframe hstep =>
      rintro g ⟨⟩
      cases hframe with
      | unsubscribe self => trivial
      | shutdown policy todo => exact hf
  | closed | discardStopped =>
      rintro g ⟨⟩
      exact fun w hw => .inl hw
  | countDropped policy discarded =>
      rintro g ⟨⟩
      intro hdrain
      rw [show policy = .discard from hf] at hdrain
      cases hdrain
  | discarded | storeStopped =>
      rintro g ⟨⟩
      rfl
  | loadSnapshot | stopNext =>
      rintro g ⟨⟩
      exact hf
  | drainStopped phase =>
      rintro g ⟨⟩
      exact hf rfl
  | drainJoined =>
      rintro g ⟨⟩ _ w hw
      exact (hf w hw).resolve_left (by simp)
  | discardJoined =>
      rintro g ⟨⟩
      exact fun w hw => (hf w hw).resolve_left (by simp)
  | joinWorker policy u todo hfinished =>
      rintro g ⟨⟩
      intro w hw
      rcases hf w hw with hmem | hdone
      · rcases List.mem_cons.mp hmem with rfl | hmem
        · exact .inr hfinished
        · exact .inl hmem
      · exact .inr hdone
  | _ =>
      intro g hg
      cases hg <;> trivial

/-- A `shutdown` returns normally only in the state `stopped`. -/
theorem FrameStep.returned (h : FrameStep setup flag t m q contexts f m' q' contexts' f')
    (hf : Progress setup m f) (hreturned : m'.shutdownReturned = true) :
    m.shutdownReturned = true ∨ m.life.state = .stopped := by
  cases h with
  | shutdownStopped policy hmutex hstopped => exact .inr hstopped
  | shutdownWoken policy hmutex hstopped => exact .inr hstopped
  | notifyChanged policy => exact .inr hf
  | shutdownRejected policy hself message =>
      left
      simpa [DispatcherMem.shutdownReturned, Except.toOption] using hreturned
  | publishCounted | publishNext | deactivate | deactivateAgain =>
      left
      simpa [DispatcherMem.shutdownReturned] using hreturned
  | _ => exact .inl hreturned

end Frames

namespace Dispatcher

/-- A frame that nothing of the lifecycle is in. -/
structure Frame.Apart (f : Frame T E) : Prop where
  locks : f.locks = false
  registering : f.registering = false
  owner : f.owner = none

/-- User code is apart from the lifecycle. -/
theorem user_apart {f : Frame T E} (h : f.user = true) : Frame.Apart f := by
  unfold Frame.user at h
  split at h <;> first | exact ⟨rfl, rfl, rfl⟩ | cases h

/-- So is what user code returns to. -/
theorem finishUser_apart {f f' : Frame T E} {threw : Bool} (h : f.finishUser threw = some f') :
    Frame.Apart f' := by
  unfold Frame.finishUser at h
  split at h <;> cases h <;> exact ⟨rfl, rfl, rfl⟩

/-- User code runs in no `shutdown` that owns the lifecycle. -/
theorem finishUser_owner {f f' : Frame T E} {threw : Bool} (h : f.finishUser threw = some f') :
    f.owner = none := by
  unfold Frame.finishUser at h
  split at h <;> cases h <;> rfl

/-- A call begins apart from the lifecycle. -/
theorem enter_apart {m m' : DispatcherMem Q} {call : Call T E} {f : Frame T E}
    (h : enter m call = some (m', f)) : Frame.Apart f ∧ m'.life = m.life := by
  cases call with
  | unsubscribe i | invoke i event =>
      simp only [enter] at h
      split at h <;> cases h
      exact ⟨⟨rfl, rfl, rfl⟩, rfl⟩
  | _ =>
      cases h
      exact ⟨⟨rfl, rfl, rfl⟩, rfl⟩

/-- A call records no result and starts no thread. -/
theorem enter_mem {m m' : DispatcherMem Q} {call : Call T E} {f : Frame T E}
    (h : enter m call = some (m', f)) :
    m'.history.shutdowns = m.history.shutdowns ∧ m'.threads = m.threads := by
  cases call with
  | unsubscribe i | invoke i event =>
      simp only [enter] at h
      split at h <;> cases h
      exact ⟨rfl, rfl⟩
  | _ =>
      cases h
      exact ⟨rfl, rfl⟩

/-- The `shutdown` calls of a thread that are bringing the dispatcher down. -/
def owners (l : ThreadLoc Q) : ℕ :=
  (l.stack.map fun f => if f.owner.isSome then 1 else 0).sum

/-- The invariant of the lifecycle protocol. -/
structure LifeInv [Fintype T] (s : Config T (DispatcherMem Q) (ThreadLoc Q)) : Prop where
  locked : ∀ t, ∀ f ∈ (s.loc t).stack, f.locks = true → s.mem.life.mutex = some t
  running : ∀ t, ∀ f ∈ (s.loc t).stack, f.registering = true → s.mem.life.state = .running
  owned : ∀ t, ∀ f ∈ (s.loc t).stack, ∀ policy, f.owner = some policy →
    s.mem.life.state = stopping policy
  one : tally owners s.loc = if s.mem.life.state.stopping then 1 else 0

variable [DecidableEq T] {setup : Setup T} {t : T} {m m' : DispatcherMem Q} {l l' : ThreadLoc Q}
  {c : DispatcherChoice Q}

/-- The mutex and the state, over a step of a thread. -/
theorem StepShape.life_cases (h : StepShape setup t m l c m' l') :
    m'.life = m.life ∨ (m.life.state = .created ∧ m' = m.setLifecycle .running ∧ l' = l) ∨
      ∃ flag f f' rest, ∃ q q' : Q.Loc, ∃ contexts contexts', l.stack = f :: rest ∧
        l'.stack = f'.toList ++ rest ∧ FrameStep setup flag t m q contexts f m' q' contexts' f' := by
  cases h with
  | constructed hstack hclient hcreated => exact .inr (.inl ⟨hcreated, rfl, rfl⟩)
  | start hstack hentry => exact .inl rfl
  | call huser henter => exact .inl (enter_apart henter).2
  | finish hstack hfinish => exact .inl rfl
  | frame hstack hstep => exact .inr (.inr ⟨_, _, _, _, _, _, _, _, hstack, rfl, hstep⟩)
  | queue hstack => exact .inl rfl

omit [DecidableEq T] in
/-- A `subscribe` that registers holds `writer_mutex_`. -/
theorem locks_of_registering {f : Frame T E} (h : f.registering = true) : f.locks = true := by
  unfold Frame.registering at h
  split at h
  · cases h
  · cases h
  · next hlock _ =>
      unfold Frame.locks
      split <;> first | rfl | simp_all
  · cases h

omit [DecidableEq T] in
/-- Both policies of `shutdown` stop. -/
theorem stopping_stopping (policy : ShutdownPolicy) : (stopping policy).stopping = true := by
  cases policy <;> rfl

/-- The number of calls that are bringing the dispatcher down follows the state. -/
theorem StepShape.owners_cases (h : StepShape setup t m l c m' l') :
    (m'.life.state.stopping = m.life.state.stopping ∧ owners l' = owners l) ∨
      (m.life.state.stopping = false ∧ m'.life.state.stopping = true ∧
        owners l' = owners l + 1) ∨
      (m'.life.state.stopping = false ∧ owners l' + 1 = owners l) := by
  cases h with
  | constructed hstack hclient hcreated =>
      refine .inl ⟨?_, rfl⟩
      rw [hcreated]
      rfl
  | start hstack hentry =>
      refine .inl ⟨rfl, ?_⟩
      simp [owners, hstack, Frame.owner]
  | call huser henter =>
      obtain ⟨hapart, hlife⟩ := enter_apart henter
      refine .inl ⟨by rw [hlife], ?_⟩
      simp [owners, hapart.owner]
  | finish hstack hfinish =>
      refine .inl ⟨rfl, ?_⟩
      simp [owners, hstack, (finishUser_apart hfinish).owner, (finishUser_owner hfinish)]
  | @frame _ _ _ _ _ f f' rest hstack hstep =>
      have hnext : ∀ n : ℕ, (f'.toList.map fun f => if f.owner.isSome then 1 else 0).sum = n ↔
          (if (f'.bind Frame.owner).isSome then 1 else 0) = n := by
        intro n
        cases f' <;> simp
      have hsum := (hnext _).mpr rfl
      simp only [owners, hstack, List.map_append, List.sum_append, List.map_cons, List.sum_cons,
        hsum]
      rcases hstep.owner_cases with ⟨hstate, howner⟩ | ⟨hstate, howner, policy, hstate', howner'⟩ |
        ⟨howner, hstate', howner'⟩
      · exact .inl ⟨by rw [hstate], by rw [howner]⟩
      · refine .inr (.inl ⟨hstate, by rw [hstate', stopping_stopping], ?_⟩)
        rw [howner, howner']
        simp
        omega
      · refine .inr (.inr ⟨by rw [hstate']; rfl, ?_⟩)
        rw [howner', if_pos howner]
        simp
        omega
  | queue hstack => exact .inl ⟨rfl, rfl⟩

/-- The frame rule for properties that only concern frames of the lifecycle. -/
theorem StepShape.forall_lifecycle {P P' : Frame T E → Prop} (h : StepShape setup t m l c m' l')
    (hl : InOrder l) (hbefore : ∀ f ∈ l.stack, P f) (hapart : ∀ f, Frame.Apart f → P' f)
    (hqueue : m'.life = m.life → ∀ f, P f → P' f)
    (hframe : ∀ {flag q q' contexts contexts' f f'}, FrameStep setup flag t m q contexts f m' q' contexts' f' →
      P f → ∀ g ∈ f', P' g) : ∀ f ∈ l'.stack, P' f := by
  by_cases hlife : m'.life = m.life
  · exact h.forall_frames hl hbefore (fun f huser _ => hapart f (user_apart huser))
      (fun i _ => hapart _ ⟨rfl, rfl, rfl⟩) (fun call f henter => hapart f (enter_apart henter).1)
      (fun f f' threw hfinish _ => hapart f' (finishUser_apart hfinish))
      (fun f _ hf => hqueue hlife f hf) hframe
  · cases h with
    | constructed hstack =>
        intro f hf
        rw [hstack] at hf
        cases hf
    | start | queue | finish => exact absurd rfl hlife
    | call huser henter => exact absurd (enter_apart henter).2 hlife
    | frame hstack hstep =>
        intro f hf
        rcases List.mem_append.mp hf with hf | hf
        · refine hframe hstep ?_ f (by simpa using hf)
          exact hbefore _ (by rw [hstack]; exact List.mem_cons_self)
        · have hsuspended := hl.suspended
          rw [hstack] at hsuspended
          exact hapart f (user_apart (hsuspended f hf))

/-- Over a step of `t`, the mutex of another thread stays its own and keeps the
state. -/
theorem StepShape.mutex_of_ne {u : T} (h : StepShape setup t m l c m' l') (hut : u ≠ t)
    (hlocked : ∀ f ∈ l.stack, f.locks = true → m.life.mutex = some t)
    (hmutex : m.life.mutex = some u) :
    m'.life.mutex = some u ∧ (m'.life.state = m.life.state ∨ m.life.state = .created) := by
  rcases h.life_cases with hlife | ⟨hcreated, hm, _⟩ |
    ⟨flag, f, f', rest, q, q', contexts, contexts', hstack, _, hstep⟩
  · exact ⟨by rw [hlife, hmutex], .inl (by rw [hlife])⟩
  · exact ⟨by rw [hm]; exact hmutex, .inr hcreated⟩
  · constructor
    · rcases hstep.mutex_cases with ⟨hsame, _⟩ | ⟨hnone, _⟩ | ⟨hlocks, _⟩
      · rw [hsame, hmutex]
      · rw [hmutex] at hnone
        cases hnone
      · have hmine := hlocked f (by rw [hstack]; exact List.mem_cons_self) hlocks
        rw [hmutex] at hmine
        exact absurd (Option.some.inj hmine) hut
    · rcases hstep.state_cases with hsame | ⟨hnone, _⟩ | ⟨hnone, _⟩
      · exact .inl hsame
      · rw [hmutex] at hnone
        cases hnone
      · rw [hmutex] at hnone
        cases hnone

section Run

variable [Fintype T] {s : Config T (DispatcherMem Q) (ThreadLoc Q)}
  {ok : Config T (DispatcherMem Q) (ThreadLoc Q) → T × DispatcherChoice Q → Prop}

omit [Fintype T] [DecidableEq T] in
/-- A call that is bringing the dispatcher down is counted. -/
theorem le_owners {f : Frame T E} (hf : f ∈ l.stack) (howner : f.owner.isSome = true) :
    1 ≤ owners l := by
  refine List.single_le_sum (fun _ _ => Nat.zero_le _) 1 (List.mem_map.mpr ⟨f, hf, ?_⟩)
  rw [if_pos howner]

/-- While another thread is bringing the dispatcher down, nobody else changes the
state. -/
theorem StepShape.owned_of_ne {u : T} {f : Frame T E} {policy : ShutdownPolicy}
    (h : StepShape setup t s.mem (s.loc t) c m' l') (hut : u ≠ t) (hinv : LifeInv s)
    (hf : f ∈ (s.loc u).stack) (howner : f.owner = some policy) :
    m'.life.state = stopping policy := by
  have hstate := hinv.owned u f hf policy howner
  rcases h.life_cases with hlife | ⟨hcreated, _, _⟩ |
    ⟨flag, g, g', rest, q, q', contexts, contexts', hstack, _, hstep⟩
  · rw [hlife, hstate]
  · rw [hstate] at hcreated
    cases policy <;> cases hcreated
  · rcases hstep.owner_cases with ⟨hsame, _⟩ | ⟨hbefore, _⟩ | ⟨hmine, _⟩
    · rw [hsame, hstate]
    · rw [hstate, stopping_stopping] at hbefore
      cases hbefore
    · have hone := hinv.one
      rw [hstate, stopping_stopping, if_pos rfl] at hone
      have hpair : ({t, u} : Finset T).card ≤ tally owners s.loc := by
        refine card_le_tally ?_
        intro v hv
        rcases Finset.mem_insert.mp hv with rfl | hv
        · exact le_owners (by rw [hstack]; exact List.mem_cons_self) hmine
        · rw [Finset.mem_singleton.mp hv]
          exact le_owners hf (by rw [howner]; rfl)
      rw [Finset.card_pair (Ne.symm hut)] at hpair
      omega

/-- **Run lemma.** -/
theorem lifeInv_reach : ∀ s, (system setup Q).Reach ok s → LifeInv s := by
  refine interleave_invariant ?_ ?_
  · rintro s rfl
    have hapart : ∀ t, ∀ f ∈ ((started setup Q).loc t).stack, Frame.Apart f := by
      intro t f hf
      simp only [started] at hf
      split at hf
      · obtain rfl := List.mem_singleton.mp hf
        exact ⟨rfl, rfl, rfl⟩
      · cases hf
    refine ⟨?_, ?_, ?_, ?_⟩
    · intro t f hf hlocks
      rw [(hapart t f hf).locks] at hlocks
      cases hlocks
    · intro t f hf hregistering
      rw [(hapart t f hf).registering] at hregistering
      cases hregistering
    · intro t f hf policy howner
      rw [(hapart t f hf).owner] at howner
      cases howner
    · rw [tally_eq_zero]
      · rfl
      · intro t
        simp only [started, owners]
        split <;> rfl
  · intro s t c m l hreach hinv _ hstep
    have hshape := step_shape hstep
    have horder := inOrder_reach s hreach t
    refine ⟨?_, ?_, ?_, ?_⟩
    · refine (Function.forall_update_iff s.loc fun u l =>
        ∀ f ∈ l.stack, f.locks = true → m.life.mutex = some u).mpr ⟨?_, ?_⟩
      · refine hshape.forall_lifecycle horder (hinv.locked t) ?_ ?_ ?_
        · intro f hapart hlocks
          rw [hapart.locks] at hlocks
          cases hlocks
        · intro hlife f hf
          rw [hlife]
          exact hf
        · intro flag q q' contexts contexts' f f' hframe hf g hg hlocks
          rcases hframe.mutex_cases with ⟨hsame, heq⟩ | ⟨_, hmine⟩ | ⟨_, rfl⟩
          · rw [hsame, hf (by rw [← heq g hg]; exact hlocks)]
          · exact hmine
          · cases hg
      · intro u hut f hf hlocks
        exact (hshape.mutex_of_ne hut (hinv.locked t) (hinv.locked u f hf hlocks)).1
    · refine (Function.forall_update_iff s.loc fun u l =>
        ∀ f ∈ l.stack, f.registering = true → m.life.state = .running).mpr ⟨?_, ?_⟩
      · refine hshape.forall_lifecycle horder
          (fun f hf => And.intro (hinv.locked t f hf) (hinv.running t f hf)) ?_ ?_ ?_
        · intro f hapart hregistering
          rw [hapart.registering] at hregistering
          cases hregistering
        · intro hlife f hf
          rw [hlife]
          exact hf.2
        · intro flag q q' contexts contexts' f f' hframe hf g hg hregistering
          have hrunning : s.mem.life.state = .running := by
            rcases hframe.registering_running hg hregistering with hbefore | hrunning
            · exact hf.2 hbefore
            · exact hrunning
          rcases hframe.state_cases with hsame | ⟨_, _, policy, _, _, rfl⟩ | ⟨_, _, policy, _, rfl⟩
          · rw [hsame, hrunning]
          · cases hg
            cases hregistering
          · cases hg
            cases hregistering
      · intro u hut f hf hregistering
        have hrunning := hinv.running u f hf hregistering
        have hmutex := hinv.locked u f hf (locks_of_registering hregistering)
        rcases (hshape.mutex_of_ne hut (hinv.locked t) hmutex).2 with hsame | hcreated
        · rw [hsame, hrunning]
        · rw [hrunning] at hcreated
          cases hcreated
    · refine (Function.forall_update_iff s.loc fun u l =>
        ∀ f ∈ l.stack, ∀ policy, f.owner = some policy → m.life.state = stopping policy).mpr ⟨?_, ?_⟩
      · refine hshape.forall_lifecycle horder (hinv.owned t) ?_ ?_ ?_
        · intro f hapart policy howner
          rw [hapart.owner] at howner
          cases howner
        · intro hlife f hf
          rw [hlife]
          exact hf
        · intro flag q q' contexts contexts' f f' hframe hf g hg policy howner
          have hnext : f'.bind Frame.owner = some policy := by
            rw [Option.mem_def] at hg
            rw [hg, Option.bind_some, howner]
          rcases hframe.owner_cases with ⟨hsame, heq⟩ | ⟨_, _, policy', hstate, howner'⟩ |
            ⟨_, _, hnone⟩
          · rw [hsame, hf policy (by rw [← heq, hnext])]
          · rw [howner'] at hnext
            cases hnext
            exact hstate
          · rw [hnone] at hnext
            cases hnext
      · intro u hut f hf policy howner
        exact hshape.owned_of_ne hut hinv hf howner
    · have hone := hinv.one
      have htally := tally_update owners s.loc t l
      have hthread := le_tally owners s.loc t
      simp only
      rcases hshape.owners_cases with ⟨hstate, heq⟩ | ⟨hbefore, hafter, heq⟩ | ⟨hafter, heq⟩
      · rw [hstate, ← hone]
        omega
      · rw [hbefore] at hone
        rw [hafter]
        simp at hone ⊢
        omega
      · rw [hafter]
        split at hone
        · simp
          omega
        · omega

end Run

/-- A thread that has finished stays so, whatever step is taken. -/
theorem StepShape.finished_subset (h : StepShape setup t m l c m' l') :
    m.threads.finished ⊆ m'.threads.finished := by
  cases h with
  | call huser henter => rw [(enter_mem henter).2]
  | frame hstack hstep => exact hstep.finished_subset
  | _ => exact subset_rfl

/-- No step leads out of `stopped`. -/
theorem StepShape.stopped_stable (h : StepShape setup t m l c m' l')
    (hstopped : m.life.state = .stopped) : m'.life.state = .stopped := by
  rcases h.life_cases with hlife | ⟨hcreated, _, _⟩ |
    ⟨flag, g, g', rest, q, q', contexts, contexts', hstack, _, hstep⟩
  · rw [hlife, hstopped]
  · rw [hstopped] at hcreated
    cases hcreated
  · exact hstep.stopped_stable hstopped

omit [DecidableEq T] in
/-- Workers that have gone do not come back. -/
theorem workersGone_mono (h : WorkersGone setup m)
    (hsubset : m.threads.finished ⊆ m'.threads.finished) : WorkersGone setup m' :=
  fun w hw => hsubset (h w hw)

omit [DecidableEq T] in
/-- Progress is never lost. -/
theorem progress_mono {f : Frame T E} (h : Progress setup m f)
    (hsubset : m.threads.finished ⊆ m'.threads.finished)
    (hstopped : m.life.state = .stopped → m'.life.state = .stopped) : Progress setup m' f := by
  cases f with
  | shutdown policy phase =>
      cases phase with
      | joinWorkers todo => exact fun w hw => (h w hw).imp id fun hfinished => hsubset hfinished
      | loadSnapshot => exact fun hdrain => workersGone_mono (h hdrain) hsubset
      | stop todo phase => exact fun hdrain => workersGone_mono (h hdrain) hsubset
      | storeStopped => exact workersGone_mono h hsubset
      | notifyChanged => exact hstopped h
      | _ => exact h
  | _ => trivial

/-- The invariant of the call that brings the dispatcher down. -/
structure ShutdownInv (setup : Setup T) (s : Config T (DispatcherMem Q) (ThreadLoc Q)) : Prop where
  progress : ∀ t, ∀ f ∈ (s.loc t).stack, Progress setup s.mem f
  stopped : s.mem.life.state = .stopped → WorkersGone setup s.mem
  returned : s.mem.shutdownReturned = true → s.mem.life.state = .stopped

/-- **Step lemma**, for the moving thread. -/
theorem StepShape.progress (h : StepShape setup t m l c m' l') (hl : InOrder l)
    (hbefore : ∀ f ∈ l.stack, Progress setup m f) : ∀ f ∈ l'.stack, Progress setup m' f := by
  refine h.forall_frames hl hbefore ?_ ?_ ?_ ?_ ?_ ?_
  · intro f huser _
    unfold Frame.user at huser
    split at huser <;> trivial
  · exact fun i _ => trivial
  · intro call f henter
    cases call with
    | unsubscribe i | invoke i event =>
        simp only [enter] at henter
        split at henter <;> cases henter
        trivial
    | _ =>
        cases henter
        trivial
  · intro f f' threw hfinish _
    unfold Frame.finishUser at hfinish
    split at hfinish <;> cases hfinish <;> trivial
  · exact fun f _ hf => progress_mono hf h.finished_subset h.stopped_stable
  · exact fun hframe hf => hframe.progress hf

/-- A `shutdown` returns normally only in the state `stopped`. -/
theorem StepShape.returned (h : StepShape setup t m l c m' l')
    (hbefore : ∀ f ∈ l.stack, Progress setup m f) (hreturned : m'.shutdownReturned = true) :
    m.shutdownReturned = true ∨ m.life.state = .stopped := by
  cases h with
  | call huser henter =>
      left
      rw [DispatcherMem.shutdownReturned, (enter_mem henter).1] at hreturned
      exact hreturned
  | frame hstack hstep =>
      have hprogress := hbefore _ (by rw [hstack]; exact List.mem_cons_self)
      exact hstep.returned hprogress hreturned
  | _ => exact .inl hreturned

/-- **Run lemma.** -/
theorem shutdownInv_reach
    {ok : Config T (DispatcherMem Q) (ThreadLoc Q) → T × DispatcherChoice Q → Prop} :
    ∀ s, (system setup Q).Reach ok s → ShutdownInv setup s := by
  refine interleave_invariant ?_ ?_
  · rintro s rfl
    refine ⟨?_, ?_, ?_⟩
    · intro t f hf
      simp only [started] at hf
      split at hf
      · obtain rfl := List.mem_singleton.mp hf
        trivial
      · cases hf
    · rintro ⟨⟩
    · rintro ⟨⟩
  · intro s t c m l hreach hinv _ hstep
    have hshape := step_shape hstep
    refine ⟨?_, ?_, ?_⟩
    · refine (Function.forall_update_iff s.loc fun _ l =>
        ∀ f ∈ l.stack, Progress setup m f).mpr ⟨?_, ?_⟩
      · exact hshape.progress (inOrder_reach s hreach t) (hinv.progress t)
      · intro u _ f hf
        exact progress_mono (hinv.progress u f hf) hshape.finished_subset hshape.stopped_stable
    · intro hstopped
      rcases hshape.life_cases with hlife | ⟨hcreated, rfl, _⟩ |
        ⟨flag, f, f', rest, q, q', contexts, contexts', hstack, _, hframe⟩
      · exact workersGone_mono (hinv.stopped (by rw [← hlife]; exact hstopped)) hshape.finished_subset
      · cases hstopped
      · rcases hframe.state_cases with hsame | ⟨_, _, policy, _, hstate, _⟩ | ⟨_, _, policy, rfl, _⟩
        · exact workersGone_mono (hinv.stopped (by rw [← hsame]; exact hstopped))
            hshape.finished_subset
        · rw [show m.life.state = .stopped from hstopped] at hstate
          cases policy <;> cases hstate
        · have hgone : Progress setup s.mem (.shutdown policy .storeStopped) :=
            hinv.progress t _ (by rw [hstack]; exact List.mem_cons_self)
          exact workersGone_mono hgone hshape.finished_subset
    · intro hreturned
      rcases hshape.returned (hinv.progress t) hreturned with hbefore | hstopped
      · exact hshape.stopped_stable (hinv.returned hbefore)
      · exact hshape.stopped_stable hstopped

end Dispatcher

end EventDispatcher
