import EventDispatcher.Queue.LockFreeQueueEpochs
import EventDispatcher.Queue.LockFreeQueueGates

/-!
# Wakeups of `bounded_lock_free_queue`

A push bumps `data_epoch_` and unparks one consumer, a pop bumps `capacity_epoch_` and
unparks one producer, and so does every other step that may let a waiting thread go on.
`EpochInv` says that this is enough at both epochs, in every run that meets `WakeOk`.  A
thread that waits for a gate to drain is unparked by the last guard to leave it.
-/

namespace EventDispatcher

open Transition OperationGate

namespace LockFreeQueue

variable {T E : Type}

section Closing

variable {m m' : LockFreeMem T E} {r r' : CloseRole}

/-- A thread that has shut the producer gate goes on to store `producer_quiesced_`. -/
theorem CloseMove.closing_producer (h : CloseMove m m' r r')
    (hr : r = .closing .producer ∨ r = .drained) :
    r' = .closing .producer ∨ r' = .drained ∨ m'.sync.producerQuiesced = true := by
  cases h with
  | quiet => exact hr.imp id .inl
  | loadDrained g => rcases hr with hr | hr <;> cases hr; exact .inr (.inl rfl)
  | storeQuiesced _ hmem =>
      subst hmem
      exact .inr (.inr rfl)
  | enter g | leave g => cases g <;> rcases hr with hr | hr <;> cases hr
  | _ => rcases hr with hr | hr <;> cases hr

/-- Somebody is bringing the closing of the producer gate to its end. -/
def ProducerClosing (roles : T → CloseRole) : Prop :=
  ∃ u, roles u = .closing .producer ∨ roles u = .drained

/-- **Invariant of the closed bits.** -/
structure ShutInv (m : LockFreeMem T E) (roles : T → CloseRole) : Prop where
  producer : isClosed (m.sync.gate .producer) = true →
    m.sync.producerQuiesced = true ∨ ProducerClosing roles
  consumer : isClosed (m.sync.gate .consumer) = true → m.sync.producerQuiesced = true

variable [Fintype T] [DecidableEq T] {roles : T → CloseRole} {t : T}

/-- **Step lemma.** -/
theorem ShutInv.step (h : ShutInv m roles) (hinv : CloseInv m roles)
    (hmove : CloseMove m m' (roles t) r') : ShutInv m' (Function.update roles t r') := by
  have hquiesced : m.sync.producerQuiesced = true → m'.sync.producerQuiesced = true := by
    intro hq
    rcases hmove.quiesced with heq | ⟨_, htrue, _⟩
    · rw [heq, hq]
    · exact htrue
  constructor
  · intro hclosed
    rcases hmove.isClosed_cases .producer (hinv.gates .producer) (le_tally _ roles t) with
      heq | ⟨_, hr'⟩
    · rcases h.producer (heq ▸ hclosed) with hq | ⟨u, hu⟩
      · exact .inl (hquiesced hq)
      · by_cases hut : u = t
        · subst hut
          rcases hmove.closing_producer hu with hr' | hr' | hq
          · exact .inr ⟨u, .inl (by rw [Function.update_self, hr'])⟩
          · exact .inr ⟨u, .inr (by rw [Function.update_self, hr'])⟩
          · exact .inl hq
        · exact .inr ⟨u, by rw [Function.update_of_ne hut]; exact hu⟩
    · exact .inr ⟨t, by rw [Function.update_self]; exact hr'⟩
  · intro hclosed
    rcases hmove.isClosed_cases .consumer (hinv.gates .consumer) (le_tally _ roles t) with
      heq | ⟨hr, _⟩
    · exact hquiesced (h.consumer (heq ▸ hclosed))
    · exact hquiesced (hinv.after t (by rw [hr]; rfl))

/-- **Run lemma.** -/
theorem shutInv_reach {capacity : ℕ}
    {ok : Config T (LockFreeMem T E) (LockFreeLoc T E) → T × LockFreeChoice T E → Prop} :
    ∀ s, (system T E capacity).Reach ok s → ShutInv s.mem (role ∘ s.loc) := by
  refine interleave_invariant ?_ ?_
  · intro s hs
    have hopen : isClosed 0 = false := by decide
    have hgate : ∀ g, s.mem.sync.gate g = 0 := by
      rw [hs]
      intro g
      rfl
    constructor <;> intro hclosed <;> rw [hgate, hopen] at hclosed <;> cases hclosed
  · intro s t c m l hreach hinv _ hstep
    rw [Function.comp_update]
    exact hinv.step (closeInv_reach s hreach) (step_closeMove hstep)

omit [DecidableEq T] in
/-- While a producer is inside the closed gate, somebody waits for it. -/
theorem ShutInv.closing (h : ShutInv m roles) (hinv : CloseInv m roles)
    (ht : roles t = .producing) (hclosed : isClosed (m.sync.gate .producer) = true) :
    ProducerClosing roles := by
  rcases h.producer hclosed with hq | hclosing
  · exact absurd ht (hinv.no_producer hq t)
  · exact hclosing

end Closing

/-- A thread that brings the closing of the producer gate to its end has `capacity_epoch_`
still to bump. -/
theorem sealing_of_closing {l : LockFreeLoc T E}
    (h : role l = .closing .producer ∨ role l = .drained) :
    epochRole .capacity l = .sealing := by
  cases l with
  | close discard phase =>
      cases phase with
      | waitGate g | parkedGate g | loadGate g =>
          cases g with
          | producer => rfl
          | consumer => rcases h with h | h <;> cases h
      | storeQuiesced => rfl
      | bump _ discarded | notify _ discarded | unlock discarded =>
          cases discarded <;> rcases h with h | h <;> cases h
      | _ => rcases h with h | h <;> cases h
  | push _ _ phase => cases phase <;> rcases h with h | h <;> cases h
  | pop _ phase =>
      cases phase with
      | leave result | notifyGate result => cases result <;> rcases h with h | h <;> cases h
      | _ => rcases h with h | h <;> cases h
  | unregisterPop result => cases result <;> rcases h with h | h <;> cases h
  | _ => rcases h with h | h <;> cases h

/-- The thread is parked on an epoch, or has been unparked and does not know it yet. -/
def parkedOn (k : Epoch) : LockFreeLoc T E → Bool
  | .waitPop (.parked _) => k = .data
  | .waitPush _ (.parked _) => k = .capacity
  | _ => false

/-- It is parked in `wait_pop` or in `wait_push`. -/
theorem loc_of_parkedOn {k : Epoch} {l : LockFreeLoc T E} (h : parkedOn k l = true) :
    (k = .data ∧ ∃ e, l = .waitPop (.parked e)) ∨
      (k = .capacity ∧ ∃ event e, l = .waitPush event (.parked e)) := by
  unfold parkedOn at h
  split at h
  · exact .inl ⟨of_decide_eq_true h, _, rfl⟩
  · exact .inr ⟨of_decide_eq_true h, _, _, rfl⟩
  · cases h

theorem waiting_of_parkedOn {k : Epoch} {l : LockFreeLoc T E} (h : parkedOn k l = true) :
    ∃ e, epochRole k l = .waiting e := by
  obtain ⟨rfl, e, rfl⟩ | ⟨rfl, event, e, rfl⟩ := loc_of_parkedOn h
  · exact ⟨e, rfl⟩
  · exact ⟨e, rfl⟩

section Step

open EventCount

variable [Fintype T] [DecidableEq T] {s : Config T (LockFreeMem T E) (LockFreeLoc T E)} {t : T}
  {c : LockFreeChoice T E} {m' : LockFreeMem T E} {l' : LockFreeLoc T E}

omit [Fintype T] [DecidableEq T] in
theorem epochRole_start (k : Epoch) (op : QueueOp E) :
    epochRole k (start op : LockFreeLoc T E) = .idle := by
  rcases op with ⟨kind, event, stop⟩ | ⟨wait, stop⟩ | _ | _
  · cases kind <;> cases k <;> rfl
  · cases wait <;> cases k <;> rfl
  · cases k <;> rfl
  · cases k <;> rfl

/-- **Every step is a move of the protocol at each epoch.** -/
theorem step_epochMove (hclose : CloseInv s.mem (role ∘ s.loc))
    (hshut : ShutInv s.mem (role ∘ s.loc)) (hlocOk : LocOk (s.loc t))
    (hparked : ∀ k, t ∈ s.mem.sync.epochWaiters k → parkedOn k (s.loc t) = true)
    (hok : WakeOk s (t, c)) (h : step t c s.mem (s.loc t) = some (m', l')) (k : Epoch) :
    EpochMove (epochRole k ∘ s.loc) t (eventCount s.mem k) (eventCount m' k) (epochRole k l') := by
  have hr : (epochRole k ∘ s.loc) t = epochRole k (s.loc t) := rfl
  have hbits := (step_closeMove h).isClosed_cases .producer (hclose.gates .producer)
    (le_tally _ (role ∘ s.loc) t)
  have hlast := hok.1 k
  have hnew := hok.2 k
  simp only at hlast hnew
  cases hl : s.loc t with
  | outside last =>
      rw [hl] at h hr
      cases c with
      | call op =>
          cases h
          refine epochMove_same ?_ ?_
          · cases k <;> rfl
          · rw [epochRole_start, hr]
            rfl
      | requestStop target =>
          simp only [step, Option.some.injEq] at h
          unfold stepRequestStop at h
          repeat' split at h
          all_goals
            cases h
            refine epochMove_same ?_ hr.symm
            cases k <;> rfl
      | go flag waiter => cases h
  | push event context phase =>
      rw [hl] at h hr hnew
      cases c with
      | go flag waiter =>
          cases k with
          | data => exact stepPush_data hr hnew h
          | capacity =>
              refine stepPush_capacity hr hnew ?_ ?_ h
              · rcases hbits with heq | ⟨hshutting, _⟩
                · exact heq
                · rw [hl] at hshutting
                  cases phase <;> cases hshutting
              · intro outcome hphase hclosed
                subst hphase
                obtain ⟨u, hu⟩ := hshut.closing hclose (t := t) (by
                  simp only [Function.comp_apply, hl]
                  rfl) hclosed
                exact ⟨u, sealing_of_closing hu⟩
      | _ => cases h
  | pop context phase =>
      rw [hl] at h hr hnew
      cases c with
      | go flag waiter =>
          cases k with
          | data => exact stepPop_data hr hshut.consumer h
          | capacity => exact stepPop_capacity hr hnew h
      | _ => cases h
  | waitPush event phase =>
      rw [hl] at h hr hnew
      cases c with
      | go flag waiter =>
          simp only [step] at h
          cases k with
          | data =>
              exact stepWait_other (by simp) rfl (fun _ => rfl) (fun _ => rfl) rfl hr h
          | capacity =>
              refine stepWait_own rfl (fun _ => rfl) (fun _ => rfl) rfl hr ?_ ?_ h
              · intro hphase
                subst hphase
                exact hnew rfl
              · intro hin
                have hat := hparked .capacity hin
                rw [hl] at hat
                cases phase <;> first | exact ⟨_, rfl⟩ | cases hat
      | _ => cases h
  | waitPop phase =>
      rw [hl] at h hr hnew
      cases c with
      | go flag waiter =>
          simp only [step] at h
          cases k with
          | capacity =>
              exact stepWait_other (by simp) rfl (fun _ => rfl) (fun _ => rfl) rfl hr h
          | data =>
              refine stepWait_own rfl (fun _ => rfl) (fun _ => rfl) rfl hr ?_ ?_ h
              · intro hphase
                subst hphase
                exact hnew rfl
              · intro hin
                have hat := hparked .data hin
                rw [hl] at hat
                cases phase <;> first | exact ⟨_, rfl⟩ | cases hat
      | _ => cases h
  | timedPush event phase =>
      rw [hl] at h hr
      cases c with
      | go flag waiter =>
          cases phase <;> cases h <;> refine epochMove_same rfl ?_ <;> rw [hr]
          · split <;> cases k <;> rfl
          · split <;> cases k <;> rfl
          · cases k <;> rfl
      | _ => cases h
  | close discard phase =>
      rw [hl] at h hr hnew hlast hlocOk
      cases c with
      | go flag waiter =>
          cases k with
          | data => exact stepClose_data hlocOk hr hnew hlast h
          | capacity =>
              refine stepClose_capacity hlocOk hr hnew hlast
                (hclose.gates .producer).isClosed_shut ?_ h
              intro index discarded hphase
              subst hphase
              have hq := hclose.after t (by
                simp only [Function.comp_apply, hl]
                rfl)
              rw [hclose.quiesced hq]
              decide
      | _ => cases h
  | unregisterPush outcome | unregisterPop result =>
      rw [hl] at h hr
      cases c with
      | go flag waiter =>
          simp only [step, stepUnregister] at h
          split at h <;> cases h
          refine epochMove_same ?_ hr.symm
          cases k <;> rfl
      | _ => cases h
  | stopCallback target k' bumped =>
      rw [hl] at h hr hnew
      cases c with
      | go flag waiter =>
          by_cases hk : k = k'
          · subst hk
            cases bumped <;> cases h
            · rw [eventCount_bump]
              exact .bump (.inr (.inl ⟨hr, rfl⟩)) (hnew rfl)
            · have hmove := EpochMove.notifyAll (c := eventCount s.mem k) hr (.inl rfl)
              rw [← eventCount_setEpochWaiters] at hmove
              cases k <;> exact hmove
          · cases bumped <;> cases h
            · exact epochMove_same (eventCount_bump_of_ne _ hk) hr.symm
            · have hsame := eventCount_setEpochWaiters_of_ne s.mem hk ∅
              refine epochMove_same ?_ hr.symm
              rw [← hsame]
              cases k <;> rfl
      | _ => cases bumped <;> cases h

omit [Fintype T] in
/-- A waiting thread that is parked after its step has just parked. -/
theorem parkedOn_step {m : LockFreeMem T E} {l : LockFreeLoc T E} {k : Epoch} {e : ℕ}
    (h : step t c m l = some (m', l')) (hwaiting : epochRole k l = .waiting e)
    (hself : t ∈ m.sync.epochWaiters k → parkedOn k l = true)
    (hin : t ∈ m'.sync.epochWaiters k) : parkedOn k l' = true := by
  -- both loops, at the epoch that they wait for
  have hloop : ∀ {attempt : LockFreeLoc T E} {checked : ℕ → LockFreeLoc T E}
      {loop : WaitPhase → LockFreeLoc T E} {stopped : LockFreeLoc T E} {flag : Bool}
      {phase : WaitPhase}, (∀ e, parkedOn k (loop (.wait e)) = false) →
      (∀ e, parkedOn k (loop (.parked e)) = true) → epochWait phase = .waiting e →
      (t ∈ m.sync.epochWaiters k → parkedOn k (loop phase) = true) →
      stepWait t m k attempt checked loop stopped flag phase = some (m', l') →
      parkedOn k l' = true := by
    intro attempt checked loop stopped flag phase hwait hparked hphase hself h
    cases phase with
    | wait e =>
        simp only [stepWait] at h
        split at h <;> cases h
        · exact hparked e
        · have hat := hself hin
          rw [hwait] at hat
          cases hat
    | parked e =>
        simp only [stepWait] at h
        split at h
        · split at h <;> cases h
          simp [LockFreeSync.setEpochWaiters] at hin
        · next hout =>
            cases h
            exact absurd hin hout
    | _ => cases hphase
  cases l with
  | waitPush event phase =>
      cases k with
      | data => cases hwaiting
      | capacity =>
          cases c with
          | go flag waiter =>
              simp only [step] at h
              exact hloop (fun _ => rfl) (fun _ => rfl) hwaiting hself h
          | _ => cases h
  | waitPop phase =>
      cases k with
      | capacity => cases hwaiting
      | data =>
          cases c with
          | go flag waiter =>
              simp only [step] at h
              exact hloop (fun _ => rfl) (fun _ => rfl) hwaiting hself h
          | _ => cases h
  | push event context phase =>
      cases k with
      | data => cases phase <;> cases hwaiting
      | capacity =>
          cases phase with
          | leave outcome | notifyGate outcome =>
              by_cases hfull : outcome = .returned .full
              · subst hfull
                cases context <;> cases hwaiting
              · obtain ⟨hleave, hnotify⟩ := @epochPush_idle context _ hfull
                first
                | cases hleave.symm.trans hwaiting
                | cases hnotify.symm.trans hwaiting
          | loadGate | enterGate | takeIndex => cases context <;> cases hwaiting
          | _ => cases hwaiting
  | pop context phase =>
      cases k with
      | capacity => cases phase <;> cases hwaiting
      | data =>
          cases phase with
          | leave result | notifyGate result => cases result <;> cases context <;> cases hwaiting
          | loadGate | enterGate | takeIndex | loadQuiesced => cases context <;> cases hwaiting
          | _ => cases hwaiting
  | close discard phase =>
      cases phase with
      | shutGate g | waitGate g | parkedGate g | loadGate g =>
          cases k <;> cases g <;> cases discard <;> cases hwaiting
      | bump k' discarded | notify k' discarded =>
          cases k <;> cases k' <;> cases discarded <;> cases discard <;> cases hwaiting
      | _ => cases k <;> cases discard <;> cases hwaiting
  | _ => cases hwaiting

/-- **Invariant of the epochs.** -/
structure EpochInv (s : Config T (LockFreeMem T E) (LockFreeLoc T E)) : Prop where
  counts : ∀ k, (eventCount s.mem k).Inv (epochRole k ∘ s.loc)
  parked : ∀ k t, t ∈ s.mem.sync.epochWaiters k → parkedOn k (s.loc t) = true

omit [Fintype T] [DecidableEq T] in
theorem eventCount_waiters (m : LockFreeMem T E) (k : Epoch) :
    (eventCount m k).waiters = m.sync.epochWaiters k := by
  cases k <;> rfl

/-- **Run lemma**, for the runs that meet the condition. -/
theorem epochInv_reach {capacity : ℕ} :
    ∀ s, (system T E capacity).Reach WakeOk s → EpochInv s := by
  refine interleave_invariant ?_ ?_
  · intro s hs
    have hwaiters : ∀ k, s.mem.sync.epochWaiters k = ∅ := by
      rw [hs]
      exact fun _ => rfl
    have hidle : ∀ k t, (epochRole k ∘ s.loc) t = .idle := by
      rw [hs]
      exact fun _ _ => rfl
    refine ⟨fun k => ⟨?_, ?_, ?_, ?_, ?_⟩, ?_⟩
    · intro t ht
      rw [eventCount_waiters, hwaiters] at ht
      simp at ht
    · intro hsome
      rw [eventCount_waiters, hwaiters] at hsome
      simp at hsome
    · intro t ht
      rw [hidle] at ht
      cases ht
    · intro t ht
      rw [hidle] at ht
      cases ht
    · intro hsome
      rw [eventCount_waiters, hwaiters] at hsome
      simp at hsome
    · intro k t ht
      rw [hwaiters] at ht
      simp at ht
  · intro s t c m l hreach hinv hok hstep
    have hmove := step_epochMove (closeInv_reach s hreach) (shutInv_reach s hreach)
      (locOk_reach s hreach t) (fun k => hinv.parked k t) hok hstep
    refine ⟨fun k => ?_, fun k u hu => ?_⟩
    · rw [Function.comp_update]
      exact (hinv.counts k).step (hmove k)
    · have hsubset := (hmove k).waiters_subset
      rw [eventCount_waiters, eventCount_waiters] at hsubset
      simp only
      by_cases hut : u = t
      · subst hut
        rw [Function.update_self]
        by_cases hwaiting : ∃ e, epochRole k (s.loc u) = .waiting e
        · obtain ⟨e, hwaiting⟩ := hwaiting
          exact parkedOn_step hstep hwaiting (hinv.parked k u) hu
        · -- only a waiting thread can have parked
          exfalso
          have hsub := (hmove k).waiters_subset_of_ne fun e he => hwaiting ⟨e, he⟩
          rw [eventCount_waiters, eventCount_waiters] at hsub
          exact hwaiting (waiting_of_parkedOn (hinv.parked k u (hsub hu)))
      · rw [Function.update_of_ne hut]
        exact hinv.parked k u (Finset.mem_of_mem_insert_of_ne (hsubset hu) hut)

end Step

section Returned

variable [DecidableEq T] {t : T} {c : LockFreeChoice T E} {m m' : LockFreeMem T E}
  {l l' : LockFreeLoc T E} {flag : Bool} {waiter : Option T}

omit [DecidableEq T] in
theorem afterPush_returned (m : LockFreeMem T E) (event : E) (context : PushContext)
    (outcome : PushOutcome)
    (hmem : .closed ∈ (afterPush m event context outcome).1.store.returned) :
    .closed ∈ m.store.returned := by
  cases context with
  | once => simpa [afterPush, return_, SlotStore.record] using hmem
  | _ => exact hmem

omit [DecidableEq T] in
theorem afterPop_returned (m : LockFreeMem T E) (context : PopContext) (result : PopResult E)
    (hmem : .closed ∈ (afterPop m context result).1.store.returned) :
    .closed ∈ m.store.returned := by
  cases context with
  | once => simpa [afterPop, return_, SlotStore.record] using hmem
  | _ => exact hmem

/-- A push returns its own result. -/
theorem stepPush_returned {event : E} {context : PushContext} {phase : PushPhase}
    (h : stepPush m event context flag waiter phase = some (m', l'))
    (hmem : .closed ∈ m'.store.returned) : .closed ∈ m.store.returned := by
  have hguard : guardLoop (m.sync.gate .producer) (afterPush m event context (.returned .closed))
      (fun state => (m, .push event context (.enterGate state))) = some (m', l') →
      .closed ∈ m.store.returned := by
    intro hloop
    obtain ⟨_, heq⟩ | ⟨state, heq⟩ := guardLoop_eq_some hloop
    · apply afterPush_returned m event context (.returned .closed)
      rw [← heq]
      exact hmem
    · cases heq
      exact hmem
  cases phase with
  | loadGate => exact hguard h
  | enterGate state =>
      simp only [stepPush] at h
      split at h
      · cases h
        exact hmem
      · exact hguard h
  | takeIndex | construct index =>
      simp only [stepPush] at h
      split at h <;> cases h <;> exact hmem
  | notifyRolledBack | notify =>
      obtain ⟨m₁, hm₁, heq⟩ := Option.map_eq_some_iff.mp h
      cases heq
      rw [(notifyEpoch_sameGates hm₁).2] at hmem
      exact hmem
  | notifyGate outcome =>
      refine afterPush_returned { m with sync := m.sync.notifyGate .producer } event context
        outcome ?_
      rw [Option.some.inj h]
      exact hmem
  | _ =>
      cases h
      exact hmem

/-- A pop returns its own result. -/
theorem stepPop_returned {context : PopContext} {phase : PopPhase E}
    (h : stepPop m context flag waiter phase = some (m', l'))
    (hmem : .closed ∈ m'.store.returned) : .closed ∈ m.store.returned := by
  have hguard : guardLoop (m.sync.gate .consumer) (afterPop m context .closed)
      (fun state => (m, .pop context (.enterGate state))) = some (m', l') →
      .closed ∈ m.store.returned := by
    intro hloop
    obtain ⟨_, heq⟩ | ⟨state, heq⟩ := guardLoop_eq_some hloop
    · apply afterPop_returned m context .closed
      rw [← heq]
      exact hmem
    · cases heq
      exact hmem
  cases phase with
  | loadGate => exact hguard h
  | enterGate state =>
      simp only [stepPop] at h
      split at h
      · cases h
        exact hmem
      · exact hguard h
  | takeIndex =>
      simp only [stepPop] at h
      split at h
      · cases h
        exact hmem
      · obtain ⟨event, _, heq⟩ := Option.map_eq_some_iff.mp h
        cases heq
        exact hmem
  | move index event =>
      obtain ⟨event', _, heq⟩ := Option.map_eq_some_iff.mp h
      cases heq
      exact hmem
  | notify event =>
      obtain ⟨m₁, hm₁, heq⟩ := Option.map_eq_some_iff.mp h
      cases heq
      rw [(notifyEpoch_sameGates hm₁).2] at hmem
      exact hmem
  | notifyGate result =>
      refine afterPop_returned { m with sync := m.sync.notifyGate .consumer } context result ?_
      rw [Option.some.inj h]
      exact hmem
  | _ =>
      cases h
      exact hmem

/-- `close` has nothing left to do but to release `close_mutex_`. -/
def unlocking : LockFreeLoc T E → Bool
  | .close _ (.unlock none) => true
  | _ => false

/-- `close` returns from its last step. -/
theorem step_returned_closed (h : step t c m l = some (m', l'))
    (hmem : .closed ∈ m'.store.returned) : .closed ∈ m.store.returned ∨ unlocking l = true := by
  cases c with
  | call op =>
      cases l <;> cases h
      exact .inl hmem
  | requestStop target =>
      cases l <;> simp only [step, reduceCtorEq, Option.some.injEq] at h
      unfold stepRequestStop at h
      repeat' split at h
      all_goals
        cases h
        exact .inl hmem
  | go flag waiter =>
      cases l with
      | outside last => cases h
      | push event context phase => exact .inl (stepPush_returned h hmem)
      | pop context phase => exact .inl (stepPop_returned h hmem)
      | waitPush event phase | waitPop phase =>
          simp only [step] at h
          rw [(stepWait_frame h).1.1] at hmem
          exact .inl hmem
      | timedPush event phase => cases phase <;> cases h <;> exact .inl hmem
      | close discard phase =>
          cases phase with
          | unlock discarded =>
              cases h
              cases discarded with
              | none => exact .inr rfl
              | some n =>
                  left
                  simpa [return_, SlotStore.record, closeResult] using hmem
          | lock | waitGate g state =>
              simp only [step, stepClose] at h
              split at h <;> cases h <;> exact .inl hmem
          | parkedGate g state =>
              simp only [step, stepClose] at h
              split at h
              · split at h <;> cases h
                exact .inl hmem
              · cases h
                exact .inl hmem
          | notify k discarded =>
              cases k <;> obtain ⟨m₁, hm₁, heq⟩ := Option.map_eq_some_iff.mp h <;> cases heq <;>
                rw [(notifyEpoch_sameGates hm₁).2] at hmem <;> exact .inl hmem
          | takeIndex discarded =>
              simp only [step, stepClose] at h
              split at h
              · cases h
                exact .inl hmem
              · obtain ⟨event, _, heq⟩ := Option.map_eq_some_iff.mp h
                cases heq
                exact .inl hmem
          | _ =>
              cases h
              exact .inl hmem
      | unregisterPush outcome | unregisterPop result =>
          simp only [step, stepUnregister] at h
          split at h <;> cases h
          left
          simpa [return_, SlotStore.record] using hmem
      | stopCallback target k bumped => cases bumped <;> cases h <;> exact .inl hmem

/-- It comes there from its signals. -/
theorem step_unlocking (h : step t c m l = some (m', l')) (hl' : unlocking l' = true) :
    afterQuiesced (role l) = true := by
  have hclose : ∃ discard, callKind l' = some (.close discard) := by
    unfold unlocking at hl'
    split at hl'
    · exact ⟨_, rfl⟩
    · cases hl'
  have hkind := step_callKind h
  obtain ⟨discard', hclose⟩ := hclose
  rw [hclose] at hkind
  cases c with
  | call op =>
      cases l <;> cases h
      rcases op with ⟨kind, event, stop⟩ | ⟨wait, stop⟩ | _ | _
      · cases kind <;> cases hl'
      · cases wait <;> cases hl'
      · cases hl'
      · cases hl'
  | requestStop target =>
      cases l <;> simp only [step, reduceCtorEq, Option.some.injEq] at h
      unfold stepRequestStop at h
      repeat' split at h
      all_goals
        cases h
        cases hl'
  | go flag waiter =>
      cases l with
      | close discard phase =>
          cases phase with
          | notify k discarded =>
              cases discarded with
              | none => rfl
              | some n => rfl
          | shutGate g | loadGate g =>
              cases h
              split at hl' <;> cases g <;> cases hl'
          | lock | waitGate g state =>
              simp only [step, stepClose] at h
              split at h <;> cases h <;> cases hl'
          | parkedGate g state =>
              simp only [step, stepClose] at h
              split at h
              · split at h <;> cases h
                cases hl'
              · cases h
                cases hl'
          | takeIndex discarded => rfl
          | _ =>
              cases h
              cases hl'
      | outside last => cases h
      | _ => rcases hkind with hkind | hkind | hkind <;> cases hkind

/-- **Invariant of `close`**: it returns after `producer_quiesced_` has been stored. -/
structure ReturnInv (s : Config T (LockFreeMem T E) (LockFreeLoc T E)) : Prop where
  unlocking : ∀ t, unlocking (s.loc t) = true → s.mem.sync.producerQuiesced = true
  returned : .closed ∈ s.mem.store.returned → s.mem.sync.producerQuiesced = true

/-- **Run lemma.** -/
theorem returnInv_reach [Fintype T] {capacity : ℕ}
    {ok : Config T (LockFreeMem T E) (LockFreeLoc T E) → T × LockFreeChoice T E → Prop} :
    ∀ s, (system T E capacity).Reach ok s → ReturnInv s := by
  refine interleave_invariant ?_ ?_
  · intro s hs
    rw [hs]
    refine ⟨?_, ?_⟩
    · intro t ht
      cases ht
    · intro hmem
      cases hmem
  · intro s t c m l hreach hinv _ hstep
    have hquiesced : s.mem.sync.producerQuiesced = true → m.sync.producerQuiesced = true := by
      intro hq
      rcases (step_closeMove hstep).quiesced with heq | ⟨_, htrue, _⟩
      · rw [heq, hq]
      · exact htrue
    constructor
    · refine (Function.forall_update_iff s.loc fun _ l =>
        unlocking l = true → m.sync.producerQuiesced = true).mpr ⟨?_, ?_⟩
      · intro hl
        exact hquiesced ((closeInv_reach s hreach).after t (step_unlocking hstep hl))
      · intro u _ hu
        exact hquiesced (hinv.unlocking u hu)
    · intro hmem
      rcases step_returned_closed hstep hmem with hold | hunlock
      · exact hquiesced (hinv.returned hold)
      · exact hquiesced (hinv.unlocking t hunlock)

end Returned

section Rest

variable [Fintype T] [DecidableEq T] {capacity : ℕ}
  {s : Config T (LockFreeMem T E) (LockFreeLoc T E)}

/-- The thread is parked on an epoch or on a gate. -/
def Parked (s : Config T (LockFreeMem T E) (LockFreeLoc T E)) (t : T) : Prop :=
  (∃ k, t ∈ s.mem.sync.epochWaiters k) ∨ ∃ g, t ∈ s.mem.sync.gateWaiters g

/-- Every thread is outside the queue or parked. -/
def Quiescent (s : Config T (LockFreeMem T E) (LockFreeLoc T E)) : Prop :=
  ∀ t, (∃ last, s.loc t = .outside last) ∨ Parked s t

/-- `closed()`. -/
def closed (m : LockFreeMem T E) : Bool := isClosed (m.sync.gate .producer)

/-- A call of `close` or of `close_and_discard` has returned. -/
def CloseReturned (m : LockFreeMem T E) : Prop :=
  .closed ∈ m.store.returned ∨ ∃ n, .discarded n ∈ m.store.returned

/-- Consumers are parked only on an empty open queue, producers only on a full open one, and
nobody at all after a closing call has returned. -/
structure NobodyStranded (s : Config T (LockFreeMem T E) (LockFreeLoc T E)) : Prop where
  consumers : ∀ t e, s.loc t = .waitPop (.parked e) →
    s.mem.store.published = [] ∧ closed s.mem = false
  producers : ∀ t event e, s.loc t = .waitPush event (.parked e) →
    s.mem.store.available = [] ∧ closed s.mem = false
  afterClose : CloseReturned s.mem → ∀ t, ¬ Parked s t

/-- In a quiescent state nobody is inside a gate, and so nobody waits for one. -/
theorem Quiescent.gateWaiters (hquiet : Quiescent s) (hgates : GateWaitInv s)
    (hclose : CloseInv s.mem (role ∘ s.loc)) (hepochs : EpochInv s) (g : Gate) :
    s.mem.sync.gateWaiters g = ∅ := by
  have hloc : ∀ t, (∃ last, s.loc t = .outside last) ∨ (∃ k, parkedOn k (s.loc t) = true) ∨
      ∃ discard g state, s.loc t = .close discard (.parkedGate g state) := by
    intro t
    rcases hquiet t with hout | ⟨k, hk⟩ | ⟨g', hg'⟩
    · exact .inl hout
    · exact .inr (.inl ⟨k, hepochs.parked k t hk⟩)
    · obtain ⟨discard, state, hl, _⟩ := hgates.parked g' t hg'
      exact .inr (.inr ⟨discard, g', state, hl⟩)
  apply hgates.nobody hclose
  · intro t
    rcases hloc t with ⟨last, hl⟩ | ⟨k, hk⟩ | ⟨discard, g', state, hl⟩
    · rw [hl]
      rfl
    · obtain ⟨_, e, hl⟩ | ⟨_, event, e, hl⟩ := loc_of_parkedOn hk <;> rw [hl] <;> rfl
    · rw [hl]
      rfl
  · intro t
    rcases hloc t with ⟨last, hl⟩ | ⟨k, hk⟩ | ⟨discard, g', state, hl⟩
    · rw [hl]
      rfl
    · obtain ⟨_, e, hl⟩ | ⟨_, event, e, hl⟩ := loc_of_parkedOn hk <;> rw [hl] <;> rfl
    · rw [hl]
      rfl

/-- Everybody is outside the queue or parked on an epoch. -/
theorem Quiescent.locs (hquiet : Quiescent s) (hgates : GateWaitInv s)
    (hclose : CloseInv s.mem (role ∘ s.loc)) (hepochs : EpochInv s) (t : T) :
    (∃ last, s.loc t = .outside last) ∨
      ∃ k, t ∈ s.mem.sync.epochWaiters k ∧ parkedOn k (s.loc t) = true := by
  rcases hquiet t with hout | ⟨k, hk⟩ | ⟨g, hg⟩
  · exact .inl hout
  · exact .inr ⟨k, hk, hepochs.parked k t hk⟩
  · rw [hquiet.gateWaiters hgates hclose hepochs g] at hg
    simp at hg

/-- So nobody is on the way to close the queue. -/
theorem Quiescent.no_closing (hquiet : Quiescent s) (hgates : GateWaitInv s)
    (hclose : CloseInv s.mem (role ∘ s.loc)) (hepochs : EpochInv s) :
    ¬ ProducerClosing (role ∘ s.loc) := by
  rintro ⟨t, ht⟩
  have hidle : role (s.loc t) = .idle := by
    rcases hquiet.locs hgates hclose hepochs t with ⟨last, hl⟩ | ⟨k, _, hk⟩
    · rw [hl]
      rfl
    · obtain ⟨_, e, hl⟩ | ⟨_, event, e, hl⟩ := loc_of_parkedOn hk <;> rw [hl] <;> rfl
  rw [Function.comp_apply, hidle] at ht
  rcases ht with ht | ht <;> cases ht

/-- What the protocol of one epoch says of a quiescent state. -/
theorem Quiescent.rest (hquiet : Quiescent s) (hgates : GateWaitInv s)
    (hclose : CloseInv s.mem (role ∘ s.loc)) (hepochs : EpochInv s) {k : Epoch} {t : T}
    (ht : t ∈ s.mem.sync.epochWaiters k) :
    (eventCount s.mem k).units = 0 ∧ (eventCount s.mem k).shut = false := by
  refine (hepochs.counts k).rest ?_ ⟨t, by rw [eventCount_waiters]; exact ht⟩
  intro u
  rcases hquiet.locs hgates hclose hepochs u with ⟨last, hl⟩ | ⟨k', hin, hparked⟩
  · left
    rw [Function.comp_apply, hl]
    rfl
  · by_cases hk : k' = k
    · subst hk
      rw [eventCount_waiters]
      exact .inr ⟨hin, waiting_of_parkedOn hparked⟩
    · -- parked on the other epoch
      left
      rw [Function.comp_apply]
      obtain ⟨rfl, e, hl⟩ | ⟨rfl, event, e, hl⟩ := loc_of_parkedOn hparked
      · cases k with
        | data => exact absurd rfl hk
        | capacity => rw [hl]; rfl
      · cases k with
        | data => rw [hl]; rfl
        | capacity => exact absurd rfl hk

/-- A thread that is parked in a quiescent state has not been unparked. -/
theorem Quiescent.mem_of_parkedOn (hquiet : Quiescent s) (hgates : GateWaitInv s)
    (hclose : CloseInv s.mem (role ∘ s.loc)) (hepochs : EpochInv s) {k : Epoch} {t : T}
    (ht : parkedOn k (s.loc t) = true) : t ∈ s.mem.sync.epochWaiters k := by
  rcases hquiet.locs hgates hclose hepochs t with ⟨last, hl⟩ | ⟨k', hin, hparked⟩
  · rw [hl] at ht
    cases ht
  · obtain ⟨rfl, e, hl⟩ | ⟨rfl, event, e, hl⟩ := loc_of_parkedOn hparked <;> rw [hl] at ht
    · obtain rfl : k = .data := of_decide_eq_true ht
      exact hin
    · obtain rfl : k = .capacity := of_decide_eq_true ht
      exact hin

omit [DecidableEq T] in
theorem closed_of_quiesced (hclose : CloseInv s.mem (role ∘ s.loc))
    (hq : s.mem.sync.producerQuiesced = true) : closed s.mem = true := by
  rw [closed, hclose.quiesced hq]
  decide

/-- **Nobody is stranded.**  Take any run in which the last `notify_one` of every closing call
finds at most one thread parked on its epoch, and no bump brings back an epoch that a thread
still goes by.  Whenever all threads are outside or parked, the parked ones have reason to
be, and after a closing call has returned there are none. -/
theorem nobody_stranded (hreach : (system T E capacity).Reach WakeOk s) (hquiet : Quiescent s) :
    NobodyStranded s := by
  have hepochs := epochInv_reach s hreach
  have hgates := gateWaitInv_reach s hreach
  have hclose := closeInv_reach s hreach
  have hshut := shutInv_reach s hreach
  have hopen : s.mem.sync.producerQuiesced = false → closed s.mem = false := by
    intro hq
    by_contra hclosed
    rcases hshut.producer (by simpa [closed] using hclosed) with htrue | hclosing
    · rw [hq] at htrue
      cases htrue
    · exact hquiet.no_closing hgates hclose hepochs hclosing
  refine ⟨?_, ?_, ?_⟩
  · intro t e hl
    have hin : t ∈ s.mem.sync.epochWaiters .data := by
      apply hquiet.mem_of_parkedOn hgates hclose hepochs
      rw [hl]
      rfl
    obtain ⟨hunits, hq⟩ := hquiet.rest hgates hclose hepochs hin
    exact ⟨List.length_eq_zero_iff.mp hunits, hopen hq⟩
  · intro t event e hl
    have hin : t ∈ s.mem.sync.epochWaiters .capacity := by
      apply hquiet.mem_of_parkedOn hgates hclose hepochs
      rw [hl]
      rfl
    obtain ⟨hunits, hq⟩ := hquiet.rest hgates hclose hepochs hin
    exact ⟨List.length_eq_zero_iff.mp hunits, hq⟩
  · intro hreturned t ht
    have hq : s.mem.sync.producerQuiesced = true := by
      rcases hreturned with hmem | ⟨n, hmem⟩
      · exact (returnInv_reach s hreach).returned hmem
      · exact (hclose.discarded n hmem).1
    have hclosed := closed_of_quiesced hclose hq
    rcases ht with ⟨k, hk⟩ | ⟨g, hg⟩
    · have hrest := (hquiet.rest hgates hclose hepochs hk).2
      cases k with
      | data => exact absurd (hq.symm.trans hrest) (by simp)
      | capacity => exact absurd (hclosed.symm.trans hrest) (by simp)
    · rw [hquiet.gateWaiters hgates hclose hepochs g] at hg
      simp at hg

end Rest

/-- The condition of the theorem, checked in a state before a step. -/
def wakeOk {n : ℕ} (s : Config (Fin n) (LockFreeMem (Fin n) ℕ) (LockFreeLoc (Fin n) ℕ))
    (a : Fin n × LockFreeChoice (Fin n) ℕ) : Bool :=
  [Epoch.data, .capacity].all fun k =>
    (decide (lastSignal (s.loc a.1) ≠ some k) || decide ((s.mem.sync.epochWaiters k).card ≤ 1)) &&
      (decide (bumps (s.loc a.1) ≠ some k) ||
        decide (∀ u, (epochRole k (s.loc u)).remembered ≠ some (wordInc (s.mem.sync.epoch k))))

theorem wakeOk_sound {n : ℕ}
    {s : Config (Fin n) (LockFreeMem (Fin n) ℕ) (LockFreeLoc (Fin n) ℕ)}
    {a : Fin n × LockFreeChoice (Fin n) ℕ} (h : wakeOk s a = true) : WakeOk s a := by
  have hk : ∀ k, (lastSignal (s.loc a.1) ≠ some k ∨ (s.mem.sync.epochWaiters k).card ≤ 1) ∧
      (bumps (s.loc a.1) ≠ some k ∨
        ∀ u, (epochRole k (s.loc u)).remembered ≠ some (wordInc (s.mem.sync.epoch k))) := by
    intro k
    have hall := List.all_eq_true.mp h k (by cases k <;> simp)
    simpa only [Bool.and_eq_true, Bool.or_eq_true, decide_eq_true_eq] using hall
  refine ⟨?_, ?_⟩
  · intro k hlast
    exact (hk k).1.resolve_left fun hne => hne hlast
  · intro k hbump
    exact (hk k).2.resolve_left fun hne => hne hbump

/-- One consumer is parked when the queue is closed, and the theorem applies. -/
theorem nobody_stranded_of_one :
    ∃ s : Config (Fin 2) (LockFreeMem (Fin 2) ℕ) (LockFreeLoc (Fin 2) ℕ),
      s.mem.store.returned = [.closed, .pop .closed] ∧ Quiescent s ∧ NobodyStranded s := by
  obtain ⟨s, hs, hp⟩ := System.exists_reach_of_run (system (Fin 2) ℕ 2) WakeOk wakeOk
    (s := started (Fin 2) ℕ 2) rfl
    (List.flatten [[(0, .call (.pop true false))], advance 0 17, [(1, .call .close)],
      advance 1 4, [(1, .go false (some 0))], advance 1 3, advance 0 9])
    (fun s => s.mem.store.returned == [.closed, .pop .closed] &&
      (s.loc 0 == .outside (some (.pop .closed)) && s.loc 1 == .outside (some .closed)))
    (fun _ _ _ => wakeOk_sound) (by decide +kernel)
  simp only [Bool.and_eq_true, beq_iff_eq] at hp
  obtain ⟨hreturned, h0, h1⟩ := hp
  have hquiet : Quiescent s := by
    intro t
    fin_cases t
    · exact .inl ⟨_, h0⟩
    · exact .inl ⟨_, h1⟩
  exact ⟨s, hreturned, hquiet, nobody_stranded hs hquiet⟩

/-- **`notify_one` for many waiters.**  Two consumers are parked on the empty queue when it is
closed.  One of them is unparked and returns `closed`, the other stays parked. -/
theorem close_strands_consumer :
    ∃ s : Config (Fin 3) (LockFreeMem (Fin 3) ℕ) (LockFreeLoc (Fin 3) ℕ),
      (system (Fin 3) ℕ 2).Reachable s ∧ Quiescent s ∧ CloseReturned s.mem ∧ Parked s 1 ∧
      closed s.mem = true ∧ ∃ e, s.loc 1 = .waitPop (.parked e) := by
  obtain ⟨s, hs, hp⟩ := System.exists_reach_of_run (system (Fin 3) ℕ 2)
    (fun _ _ => True) (fun _ _ => true) (s := started (Fin 3) ℕ 2) rfl
    (List.flatten [[(0, .call (.pop true false))], advance 0 17,
      [(1, .call (.pop true false))], advance 1 17, [(2, .call .close)],
      advance 2 4, [(2, .go false (some 0))], advance 2 3, advance 0 9])
    (fun s => s.loc 0 == .outside (some (.pop .closed)) && (s.loc 1 == .waitPop (.parked 0) &&
      (s.loc 2 == .outside (some .closed) && (decide (1 ∈ s.mem.sync.epochWaiters .data) &&
      (decide (.closed ∈ s.mem.store.returned) && closed s.mem)))))
    (by simp) (by decide +kernel)
  simp only [Bool.and_eq_true, beq_iff_eq, decide_eq_true_eq] at hp
  obtain ⟨h0, h1, h2, hin, hreturned, hclosed⟩ := hp
  refine ⟨s, hs, ?_, .inl hreturned, .inl ⟨_, hin⟩, hclosed, _, h1⟩
  intro t
  fin_cases t
  · exact .inl ⟨_, h0⟩
  · exact .inr (.inl ⟨_, hin⟩)
  · exact .inl ⟨_, h2⟩

end LockFreeQueue

end EventDispatcher
