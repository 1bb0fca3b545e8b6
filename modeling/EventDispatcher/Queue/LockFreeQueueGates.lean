import EventDispatcher.Queue.ClosingProtocol

/-!
# Waiting for a gate of `bounded_lock_free_queue`

`close_gate` parks on the gate word while guards are inside.  A guard that leaves changes
the word and then notifies, so a closer stays parked on an old word only until the
notification comes, and with nobody inside it does not stay parked at all.
-/

namespace EventDispatcher

open Transition OperationGate

namespace LockFreeQueue

variable {T E : Type}

/-- The thread has left a gate, and its `notify_all` comes next. -/
def notifiesGate (g : Gate) : LockFreeLoc T E → Bool
  | .push _ _ (.notifyGate _) => g = .producer
  | .pop _ (.notifyGate _) => g = .consumer
  | _ => false

/-- The gate word that a closer goes by. -/
def gateWait : LockFreeLoc T E → Option (Gate × ℕ)
  | .close _ (.waitGate g state) => some (g, state)
  | .close _ (.parkedGate g state) => some (g, state)
  | _ => none

variable [DecidableEq T]

/-- What one step may do to a gate word and to the threads parked on it. -/
inductive GateEvent (g : Gate) (t : T) (m : LockFreeMem T E) (l : LockFreeLoc T E)
    (m' : LockFreeMem T E) (l' : LockFreeLoc T E) : Prop
  | quiet (hgate : m'.sync.gate g = m.sync.gate g)
      (hwaiters : m'.sync.gateWaiters g = m.sync.gateWaiters g) (hl : notifiesGate g l = false)
  | enter (hnext : guardNext (m.sync.gate g) = .tryEnter)
      (hwaiters : m'.sync.gateWaiters g = m.sync.gateWaiters g)
  | leave (hwaiters : m'.sync.gateWaiters g = m.sync.gateWaiters g)
      (hl' : notifiesGate g l' = true)
  | notify (hwaiters : m'.sync.gateWaiters g = ∅)
  | shut (hgate : m'.sync.gate g = OperationGate.shut (m.sync.gate g))
      (hwaiters : m'.sync.gateWaiters g = m.sync.gateWaiters g) (hl : notifiesGate g l = false)
  | park {discard : Bool} {state : ℕ} (hl : l = .close discard (.waitGate g state))
      (hl' : l' = .close discard (.parkedGate g state)) (hsame : m.sync.gate g = state)
      (hgate : m'.sync.gate g = m.sync.gate g)
      (hwaiters : m'.sync.gateWaiters g = insert t (m.sync.gateWaiters g))
  | wake (hgate : m'.sync.gate g = m.sync.gate g)
      (hwaiters : m'.sync.gateWaiters g = (m.sync.gateWaiters g).erase t)
      (hl : notifiesGate g l = false)

section Steps

variable {g : Gate} {t : T} {m m' : LockFreeMem T E} {l' : LockFreeLoc T E} {flag : Bool}
  {waiter : Option T}

omit [DecidableEq T] in
theorem afterPush_gates (m : LockFreeMem T E) (event : E) (context : PushContext)
    (outcome : PushOutcome) : (afterPush m event context outcome).1.sync = m.sync := by
  cases context <;> rfl

omit [DecidableEq T] in
theorem afterPop_gates (m : LockFreeMem T E) (context : PopContext) (result : PopResult E) :
    (afterPop m context result).1.sync = m.sync := by
  cases context <;> rfl

theorem notifyEpoch_gates {k : Epoch} (h : notifyEpoch m k waiter = some m') :
    m'.sync.gate = m.sync.gate ∧ m'.sync.gateWaiters = m.sync.gateWaiters := by
  obtain ⟨left, _, rfl⟩ := Option.map_eq_some_iff.mp h
  exact ⟨rfl, rfl⟩

theorem stepPush_gateEvent {event : E} {context : PushContext} {phase : PushPhase}
    (h : stepPush m event context flag waiter phase = some (m', l')) :
    GateEvent g t m (.push event context phase) m' l' := by
  have hguard : guardLoop (m.sync.gate .producer) (afterPush m event context (.returned .closed))
      (fun state => (m, .push event context (.enterGate state))) = some (m', l') →
      m'.sync = m.sync := by
    intro hloop
    obtain ⟨_, heq⟩ | ⟨state, heq⟩ := guardLoop_eq_some hloop
    · have hsync := afterPush_gates m event context (.returned .closed)
      rw [← heq] at hsync
      exact hsync
    · cases heq
      rfl
  cases phase with
  | loadGate =>
      have hsync := hguard h
      exact .quiet (by rw [hsync]) (by rw [hsync]) rfl
  | enterGate state =>
      simp only [stepPush] at h
      split at h
      · next hcas =>
          cases h
          cases g with
          | producer => exact .enter (by rw [hcas.1]; exact state.2) rfl
          | consumer => exact .quiet rfl rfl rfl
      · have hsync := hguard h
        exact .quiet (by rw [hsync]) (by rw [hsync]) rfl
  | takeIndex | construct index =>
      simp only [stepPush] at h
      split at h <;> cases h <;> exact .quiet rfl rfl rfl
  | rollBack index | bumpRolledBack | countOccupied index | publish index | bump =>
      cases h
      exact .quiet rfl rfl rfl
  | notifyRolledBack | notify =>
      obtain ⟨m₁, hm₁, heq⟩ := Option.map_eq_some_iff.mp h
      cases heq
      obtain ⟨hgate, hwaiters⟩ := notifyEpoch_gates hm₁
      exact .quiet (by rw [hgate]) (by rw [hwaiters]) rfl
  | leave outcome =>
      cases h
      cases g with
      | producer => exact .leave rfl rfl
      | consumer => exact .quiet rfl rfl rfl
  | notifyGate outcome =>
      have hsync := afterPush_gates
        ({ m with sync := m.sync.notifyGate .producer } : LockFreeMem T E) event context outcome
      rw [Option.some.inj h] at hsync
      cases g with
      | producer => exact .notify (by rw [show m'.sync = _ from hsync]; rfl)
      | consumer =>
          exact .quiet (by rw [show m'.sync = _ from hsync]; rfl)
            (by rw [show m'.sync = _ from hsync]; rfl) rfl

theorem stepPop_gateEvent {context : PopContext} {phase : PopPhase E}
    (h : stepPop m context flag waiter phase = some (m', l')) :
    GateEvent g t m (.pop context phase) m' l' := by
  have hguard : guardLoop (m.sync.gate .consumer) (afterPop m context .closed)
      (fun state => (m, .pop context (.enterGate state))) = some (m', l') →
      m'.sync = m.sync := by
    intro hloop
    obtain ⟨_, heq⟩ | ⟨state, heq⟩ := guardLoop_eq_some hloop
    · have hsync := afterPop_gates m context .closed
      rw [← heq] at hsync
      exact hsync
    · cases heq
      rfl
  cases phase with
  | loadGate =>
      have hsync := hguard h
      exact .quiet (by rw [hsync]) (by rw [hsync]) rfl
  | enterGate state =>
      simp only [stepPop] at h
      split at h
      · next hcas =>
          cases h
          cases g with
          | consumer => exact .enter (by rw [hcas.1]; exact state.2) rfl
          | producer => exact .quiet rfl rfl rfl
      · have hsync := hguard h
        exact .quiet (by rw [hsync]) (by rw [hsync]) rfl
  | takeIndex =>
      simp only [stepPop] at h
      split at h
      · cases h
        exact .quiet rfl rfl rfl
      · obtain ⟨event, _, heq⟩ := Option.map_eq_some_iff.mp h
        cases heq
        exact .quiet rfl rfl rfl
  | move index event =>
      obtain ⟨event', _, heq⟩ := Option.map_eq_some_iff.mp h
      cases heq
      exact .quiet rfl rfl rfl
  | loadQuiesced | destroy index event | uncount index event | giveBack index event | bump event =>
      cases h
      exact .quiet rfl rfl rfl
  | notify event =>
      obtain ⟨m₁, hm₁, heq⟩ := Option.map_eq_some_iff.mp h
      cases heq
      obtain ⟨hgate, hwaiters⟩ := notifyEpoch_gates hm₁
      exact .quiet (by rw [hgate]) (by rw [hwaiters]) rfl
  | leave result =>
      cases h
      cases g with
      | consumer => exact .leave rfl rfl
      | producer => exact .quiet rfl rfl rfl
  | notifyGate result =>
      have hsync := afterPop_gates
        ({ m with sync := m.sync.notifyGate .consumer } : LockFreeMem T E) context result
      rw [Option.some.inj h] at hsync
      cases g with
      | consumer => exact .notify (by rw [show m'.sync = _ from hsync]; rfl)
      | producer =>
          exact .quiet (by rw [show m'.sync = _ from hsync]; rfl)
            (by rw [show m'.sync = _ from hsync]; rfl) rfl

theorem stepWait_gates {k : Epoch} {attempt : LockFreeLoc T E} {checked : ℕ → LockFreeLoc T E}
    {loop : WaitPhase → LockFreeLoc T E} {stopped : LockFreeLoc T E} {phase : WaitPhase}
    (h : stepWait t m k attempt checked loop stopped flag phase = some (m', l')) :
    m'.sync.gate = m.sync.gate ∧ m'.sync.gateWaiters = m.sync.gateWaiters := by
  cases phase with
  | parked e =>
      simp only [stepWait] at h
      split at h
      · split at h <;> cases h
        exact ⟨rfl, rfl⟩
      · cases h
        exact ⟨rfl, rfl⟩
  | register | wait e =>
      simp only [stepWait] at h
      split at h <;> cases h <;> exact ⟨rfl, rfl⟩
  | _ =>
      cases h
      exact ⟨rfl, rfl⟩

theorem stepClose_gateEvent {discard : Bool} {phase : ClosePhase E}
    (h : stepClose t m discard flag waiter phase = some (m', l')) :
    GateEvent g t m (.close discard phase) m' l' := by
  cases phase with
  | lock =>
      simp only [stepClose] at h
      split at h <;> cases h
      exact .quiet rfl rfl rfl
  | shutGate g' =>
      cases h
      by_cases hg : g = g'
      · subst hg
        exact .shut (by simp [LockFreeSync.setGate]) rfl rfl
      · exact .quiet (by simp [LockFreeSync.setGate, hg]) rfl rfl
  | waitGate g' state =>
      simp only [stepClose] at h
      split at h
      · next hsame =>
          cases h
          by_cases hg : g = g'
          · subst hg
            exact .park rfl rfl hsame rfl (by simp [LockFreeSync.parkGate])
          · exact .quiet rfl (by simp [LockFreeSync.parkGate, hg]) rfl
      · cases h
        exact .quiet rfl rfl rfl
  | parkedGate g' state =>
      simp only [stepClose] at h
      split at h
      · split at h <;> cases h
        by_cases hg : g = g'
        · subst hg
          exact .wake rfl (by simp [LockFreeSync.unparkGate]) rfl
        · exact .quiet rfl (by simp [LockFreeSync.unparkGate, hg]) rfl
      · cases h
        exact .quiet rfl rfl rfl
  | notify k discarded =>
      cases k with
      | data | capacity =>
          obtain ⟨m₁, hm₁, heq⟩ := Option.map_eq_some_iff.mp h
          cases heq
          obtain ⟨hgate, hwaiters⟩ := notifyEpoch_gates hm₁
          exact .quiet (by rw [hgate]) (by rw [hwaiters]) rfl
  | takeIndex discarded =>
      simp only [stepClose] at h
      split at h
      · cases h
        exact .quiet rfl rfl rfl
      · obtain ⟨event, _, heq⟩ := Option.map_eq_some_iff.mp h
        cases heq
        exact .quiet rfl rfl rfl
  | _ =>
      cases h
      exact .quiet rfl rfl rfl

/-- **Every step is one event at each gate.** -/
theorem step_gateEvent {c : LockFreeChoice T E} {l : LockFreeLoc T E}
    (h : step t c m l = some (m', l')) (g : Gate) : GateEvent g t m l m' l' := by
  cases c with
  | call op =>
      cases l <;> cases h
      exact .quiet rfl rfl rfl
  | requestStop target =>
      cases l <;> simp only [step, reduceCtorEq, Option.some.injEq] at h
      unfold stepRequestStop at h
      repeat' split at h
      all_goals
        cases h
        exact .quiet rfl rfl rfl
  | go flag waiter =>
      cases l with
      | outside last => cases h
      | push event context phase => exact stepPush_gateEvent h
      | pop context phase => exact stepPop_gateEvent h
      | waitPush event phase | waitPop phase =>
          simp only [step] at h
          obtain ⟨hgate, hwaiters⟩ := stepWait_gates h
          exact .quiet (by rw [hgate]) (by rw [hwaiters]) rfl
      | timedPush event phase =>
          cases phase <;> cases h <;> exact .quiet rfl rfl rfl
      | close discard phase => exact stepClose_gateEvent h
      | unregisterPush outcome | unregisterPop result =>
          simp only [step, stepUnregister] at h
          split at h <;> cases h
          exact .quiet rfl rfl rfl
      | stopCallback target k bumped =>
          cases bumped <;> cases h <;> exact .quiet rfl rfl rfl

omit [DecidableEq T] in
theorem callKind_of_gateWait {l : LockFreeLoc T E} {state : ℕ}
    (h : gateWait l = some (g, state)) : ∃ discard, callKind l = some (.close discard) := by
  unfold gateWait at h
  split at h
  · exact ⟨_, rfl⟩
  · exact ⟨_, rfl⟩
  · cases h

/-- A closer waits only for a word with guards inside. -/
theorem step_gateWait {c : LockFreeChoice T E} {l : LockFreeLoc T E} {state : ℕ}
    (h : step t c m l = some (m', l')) (hl' : gateWait l' = some (g, state)) :
    gateWait l = some (g, state) ∨ active state ≠ 0 := by
  have hgate : ∀ (discard : Bool) (g' : Gate) (state' : ℕ), gateWait (.close discard
      (if active state' = 0 then afterGate g' else .waitGate g' state') : LockFreeLoc T E) =
        some (g, state) → active state ≠ 0 := by
    intro discard g' state' hwait
    split at hwait
    · cases g' <;> cases hwait
    · next hactive =>
        cases hwait
        exact hactive
  have hkind := step_callKind h
  obtain ⟨discard', hclosing⟩ := callKind_of_gateWait hl'
  rw [hclosing] at hkind
  cases c with
  | call op =>
      cases l <;> cases h
      rcases op with ⟨kind, event, stop⟩ | ⟨wait, stop⟩ | _ | _
      · cases kind <;> cases hl'
      · cases wait <;> cases hl'
      · cases hl'
      · cases hl'
  | requestStop target =>
      cases l <;> simp only [step, reduceCtorEq, Option.some.injEq] at h
      unfold stepRequestStop at h
      repeat' split at h
      all_goals
        cases h
        cases hl'
  | go flag waiter =>
      cases l with
      | close discard phase =>
          cases phase with
          | shutGate g' | loadGate g' =>
              cases h
              exact .inr (hgate discard g' _ hl')
          | waitGate g' state' =>
              simp only [step, stepClose] at h
              split at h <;> cases h
              · exact .inl hl'
              · cases hl'
          | parkedGate g' state' =>
              simp only [step, stepClose] at h
              split at h
              · split at h <;> cases h
                exact .inl hl'
              · cases h
                exact .inl hl'
          | lock =>
              simp only [step, stepClose] at h
              split at h <;> cases h
              cases hl'
          | notify k discarded =>
              cases k <;> obtain ⟨m₁, _, heq⟩ := Option.map_eq_some_iff.mp h <;> cases heq
              · cases hl'
              · cases discarded with
                | some n => cases hl'
                | none => cases discard <;> cases hl'
          | takeIndex discarded =>
              simp only [step, stepClose] at h
              split at h
              · cases h
                cases hl'
              · obtain ⟨event, _, heq⟩ := Option.map_eq_some_iff.mp h
                cases heq
                cases hl'
          | _ =>
              cases h
              cases hl'
      | outside last => cases h
      | _ =>
          -- no other call goes over into a closing one
          rcases hkind with hkind | hkind | hkind <;> cases hkind

end Steps

variable [Fintype T] {s : Config T (LockFreeMem T E) (LockFreeLoc T E)}

/-- **Invariant of the waiting closers.** -/
structure GateWaitInv (s : Config T (LockFreeMem T E) (LockFreeLoc T E)) : Prop where
  guarded : ∀ t g state, gateWait (s.loc t) = some (g, state) → active state ≠ 0
  parked : ∀ g t, t ∈ s.mem.sync.gateWaiters g → ∃ discard state,
    s.loc t = .close discard (.parkedGate g state) ∧
      (s.mem.sync.gate g = state ∨ ∃ u, notifiesGate g (s.loc u) = true)

omit [Fintype T] in
/-- A parked closer that moves is not parked any more. -/
theorem parkedGate_step {t : T} {c : LockFreeChoice T E} {m m' : LockFreeMem T E}
    {l' : LockFreeLoc T E} {discard : Bool} {g : Gate} {state : ℕ}
    (h : step t c m (.close discard (.parkedGate g state)) = some (m', l')) :
    t ∉ m'.sync.gateWaiters g := by
  cases c with
  | go flag waiter =>
      simp only [step, stepClose] at h
      split at h
      · split at h <;> cases h
        simp [LockFreeSync.unparkGate]
      · next hout =>
          cases h
          exact hout
  | _ => cases h

/-- **Step lemma.** -/
theorem GateWaitInv.step {t : T} {c : LockFreeChoice T E} {m' : LockFreeMem T E}
    {l' : LockFreeLoc T E} (hinv : GateWaitInv s) (hclose : CloseInv s.mem (role ∘ s.loc))
    (h : step t c s.mem (s.loc t) = some (m', l')) :
    GateWaitInv ⟨m', Function.update s.loc t l'⟩ := by
  constructor
  · refine (Function.forall_update_iff s.loc fun _ l =>
      ∀ g state, gateWait l = some (g, state) → active state ≠ 0).mpr ⟨?_, ?_⟩
    · intro g state hwait
      rcases step_gateWait h hwait with hold | hactive
      · exact hinv.guarded t g state hold
      · exact hactive
    · exact fun u _ => hinv.guarded u
  · intro g u hu
    have hevent := step_gateEvent h g
    simp only at hu ⊢
    by_cases hut : u = t
    · subst hut
      have hleft : u ∉ s.mem.sync.gateWaiters g := by
        intro hin
        obtain ⟨discard, state, hl, _⟩ := hinv.parked g u hin
        rw [hl] at h
        exact parkedGate_step h hu
      rw [Function.update_self]
      cases hevent with
      | park hl hl' hsame hgate => exact ⟨_, _, hl', .inl (hgate.trans hsame)⟩
      | notify hwaiters => simp [hwaiters] at hu
      | wake _ hwaiters => simp [hwaiters] at hu
      | quiet _ hwaiters | enter _ hwaiters | leave hwaiters | shut _ hwaiters =>
          rw [hwaiters] at hu
          exact absurd hu hleft
    · rw [Function.update_of_ne hut]
      -- somebody else's step
      have hin : u ∈ s.mem.sync.gateWaiters g := by
        cases hevent with
        | park _ _ _ _ hwaiters =>
            rw [hwaiters] at hu
            exact Finset.mem_of_mem_insert_of_ne hu hut
        | notify hwaiters => simp [hwaiters] at hu
        | wake _ hwaiters =>
            rw [hwaiters] at hu
            exact Finset.mem_of_mem_erase hu
        | quiet _ hwaiters | enter _ hwaiters | leave hwaiters | shut _ hwaiters =>
            rw [hwaiters] at hu
            exact hu
      obtain ⟨discard, state, hl, hword⟩ := hinv.parked g u hin
      have hclosed := hclose.closing u g (by simp only [Function.comp_apply, hl]; rfl)
      refine ⟨discard, state, hl, ?_⟩
      have hkeep : notifiesGate g (s.loc t) = false → m'.sync.gate g = s.mem.sync.gate g →
          m'.sync.gate g = state ∨
            ∃ v, notifiesGate g (Function.update s.loc t l' v) = true := by
        intro hquiet hgate
        rcases hword with hword | ⟨v, hv⟩
        · exact .inl (hgate.trans hword)
        · have hvt : v ≠ t := by
            rintro rfl
            rw [hquiet] at hv
            cases hv
          exact .inr ⟨v, by rw [Function.update_of_ne hvt]; exact hv⟩
      cases hevent with
      | quiet hgate _ hquiet | wake hgate _ hquiet => exact hkeep hquiet hgate
      | park hwait _ _ hgate =>
          refine hkeep ?_ hgate
          rw [hwait]
          rfl
      | enter hnext =>
          obtain ⟨hword', _⟩ := (hclose.gates g).tryEnter hnext
          rw [hword', isClosed_word false (hclose.gates g).1] at hclosed
          cases hclosed
      | leave _ hl' => exact .inr ⟨t, by rw [Function.update_self]; exact hl'⟩
      | notify hwaiters => simp [hwaiters] at hu
      | shut hgate _ hquiet =>
          refine hkeep hquiet (hgate.trans ?_)
          obtain ⟨hn, closed, hw⟩ := hclose.gates g
          rw [hw, isClosed_word closed hn] at hclosed
          rw [hw, hclosed, shut_word true hn]

/-- **Run lemma.** -/
theorem gateWaitInv_reach {capacity : ℕ}
    {ok : Config T (LockFreeMem T E) (LockFreeLoc T E) → T × LockFreeChoice T E → Prop} :
    ∀ s, (system T E capacity).Reach ok s → GateWaitInv s := by
  refine interleave_invariant ?_ ?_
  · intro s hs
    rw [hs]
    refine ⟨?_, ?_⟩
    · intro t g state hwait
      cases hwait
    · intro g t ht
      simp [started] at ht
  · intro s t c m l hreach hinv _ hstep
    exact hinv.step (closeInv_reach s hreach) hstep

omit [DecidableEq T] in
/-- With nobody inside a gate, and nobody about to notify it, no closer is parked on it. -/
theorem GateWaitInv.nobody (hinv : GateWaitInv s) (hclose : CloseInv s.mem (role ∘ s.loc))
    {g : Gate} (hout : ∀ u, (role (s.loc u)).guards g = 0)
    (hquiet : ∀ u, notifiesGate g (s.loc u) = false) : s.mem.sync.gateWaiters g = ∅ := by
  rw [Finset.eq_empty_iff_forall_notMem]
  intro t ht
  obtain ⟨discard, state, hl, hword | ⟨u, hu⟩⟩ := hinv.parked g t ht
  · have hzero : tally (CloseRole.guards g) (role ∘ s.loc) = 0 := tally_eq_zero hout
    obtain ⟨hn, closed, hw⟩ := hclose.gates g
    rw [hzero] at hn hw
    refine hinv.guarded t g state (by rw [hl]; rfl) ?_
    rw [← hword, hw, active_word closed hn]
  · rw [hquiet u] at hu
    cases hu

end LockFreeQueue

end EventDispatcher
