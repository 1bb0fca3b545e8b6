import EventDispatcher.Lib.EventCount
import EventDispatcher.Queue.ClosingProtocol
import EventDispatcher.Queue.LockFreeQueueView

/-!
# The epochs of `bounded_lock_free_queue`

`data_epoch_` announces the published indices to `wait_pop`, `capacity_epoch_` the available
ones to `wait_push`, and `close_producers` announces to both that the queue is closed.  Both
follow the protocol of `EventCount`, with two exceptions: a signal of `close` unparks one
thread however many are parked, and an epoch comes back to an old value after 2^64 bumps.
`WakeOk` excludes the two, and under it every step is a move of the protocol at each epoch.
-/

namespace EventDispatcher

open Transition OperationGate

/-- A push attempt that belongs to a `wait_push`. -/
def PushContext.looking : PushContext → EpochRole
  | .waitFirst => .looking
  | .waitChecked _ => .looking
  | _ => .idle

/-- The part of a pop attempt before its look into the ring. -/
def PopContext.looking : PopContext → EpochRole
  | .waitFirst => .looking
  | .waitChecked _ => .looking
  | .once => .idle

/-- Between its look and the wait, the second attempt of a loop remembers the epoch. -/
def PushContext.looked (after : ℕ → EpochRole) : PushContext → EpochRole
  | .waitChecked e => after e
  | _ => .idle

/-- The part of a pop attempt behind a look that found nothing. -/
def PopContext.looked (after : ℕ → EpochRole) : PopContext → EpochRole
  | .waitChecked e => after e
  | _ => .idle

namespace LockFreeQueue

variable {T E : Type}

/-- What an epoch announces.  A consumer is told that the queue is closed when
`producer_quiesced_` is stored, a producer when its gate is shut. -/
def eventCount (m : LockFreeMem T E) : Epoch → EventCount T
  | .data => ⟨m.sync.epoch .data, m.sync.epochWaiters .data, m.store.published.length,
      m.sync.producerQuiesced⟩
  | .capacity => ⟨m.sync.epoch .capacity, m.sync.epochWaiters .capacity, m.store.available.length,
      isClosed (m.sync.gate .producer)⟩

/-- The part of a push attempt for an epoch. -/
def epochPush : Epoch → PushContext → PushPhase → EpochRole
  | .data, _, .bump => .primed
  | .data, _, .notify => .bumped
  | .data, _, _ => .idle
  | .capacity, context, .loadGate => context.looking
  | .capacity, context, .enterGate _ => context.looking
  | .capacity, context, .takeIndex => context.looking
  | .capacity, context, .leave (.returned .full) => context.looked .looked
  | .capacity, context, .notifyGate (.returned .full) => context.looked .checked
  | .capacity, _, .bumpRolledBack => .primed
  | .capacity, _, .notifyRolledBack => .bumped
  | .capacity, _, _ => .idle

/-- The part of a pop attempt for an epoch. -/
def epochPop : Epoch → PopContext → PopPhase E → EpochRole
  | .data, context, .loadGate => context.looking
  | .data, context, .enterGate _ => context.looking
  | .data, context, .takeIndex => context.looking
  | .data, context, .loadQuiesced => context.looked .looked
  | .data, context, .leave .empty => context.looked .checked
  | .data, context, .notifyGate .empty => context.looked .checked
  | .data, _, _ => .idle
  | .capacity, _, .bump _ => .primed
  | .capacity, _, .notify _ => .bumped
  | .capacity, _, _ => .idle

/-- The part of a loop that waits for an epoch. -/
def epochWait : WaitPhase → EpochRole
  | .stopChecked e => .checked e
  | .wait e => .waiting e
  | .parked e => .waiting e
  | _ => .idle

/-- After the signals of `close_producers` only `close_and_discard` signals again. -/
def signalsAgain (discard : Bool) : EpochRole := if discard then .sealed else .idle

/-- The part of `close` and `close_and_discard` for an epoch. -/
def epochClose (discard : Bool) : Epoch → ClosePhase E → EpochRole
  | _, .lock => .idle
  | _, .shutGate .producer => .idle
  | .data, .waitGate .producer _ => .idle
  | .data, .parkedGate .producer _ => .idle
  | .data, .loadGate .producer => .idle
  | .data, .storeQuiesced => .idle
  | .data, .bump .data none => .sealing
  | .data, .notify .data none => .sealed
  | .data, .bump .capacity (some _) => .idle
  | .data, .notify .capacity (some _) => .idle
  | .capacity, .waitGate .producer _ => .sealing
  | .capacity, .parkedGate .producer _ => .sealing
  | .capacity, .loadGate .producer => .sealing
  | .capacity, .storeQuiesced => .sealing
  | .capacity, .bump _ none => .sealing
  | .capacity, .notify .data none => .sealing
  | .capacity, .notify .capacity none => .sealed
  | _, .unlock _ => .idle
  | _, _ => signalsAgain discard

/-- The part a thread plays at an epoch. -/
def epochRole (k : Epoch) : LockFreeLoc T E → EpochRole
  | .push _ context phase => epochPush k context phase
  | .pop context phase => epochPop k context phase
  | .waitPush _ phase => if k = .capacity then epochWait phase else .idle
  | .waitPop phase => if k = .data then epochWait phase else .idle
  | .close discard phase => epochClose discard k phase
  | _ => .idle

/-- The epoch that the next step of the thread bumps. -/
def bumps : LockFreeLoc T E → Option Epoch
  | .push _ _ .bump => some .data
  | .push _ _ .bumpRolledBack => some .capacity
  | .pop _ (.bump _) => some .capacity
  | .waitPush _ .bump => some .capacity
  | .waitPop .bump => some .data
  | .close _ (.bump k _) => some k
  | .stopCallback _ k false => some k
  | _ => none

/-- The epoch to which the next step of the thread gives the last signal of a closing call. -/
def lastSignal : LockFreeLoc T E → Option Epoch
  | .close false (.notify k none) => some k
  | .close true (.notify k (some _)) => some k
  | _ => none

/-- The last signal of a closing call finds at most one waiter, and no bump brings back an
epoch that a thread still goes by. -/
def WakeOk (s : Config T (LockFreeMem T E) (LockFreeLoc T E)) (a : T × LockFreeChoice T E) : Prop :=
  (∀ k, lastSignal (s.loc a.1) = some k → (s.mem.sync.epochWaiters k).card ≤ 1) ∧
  ∀ k, bumps (s.loc a.1) = some k →
    ∀ u, (epochRole k (s.loc u)).remembered ≠ some (wordInc (s.mem.sync.epoch k))

section Moves

open EventCount

variable [DecidableEq T] {roles : T → EpochRole} {t : T} {m m' : LockFreeMem T E}
  {l' : LockFreeLoc T E} {flag : Bool} {waiter : Option T}

/-- A step that leaves the epoch and its part alone. -/
theorem epochMove_same {c c' : EventCount T} {r' : EpochRole} (hc : c' = c) (hr : r' = roles t) :
    EpochMove roles t c c' r' := by
  subst hc hr
  exact .stay

/-- A notification on one epoch does not touch the other. -/
theorem notifyEpoch_other {k k' : Epoch} (h : notifyEpoch m k waiter = some m') (hne : k' ≠ k) :
    eventCount m' k' = eventCount m k' := by
  obtain ⟨left, _, rfl⟩ := Option.map_eq_some_iff.mp h
  cases k <;> cases k' <;> first | rfl | exact absurd rfl hne

/-- A notification wakes one waiter, if there is one. -/
theorem notifyEpoch_own {k : Epoch} (h : notifyEpoch m k waiter = some m') :
    ∃ left, notifyOne (eventCount m k).waiters waiter = some left ∧
      eventCount m' k = { eventCount m k with waiters := left } := by
  obtain ⟨left, hleft, rfl⟩ := Option.map_eq_some_iff.mp h
  cases k <;> exact ⟨left, hleft, rfl⟩

omit [DecidableEq T] in
/-- What a push attempt makes of its outcome. -/
theorem afterPush_data (m : LockFreeMem T E) (event : E) (context : PushContext)
    (outcome : PushOutcome) :
    eventCount (afterPush m event context outcome).1 .data = eventCount m .data ∧
      epochRole .data (afterPush m event context outcome).2 = .idle := by
  cases context with
  | once | timedFinal => exact ⟨rfl, rfl⟩
  | _ =>
      refine ⟨rfl, ?_⟩
      simp only [afterPush]
      split <;> rfl

/-- **Every step of a push attempt is a move at `data_epoch_`.** -/
theorem stepPush_data {event : E} {context : PushContext} {phase : PushPhase}
    (hr : roles t = epochPush .data context phase)
    (hnew : bumps (.push event context phase : LockFreeLoc T E) = some .data →
      ∀ u, (roles u).remembered ≠ some (wordInc (m.sync.epoch .data)))
    (h : stepPush m event context flag waiter phase = some (m', l')) :
    EpochMove roles t (eventCount m .data) (eventCount m' .data) (epochRole .data l') := by
  have hguard : guardLoop (m.sync.gate .producer) (afterPush m event context (.returned .closed))
      (fun state => (m, .push event context (.enterGate state))) = some (m', l') →
      roles t = .idle →
      EpochMove roles t (eventCount m .data) (eventCount m' .data) (epochRole .data l') := by
    intro hloop hidle
    obtain ⟨_, heq⟩ | ⟨state, heq⟩ := guardLoop_eq_some hloop
    · obtain ⟨hcount, hrole⟩ := afterPush_data m event context (.returned .closed)
      rw [← heq] at hcount hrole
      exact epochMove_same hcount (hrole.trans hidle.symm)
    · cases heq
      exact epochMove_same rfl hidle.symm
  cases phase with
  | loadGate => exact hguard h hr
  | enterGate state =>
      simp only [stepPush] at h
      split at h
      · cases h
        exact epochMove_same rfl hr.symm
      · exact hguard h hr
  | takeIndex | construct index =>
      simp only [stepPush] at h
      split at h <;> cases h <;> exact epochMove_same rfl hr.symm
  | rollBack index | countOccupied index | bumpRolledBack | leave =>
      cases h
      exact epochMove_same rfl hr.symm
  | publish index =>
      cases h
      have hlen : eventCount { m with store := m.store.publish index event } .data =
          { eventCount m .data with units := (eventCount m .data).units + 1 } := by
        simp [eventCount, SlotStore.publish]
      rw [hlen]
      exact .give hr
  | bump =>
      cases h
      exact .bump (.inl ⟨hr, rfl⟩) (hnew rfl)
  | notifyRolledBack =>
      obtain ⟨m₁, hm₁, heq⟩ := Option.map_eq_some_iff.mp h
      cases heq
      exact epochMove_same (notifyEpoch_other hm₁ (by simp)) hr.symm
  | notify =>
      obtain ⟨m₁, hm₁, heq⟩ := Option.map_eq_some_iff.mp h
      cases heq
      obtain ⟨left, hleft, hcount⟩ := notifyEpoch_own hm₁
      rw [hcount]
      exact .notifyOne (.inl ⟨hr, rfl⟩) hleft
  | notifyGate outcome =>
      obtain ⟨hcount, hrole⟩ := afterPush_data
        ({ m with sync := m.sync.notifyGate .producer } : LockFreeMem T E) event context outcome
      rw [Option.some.inj h] at hcount hrole
      exact epochMove_same hcount (hrole.trans hr.symm)

omit [DecidableEq T] in
/-- A step that leaves the available ring, the epoch and the waiters alone. -/
theorem capacity_same (havailable : m'.store.available = m.store.available)
    (hepoch : m'.sync.epoch = m.sync.epoch) (hwaiters : m'.sync.epochWaiters = m.sync.epochWaiters)
    (hshut : isClosed (m'.sync.gate .producer) = isClosed (m.sync.gate .producer)) :
    eventCount m' .capacity = eventCount m .capacity := by
  simp [eventCount, havailable, hepoch, hwaiters, hshut]

omit [DecidableEq T] in
/-- The end of a push attempt does not touch `capacity_epoch_`. -/
theorem afterPush_capacity (m : LockFreeMem T E) (event : E) (context : PushContext)
    (outcome : PushOutcome) :
    eventCount (afterPush m event context outcome).1 .capacity = eventCount m .capacity := by
  cases context <;> rfl

omit [DecidableEq T] in
/-- A push attempt that has not found the queue full does not wait. -/
theorem afterPush_idle {m : LockFreeMem T E} {event : E} {context : PushContext}
    {outcome : PushOutcome} (h : outcome ≠ .returned .full) :
    epochRole .capacity (afterPush m event context outcome).2 = .idle := by
  cases context <;> simp [afterPush, return_, epochRole, h]

/-- A push attempt that did not find the queue full has no more to do with `capacity_epoch_`. -/
theorem epochPush_idle {context : PushContext} {outcome : PushOutcome}
    (h : outcome ≠ .returned .full) :
    epochPush .capacity context (.leave outcome) = .idle ∧
      epochPush .capacity context (.notifyGate outcome) = .idle := by
  cases outcome with
  | returned status => cases status <;> first | exact ⟨rfl, rfl⟩ | exact absurd rfl h
  | threw => exact ⟨rfl, rfl⟩

/-- **Every step of a push attempt is a move at `capacity_epoch_`.** -/
theorem stepPush_capacity {event : E} {context : PushContext} {phase : PushPhase}
    (hr : roles t = epochPush .capacity context phase)
    (hnew : bumps (.push event context phase : LockFreeLoc T E) = some .capacity →
      ∀ u, (roles u).remembered ≠ some (wordInc (m.sync.epoch .capacity)))
    (hshut : isClosed (m'.sync.gate .producer) = isClosed (m.sync.gate .producer))
    (hinside : ∀ outcome, phase = .leave outcome → isClosed (m.sync.gate .producer) = true →
      ∃ u, roles u = .sealing)
    (h : stepPush m event context flag waiter phase = some (m', l')) :
    EpochMove roles t (eventCount m .capacity) (eventCount m' .capacity)
      (epochRole .capacity l') := by
  have hguard : guardLoop (m.sync.gate .producer) (afterPush m event context (.returned .closed))
      (fun state => (m, .push event context (.enterGate state))) = some (m', l') →
      roles t = context.looking →
      EpochMove roles t (eventCount m .capacity) (eventCount m' .capacity)
        (epochRole .capacity l') := by
    intro hloop hlooking
    obtain ⟨hclosed, heq⟩ | ⟨state, heq⟩ := guardLoop_eq_some hloop
    · have hcount := afterPush_capacity m event context (.returned .closed)
      have hidle : epochRole .capacity (afterPush m event context (.returned .closed)).2 = .idle :=
        afterPush_idle (by simp)
      rw [← heq] at hcount hidle
      rw [hcount, hidle]
      cases context with
      | waitFirst | waitChecked => exact .refused hlooking hclosed
      | _ => exact epochMove_same rfl hlooking.symm
    · cases heq
      exact epochMove_same rfl hlooking.symm
  cases phase with
  | loadGate => exact hguard h hr
  | enterGate state =>
      simp only [stepPush] at h
      split at h
      · cases h
        exact epochMove_same (capacity_same rfl rfl rfl hshut) hr.symm
      · exact hguard h hr
  | takeIndex =>
      simp only [stepPush] at h
      split at h
      · next hnone =>
          cases h
          have hzero : (eventCount m .capacity).units = 0 := by simp [eventCount, hnone]
          cases context with
          | waitFirst => exact .lookFirst hr hzero
          | waitChecked e => exact .look hr hzero e
          | _ => exact epochMove_same rfl hr.symm
      · next index rest hsome =>
          cases h
          have hunits : (eventCount m .capacity).units = rest.length + 1 := by
            simp [eventCount, hsome]
          refine .take (.inl ⟨?_, rfl⟩) hunits
          cases context with
          | waitFirst | waitChecked => exact .inr hr
          | _ => exact .inl hr
  | construct index =>
      simp only [stepPush] at h
      split at h <;> cases h <;> exact epochMove_same rfl hr.symm
  | rollBack index =>
      cases h
      have hlen : eventCount { m with store := m.store.giveBack index } .capacity =
          { eventCount m .capacity with units := (eventCount m .capacity).units + 1 } := by
        simp [eventCount, SlotStore.giveBack]
      rw [hlen]
      exact .give hr
  | countOccupied index | publish index | bump =>
      cases h
      exact epochMove_same rfl hr.symm
  | bumpRolledBack =>
      cases h
      exact .bump (.inl ⟨hr, rfl⟩) (hnew rfl)
  | notifyRolledBack =>
      obtain ⟨m₁, hm₁, heq⟩ := Option.map_eq_some_iff.mp h
      cases heq
      obtain ⟨left, hleft, hcount⟩ := notifyEpoch_own hm₁
      rw [hcount]
      exact .notifyOne (.inl ⟨hr, rfl⟩) hleft
  | notify =>
      obtain ⟨m₁, hm₁, heq⟩ := Option.map_eq_some_iff.mp h
      cases heq
      exact epochMove_same (notifyEpoch_other hm₁ (by simp)) hr.symm
  | leave outcome =>
      have hpass := hinside outcome rfl
      have hsame : eventCount m' .capacity = eventCount m .capacity := by
        cases h
        exact capacity_same rfl rfl rfl hshut
      rw [hsame]
      cases h
      by_cases hfull : outcome = .returned .full
      · subst hfull
        cases context with
        | waitChecked e => exact .pass hr hpass
        | _ => exact epochMove_same rfl hr.symm
      · obtain ⟨hleave, hnotify⟩ := @epochPush_idle context _ hfull
        exact epochMove_same rfl (hnotify.trans (hr.trans hleave).symm)
  | notifyGate outcome =>
      have hcount := afterPush_capacity
        ({ m with sync := m.sync.notifyGate .producer } : LockFreeMem T E) event context outcome
      have hl' := congrArg Prod.snd (Option.some.inj h)
      rw [Option.some.inj h] at hcount
      rw [show eventCount m' .capacity = eventCount m .capacity from hcount]
      rw [show l' = _ from hl'.symm]
      by_cases hfull : outcome = .returned .full
      · subst hfull
        cases context <;> exact epochMove_same rfl hr.symm
      · rw [afterPush_idle hfull]
        exact epochMove_same rfl (hr.trans (epochPush_idle hfull).2).symm

omit [DecidableEq T] in
/-- The end of a pop attempt does not touch the epochs. -/
theorem afterPop_eventCount (m : LockFreeMem T E) (context : PopContext) (result : PopResult E)
    (k : Epoch) :
    eventCount (afterPop m context result).1 k = eventCount m k := by
  cases context <;> cases k <;> rfl

omit [DecidableEq T] in
/-- Nor has it a part for `capacity_epoch_`. -/
theorem afterPop_capacity (m : LockFreeMem T E) (context : PopContext) (result : PopResult E) :
    epochRole .capacity (afterPop m context result).2 = .idle := by
  cases context <;> cases result <;> rfl

/-- A pop attempt that has not found the queue empty does not wait. -/
theorem epochPop_idle {context : PopContext} {result : PopResult E} (h : result ≠ .empty) :
    epochPop .data context (.leave result) = .idle ∧
      epochPop .data context (.notifyGate result) = .idle := by
  cases result <;> first | exact ⟨rfl, rfl⟩ | exact absurd rfl h

omit [DecidableEq T] in
/-- A pop attempt that did not find the queue empty has no more to do with `data_epoch_`. -/
theorem afterPop_idle {m : LockFreeMem T E} {context : PopContext} {result : PopResult E}
    (h : result ≠ .empty) : epochRole .data (afterPop m context result).2 = .idle := by
  cases context <;> cases result <;> first | rfl | exact absurd rfl h

/-- **Every step of a pop attempt is a move at `data_epoch_`.** -/
theorem stepPop_data {context : PopContext} {phase : PopPhase E}
    (hr : roles t = epochPop .data context phase)
    (hgate : isClosed (m.sync.gate .consumer) = true → m.sync.producerQuiesced = true)
    (h : stepPop m context flag waiter phase = some (m', l')) :
    EpochMove roles t (eventCount m .data) (eventCount m' .data) (epochRole .data l') := by
  have hguard : guardLoop (m.sync.gate .consumer) (afterPop m context .closed)
      (fun state => (m, .pop context (.enterGate state))) = some (m', l') →
      roles t = context.looking →
      EpochMove roles t (eventCount m .data) (eventCount m' .data) (epochRole .data l') := by
    intro hloop hlooking
    obtain ⟨hclosed, heq⟩ | ⟨state, heq⟩ := guardLoop_eq_some hloop
    · have hcount := afterPop_eventCount m context .closed .data
      have hidle : epochRole .data (afterPop m context .closed).2 = .idle :=
        afterPop_idle (by simp)
      rw [← heq] at hcount hidle
      rw [hcount, hidle]
      cases context with
      | once => exact epochMove_same rfl hlooking.symm
      | _ => exact .refused hlooking (hgate hclosed)
    · cases heq
      exact epochMove_same rfl hlooking.symm
  cases phase with
  | loadGate => exact hguard h hr
  | enterGate state =>
      simp only [stepPop] at h
      split at h
      · cases h
        exact epochMove_same rfl hr.symm
      · exact hguard h hr
  | takeIndex =>
      simp only [stepPop] at h
      split at h
      · next hnone =>
          cases h
          have hzero : (eventCount m .data).units = 0 := by simp [eventCount, hnone]
          cases context with
          | once => exact epochMove_same rfl hr.symm
          | waitFirst => exact .lookFirst hr hzero
          | waitChecked e => exact .look hr hzero e
      · next index rest hsome =>
          obtain ⟨event, _, heq⟩ := Option.map_eq_some_iff.mp h
          cases heq
          have hunits : (eventCount m .data).units = rest.length + 1 := by
            simp [eventCount, hsome]
          refine .take (.inl ⟨?_, rfl⟩) hunits
          cases context with
          | once => exact .inl hr
          | _ => exact .inr hr
  | loadQuiesced =>
      cases h
      cases hquiesced : m.sync.producerQuiesced with
      | true =>
          cases context with
          | waitChecked e => exact .giveUp (.inl hr)
          | _ => exact epochMove_same rfl hr.symm
      | false =>
          cases context with
          | waitChecked e =>
              refine .pass hr ?_
              intro hshut
              rw [show (eventCount m .data).shut = false from hquiesced] at hshut
              cases hshut
          | _ => exact epochMove_same rfl hr.symm
  | move index event =>
      obtain ⟨event', _, heq⟩ := Option.map_eq_some_iff.mp h
      cases heq
      exact epochMove_same rfl hr.symm
  | destroy index event | uncount index event | giveBack index event | bump event =>
      cases h
      exact epochMove_same rfl hr.symm
  | notify event =>
      obtain ⟨m₁, hm₁, heq⟩ := Option.map_eq_some_iff.mp h
      cases heq
      exact epochMove_same (notifyEpoch_other hm₁ (by simp)) hr.symm
  | leave result =>
      cases h
      by_cases hempty : result = .empty
      · subst hempty
        exact epochMove_same rfl hr.symm
      · obtain ⟨hleave, hnotify⟩ := @epochPop_idle _ context _ hempty
        exact epochMove_same rfl (hnotify.trans (hr.trans hleave).symm)
  | notifyGate result =>
      have hcount := afterPop_eventCount
        ({ m with sync := m.sync.notifyGate .consumer } : LockFreeMem T E) context result .data
      have hl' := congrArg Prod.snd (Option.some.inj h)
      rw [Option.some.inj h] at hcount
      rw [show eventCount m' .data = eventCount m .data from hcount, show l' = _ from hl'.symm]
      by_cases hempty : result = .empty
      · subst hempty
        cases context <;> exact epochMove_same rfl hr.symm
      · rw [afterPop_idle hempty]
        exact epochMove_same rfl (hr.trans (epochPop_idle hempty).2).symm

/-- **Every step of a pop attempt is a move at `capacity_epoch_`.** -/
theorem stepPop_capacity {context : PopContext} {phase : PopPhase E}
    (hr : roles t = epochPop .capacity context phase)
    (hnew : bumps (.pop context phase : LockFreeLoc T E) = some .capacity →
      ∀ u, (roles u).remembered ≠ some (wordInc (m.sync.epoch .capacity)))
    (h : stepPop m context flag waiter phase = some (m', l')) :
    EpochMove roles t (eventCount m .capacity) (eventCount m' .capacity)
      (epochRole .capacity l') := by
  have hguard : guardLoop (m.sync.gate .consumer) (afterPop m context .closed)
      (fun state => (m, .pop context (.enterGate state))) = some (m', l') →
      roles t = .idle →
      EpochMove roles t (eventCount m .capacity) (eventCount m' .capacity)
        (epochRole .capacity l') := by
    intro hloop hidle
    obtain ⟨_, heq⟩ | ⟨state, heq⟩ := guardLoop_eq_some hloop
    · have hcount := afterPop_eventCount m context .closed .capacity
      have hrole := afterPop_capacity m context .closed
      rw [← heq] at hcount hrole
      exact epochMove_same hcount (hrole.trans hidle.symm)
    · cases heq
      exact epochMove_same rfl hidle.symm
  cases phase with
  | loadGate => exact hguard h hr
  | enterGate state =>
      simp only [stepPop] at h
      split at h
      · cases h
        exact epochMove_same rfl hr.symm
      · exact hguard h hr
  | takeIndex =>
      simp only [stepPop] at h
      split at h
      · cases h
        exact epochMove_same rfl hr.symm
      · obtain ⟨event, _, heq⟩ := Option.map_eq_some_iff.mp h
        cases heq
        exact epochMove_same rfl hr.symm
  | move index event =>
      obtain ⟨event', _, heq⟩ := Option.map_eq_some_iff.mp h
      cases heq
      exact epochMove_same rfl hr.symm
  | loadQuiesced | destroy index event | uncount index event | leave result =>
      cases h
      exact epochMove_same rfl hr.symm
  | giveBack index event =>
      cases h
      have hlen : eventCount { m with store := m.store.giveBack index } .capacity =
          { eventCount m .capacity with units := (eventCount m .capacity).units + 1 } := by
        simp [eventCount, SlotStore.giveBack]
      rw [hlen]
      exact .give hr
  | bump event =>
      cases h
      exact .bump (.inl ⟨hr, rfl⟩) (hnew rfl)
  | notify event =>
      obtain ⟨m₁, hm₁, heq⟩ := Option.map_eq_some_iff.mp h
      cases heq
      obtain ⟨left, hleft, hcount⟩ := notifyEpoch_own hm₁
      rw [hcount]
      exact .notifyOne (.inl ⟨hr, rfl⟩) hleft
  | notifyGate result =>
      have hcount := afterPop_eventCount
        ({ m with sync := m.sync.notifyGate .consumer } : LockFreeMem T E) context result .capacity
      have hrole := afterPop_capacity
        ({ m with sync := m.sync.notifyGate .consumer } : LockFreeMem T E) context result
      rw [Option.some.inj h] at hcount hrole
      exact epochMove_same hcount (hrole.trans hr.symm)

section Wait

variable {k k' : Epoch} {attempt : LockFreeLoc T E} {checked : ℕ → LockFreeLoc T E}
  {loop : WaitPhase → LockFreeLoc T E} {stopped : LockFreeLoc T E} {phase : WaitPhase}

omit [DecidableEq T] in
/-- Parking, seen from the epoch that the thread waits for. -/
theorem eventCount_setEpochWaiters (m : LockFreeMem T E) (k : Epoch) (waiters : Finset T) :
    eventCount { m with sync := m.sync.setEpochWaiters k waiters } k =
      { eventCount m k with waiters := waiters } := by
  cases k <;> rfl

omit [DecidableEq T] in
/-- Parking, seen from the other epoch. -/
theorem eventCount_setEpochWaiters_of_ne (m : LockFreeMem T E) (hne : k' ≠ k)
    (waiters : Finset T) :
    eventCount { m with sync := m.sync.setEpochWaiters k waiters } k' = eventCount m k' := by
  cases k <;> cases k' <;> first | rfl | exact absurd rfl hne

omit [DecidableEq T] in
/-- A bump, seen from its own epoch. -/
theorem eventCount_bump (m : LockFreeMem T E) (k : Epoch) :
    eventCount { m with sync := m.sync.bump k } k =
      { eventCount m k with epoch := wordInc (m.sync.epoch k) } := by
  cases k <;> rfl

omit [DecidableEq T] in
/-- A bump, seen from the other epoch. -/
theorem eventCount_bump_of_ne (m : LockFreeMem T E) (hne : k' ≠ k) :
    eventCount { m with sync := m.sync.bump k } k' = eventCount m k' := by
  cases k <;> cases k' <;> first | rfl | exact absurd rfl hne

/-- The stop callbacks are no part of an epoch. -/
theorem eventCount_setCallback (m : LockFreeMem T E) (k : Epoch) (state : StopCallback) :
    eventCount { m with sync := m.sync.setCallback t state } k = eventCount m k := by
  cases k <;> rfl

/-- **Every step of a waiting loop is a move at the epoch that it waits for.** -/
theorem stepWait_own (hattempt : epochRole k attempt = .looking)
    (hchecked : ∀ e, epochRole k (checked e) = .looking)
    (hloop : ∀ p, epochRole k (loop p) = epochWait p) (hstopped : epochRole k stopped = .idle)
    (hr : roles t = epochWait phase)
    (hnew : phase = .bump → ∀ u, (roles u).remembered ≠ some (wordInc (m.sync.epoch k)))
    (hparked : t ∈ (eventCount m k).waiters → ∃ e, phase = .parked e)
    (h : stepWait t m k attempt checked loop stopped flag phase = some (m', l')) :
    EpochMove roles t (eventCount m k) (eventCount m' k) (epochRole k l') := by
  have hwaiters : (eventCount m k).waiters = m.sync.epochWaiters k := by cases k <;> rfl
  have hepoch : (eventCount m k).epoch = m.sync.epoch k := by cases k <;> rfl
  cases phase with
  | register =>
      simp only [stepWait] at h
      split at h <;> cases h
      · rw [hloop]
        exact epochMove_same rfl hr.symm
      · rw [hattempt, eventCount_setCallback]
        exact .approach hr
  | bump =>
      cases h
      rw [hloop, eventCount_bump]
      exact .bump (.inr (.inl ⟨hr, rfl⟩)) (hnew rfl)
  | notify =>
      cases h
      rw [hattempt, eventCount_setEpochWaiters]
      exact .notifyAll hr (.inr rfl)
  | stopFirst =>
      cases h
      refine epochMove_same rfl ?_
      split
      · rw [hstopped, hr]
        rfl
      · rw [hloop, hr]
        rfl
  | loadEpoch =>
      cases h
      rw [hchecked]
      exact .approach hr
  | stopChecked e =>
      cases h
      split
      · rw [hstopped]
        exact .giveUp (.inr hr)
      · rw [hloop]
        exact .settle hr
  | wait e =>
      simp only [stepWait] at h
      split at h
      · next hsame =>
          cases h
          rw [hloop, eventCount_setEpochWaiters, ← hwaiters]
          exact .park hr (hepoch.trans hsame)
      · next hother =>
          cases h
          rw [hattempt]
          refine .retry hr ?_ ?_
          · intro hin
            obtain ⟨e', heq⟩ := hparked hin
            cases heq
          · rw [hepoch]
            exact fun heq => hother heq.symm
  | parked e =>
      simp only [stepWait] at h
      split at h
      · split at h
        · cases h
          rw [hloop, eventCount_setEpochWaiters, ← hwaiters]
          exact .wake hr
        · cases h
      · cases h
        rw [hloop]
        exact epochMove_same rfl hr.symm

/-- A waiting loop leaves the other epoch alone. -/
theorem stepWait_other (hne : k' ≠ k) (hattempt : epochRole k' attempt = .idle)
    (hchecked : ∀ e, epochRole k' (checked e) = .idle)
    (hloop : ∀ p, epochRole k' (loop p) = .idle) (hstopped : epochRole k' stopped = .idle)
    (hr : roles t = .idle)
    (h : stepWait t m k attempt checked loop stopped flag phase = some (m', l')) :
    EpochMove roles t (eventCount m k') (eventCount m' k') (epochRole k' l') := by
  have hmem : eventCount m' k' = eventCount m k' := by
    cases phase with
    | register =>
        simp only [stepWait] at h
        split at h <;> cases h
        · rfl
        · exact eventCount_setCallback _ _ _
    | bump => cases h; exact eventCount_bump_of_ne _ hne
    | notify => cases h; exact eventCount_setEpochWaiters_of_ne _ hne _
    | stopFirst | loadEpoch | stopChecked e => cases h; rfl
    | wait e =>
        simp only [stepWait] at h
        split at h <;> cases h
        · exact eventCount_setEpochWaiters_of_ne _ hne _
        · rfl
    | parked e =>
        simp only [stepWait] at h
        split at h
        · split at h <;> cases h
          exact eventCount_setEpochWaiters_of_ne _ hne _
        · cases h
          rfl
  refine epochMove_same hmem ?_
  rw [hr]
  rcases (stepWait_frame h).2 with rfl | ⟨e, rfl⟩ | ⟨p, rfl⟩ | rfl
  · exact hattempt
  · exact hchecked e
  · exact hloop p
  · exact hstopped

end Wait

section Close

variable {discard : Bool} {phase : ClosePhase E}

/-- `close_gate` goes on, or waits for its gate. -/
theorem epochClose_gate (discard : Bool) (k : Epoch) (g : Gate) (state : ℕ) :
    epochClose discard k
        (if active state = 0 then afterGate g else .waitGate g state : ClosePhase E) =
      epochClose discard k (.loadGate g : ClosePhase E) := by
  split
  · cases k <;> cases g <;> rfl
  · cases k <;> cases g <;> rfl

/-- **Every step of a closing call is a move at `data_epoch_`.** -/
theorem stepClose_data (hok : closeOk discard phase)
    (hr : roles t = epochClose discard .data phase)
    (hnew : bumps (.close discard phase : LockFreeLoc T E) = some .data →
      ∀ u, (roles u).remembered ≠ some (wordInc (m.sync.epoch .data)))
    (hlast : lastSignal (.close discard phase : LockFreeLoc T E) = some .data →
      (m.sync.epochWaiters .data).card ≤ 1)
    (h : stepClose t m discard flag waiter phase = some (m', l')) :
    EpochMove roles t (eventCount m .data) (eventCount m' .data) (epochRole .data l') := by
  cases phase with
  | lock =>
      simp only [stepClose] at h
      split at h <;> cases h
      exact epochMove_same rfl hr.symm
  | shutGate g =>
      cases h
      refine epochMove_same rfl ?_
      rw [hr]
      simp only [epochRole, epochClose_gate]
      cases g <;> rfl
  | loadGate g =>
      cases h
      refine epochMove_same rfl ?_
      rw [hr]
      simp only [epochRole, epochClose_gate]
  | waitGate g state =>
      simp only [stepClose] at h
      split at h <;> cases h <;> refine epochMove_same rfl ?_ <;> rw [hr] <;> cases g <;> rfl
  | parkedGate g state =>
      simp only [stepClose] at h
      split at h
      · split at h <;> cases h
        exact epochMove_same rfl hr.symm
      · cases h
        refine epochMove_same rfl ?_
        rw [hr]
        cases g <;> rfl
  | storeQuiesced =>
      cases h
      exact .shut hr
  | bump k discarded =>
      cases h
      cases k with
      | data =>
          cases discarded with
          | none => exact .bump (.inr (.inr (.inl ⟨hr, rfl⟩))) (hnew rfl)
          | some n =>
              obtain rfl : discard = true := hok
              exact .bump (.inr (.inr (.inr ⟨hr, rfl⟩))) (hnew rfl)
      | capacity =>
          cases discarded <;> exact epochMove_same rfl hr.symm
  | notify k discarded =>
      cases k with
      | data =>
          obtain ⟨m₁, hm₁, heq⟩ := Option.map_eq_some_iff.mp h
          cases heq
          obtain ⟨left, hleft, hcount⟩ := notifyEpoch_own hm₁
          rw [hcount]
          cases discarded with
          | none =>
              cases discard with
              | true => exact .notifyOne (.inr (.inl ⟨hr, rfl⟩)) hleft
              | false => exact .notifyOne (.inr (.inr ⟨hr, rfl, hlast rfl⟩)) hleft
          | some n =>
              obtain rfl : discard = true := hok
              exact .notifyOne (.inr (.inr ⟨hr, rfl, hlast rfl⟩)) hleft
      | capacity =>
          obtain ⟨m₁, hm₁, heq⟩ := Option.map_eq_some_iff.mp h
          cases heq
          refine epochMove_same (notifyEpoch_other hm₁ (by simp)) ?_
          rw [hr]
          cases discarded with
          | none => cases discard <;> rfl
          | some n => rfl
  | takeIndex discarded =>
      obtain rfl : discard = true := hok
      simp only [stepClose] at h
      split at h
      · cases h
        exact epochMove_same rfl hr.symm
      · next index rest hsome =>
          obtain ⟨event, _, heq⟩ := Option.map_eq_some_iff.mp h
          cases heq
          have hunits : (eventCount m .data).units = rest.length + 1 := by
            simp [eventCount, hsome]
          exact .take (.inr ⟨hr, rfl⟩) hunits
  | destroy index event discarded | uncount index discarded | giveBack index discarded =>
      cases h
      exact epochMove_same rfl hr.symm
  | unlock discarded =>
      cases h
      exact epochMove_same rfl hr.symm

omit [DecidableEq T] in
/-- Shutting the producer gate, seen from `capacity_epoch_`. -/
theorem eventCount_shut (hshut : isClosed (shut (m.sync.gate .producer)) = true) :
    eventCount { m with sync := m.sync.setGate .producer (shut (m.sync.gate .producer)) } .capacity =
      { eventCount m .capacity with shut := true } := by
  simp [eventCount, LockFreeSync.setGate, hshut]

/-- **Every step of a closing call is a move at `capacity_epoch_`.** -/
theorem stepClose_capacity (hok : closeOk discard phase)
    (hr : roles t = epochClose discard .capacity phase)
    (hnew : bumps (.close discard phase : LockFreeLoc T E) = some .capacity →
      ∀ u, (roles u).remembered ≠ some (wordInc (m.sync.epoch .capacity)))
    (hlast : lastSignal (.close discard phase : LockFreeLoc T E) = some .capacity →
      (m.sync.epochWaiters .capacity).card ≤ 1)
    (hshut : isClosed (shut (m.sync.gate .producer)) = true)
    (hsweep : ∀ index discarded, phase = .giveBack index discarded →
      isClosed (m.sync.gate .producer) = true)
    (h : stepClose t m discard flag waiter phase = some (m', l')) :
    EpochMove roles t (eventCount m .capacity) (eventCount m' .capacity)
      (epochRole .capacity l') := by
  cases phase with
  | lock =>
      simp only [stepClose] at h
      split at h <;> cases h
      exact epochMove_same rfl hr.symm
  | shutGate g =>
      cases h
      simp only [epochRole, epochClose_gate]
      cases g with
      | producer =>
          rw [eventCount_shut hshut]
          exact .shut hr
      | consumer => exact epochMove_same rfl hr.symm
  | loadGate g =>
      cases h
      refine epochMove_same rfl ?_
      rw [hr]
      simp only [epochRole, epochClose_gate]
  | waitGate g state =>
      simp only [stepClose] at h
      split at h <;> cases h <;> refine epochMove_same rfl ?_ <;> rw [hr] <;> cases g <;> rfl
  | parkedGate g state =>
      simp only [stepClose] at h
      split at h
      · split at h <;> cases h
        exact epochMove_same rfl hr.symm
      · cases h
        refine epochMove_same rfl ?_
        rw [hr]
        cases g <;> rfl
  | storeQuiesced =>
      cases h
      exact epochMove_same rfl hr.symm
  | bump k discarded =>
      cases h
      cases k with
      | capacity =>
          cases discarded with
          | none => exact .bump (.inr (.inr (.inl ⟨hr, rfl⟩))) (hnew rfl)
          | some n =>
              obtain rfl : discard = true := hok
              exact .bump (.inr (.inr (.inr ⟨hr, rfl⟩))) (hnew rfl)
      | data => cases discarded <;> exact epochMove_same rfl hr.symm
  | notify k discarded =>
      cases k with
      | capacity =>
          obtain ⟨m₁, hm₁, heq⟩ := Option.map_eq_some_iff.mp h
          cases heq
          obtain ⟨left, hleft, hcount⟩ := notifyEpoch_own hm₁
          rw [hcount]
          cases discarded with
          | none =>
              cases discard with
              | true => exact .notifyOne (.inr (.inl ⟨hr, rfl⟩)) hleft
              | false => exact .notifyOne (.inr (.inr ⟨hr, rfl, hlast rfl⟩)) hleft
          | some n =>
              obtain rfl : discard = true := hok
              exact .notifyOne (.inr (.inr ⟨hr, rfl, hlast rfl⟩)) hleft
      | data =>
          obtain ⟨m₁, hm₁, heq⟩ := Option.map_eq_some_iff.mp h
          cases heq
          refine epochMove_same (notifyEpoch_other hm₁ (by simp)) ?_
          rw [hr]
          cases discarded <;> rfl
  | takeIndex discarded =>
      simp only [stepClose] at h
      split at h
      · cases h
        exact epochMove_same rfl hr.symm
      · obtain ⟨event, _, heq⟩ := Option.map_eq_some_iff.mp h
        cases heq
        exact epochMove_same rfl hr.symm
  | destroy index event discarded | uncount index discarded =>
      cases h
      exact epochMove_same rfl hr.symm
  | giveBack index discarded =>
      have hclosed := hsweep index discarded rfl
      cases h
      obtain rfl : discard = true := hok
      have hlen : eventCount { m with store := m.store.giveBack index } .capacity =
          { eventCount m .capacity with units := (eventCount m .capacity).units + 1 } := by
        simp [eventCount, SlotStore.giveBack]
      rw [hlen]
      exact .refund hr hclosed
  | unlock discarded =>
      cases h
      exact epochMove_same rfl hr.symm

end Close

end Moves

end LockFreeQueue

end EventDispatcher
