import EventDispatcher.Queue.LockFreeQueueSlots

/-!
# How `bounded_lock_free_queue` closes

`close` shuts the producer gate, waits until no producer is inside and stores
`producer_quiesced_`; `close_and_discard` goes on to do the same with the consumer
gate and then sweeps the published ring.  `CloseRole` is what matters of a
thread's program point for this, and `CloseMove` is everything one step can do to
the gates, to `producer_quiesced_`, to the published ring and to the results that
have been returned.
-/

namespace EventDispatcher

open Transition OperationGate

/-- The part a thread plays in the closing of the queue. -/
inductive CloseRole
  | idle
  /-- inside the producer gate -/
  | producing
  /-- inside the consumer gate -/
  | consuming
  /-- inside the consumer gate, found the published ring empty and is about to read
  `producer_quiesced_` -/
  | sawEmpty
  /-- inside the consumer gate with the result `closed` -/
  | leavingClosed
  /-- outside the gates with the result `closed` -/
  | closedOut
  /-- about to shut a gate -/
  | shutting (gate : Gate)
  /-- has shut a gate and waits until it is drained -/
  | closing (gate : Gate)
  /-- about to store `producer_quiesced_` -/
  | drained
  /-- has stored `producer_quiesced_`, and is going on to discard or not -/
  | signalling (discard : Bool)
  /-- discarding published events -/
  | sweeping
  /-- found nothing left to discard -/
  | swept
  deriving DecidableEq

namespace CloseRole

/-- How many guards of a gate the thread has entered. -/
def guards (g : Gate) : CloseRole → ℕ
  | .producing => if g = .producer then 1 else 0
  | .consuming | .sawEmpty | .leavingClosed => if g = .consumer then 1 else 0
  | _ => 0

/-- The part a guard of the gate plays. -/
def inside : Gate → CloseRole
  | .producer => .producing
  | .consumer => .consuming

/-- What `close_gate` goes on to. -/
def afterGate : Gate → CloseRole
  | .producer => .drained
  | .consumer => .sweeping

end CloseRole

namespace LockFreeQueue

variable {T E : Type}

/-- The part of a push attempt. -/
def rolePush : PushPhase → CloseRole
  | .loadGate | .enterGate _ | .notifyGate _ => .idle
  | _ => .producing

/-- The part of a pop attempt. -/
def rolePop : PopPhase E → CloseRole
  | .loadGate | .enterGate _ => .idle
  | .loadQuiesced => .sawEmpty
  | .leave .closed => .leavingClosed
  | .notifyGate .closed => .closedOut
  | .notifyGate _ => .idle
  | _ => .consuming

/-- The part of `close` and `close_and_discard`. -/
def roleClose (discard : Bool) : ClosePhase E → CloseRole
  | .lock => .idle
  | .shutGate g => .shutting g
  | .waitGate g _ | .parkedGate g _ | .loadGate g => .closing g
  | .storeQuiesced => .drained
  | .bump _ none | .notify _ none => .signalling discard
  | .bump _ (some _) | .notify _ (some _) | .unlock (some _) => .swept
  | .takeIndex _ | .destroy _ _ _ | .uncount _ _ | .giveBack _ _ => .sweeping
  | .unlock none => .idle

/-- The part a thread plays between two steps. -/
def role : LockFreeLoc T E → CloseRole
  | .push _ _ phase => rolePush phase
  | .pop _ phase => rolePop phase
  | .close discard phase => roleClose discard phase
  | .unregisterPop .closed => .closedOut
  | _ => .idle

/-- The gates and `producer_quiesced_` are untouched. -/
def SameGates (m m' : LockFreeMem T E) : Prop :=
  m'.sync.gate = m.sync.gate ∧ m'.sync.producerQuiesced = m.sync.producerQuiesced

/-- A result that says nothing about closing. -/
def Plain (r : QueueResult E) : Prop := r ≠ .pop .closed ∧ ∀ n, r ≠ .discarded n

/-- Everything one step can do to the closing of the queue. -/
inductive CloseMove (m m' : LockFreeMem T E) : CloseRole → CloseRole → Prop
  | quiet (r : CloseRole) (hgates : SameGates m m')
      (hring : m'.store.published = m.store.published)
      (hreturned : m'.store.returned = m.store.returned)
      (hdropped : m'.store.dropped = m.store.dropped) : CloseMove m m' r r
  | publish (hgates : SameGates m m') (hreturned : m'.store.returned = m.store.returned)
      (hdropped : m'.store.dropped = m.store.dropped) : CloseMove m m' .producing .producing
  | claim {i : ℕ} (hgates : SameGates m m')
      (hring : m.store.published = i :: m'.store.published)
      (hreturned : m'.store.returned = m.store.returned)
      (hdropped : m'.store.dropped = m.store.dropped) : CloseMove m m' .consuming .consuming
  | discard {i : ℕ} (hgates : SameGates m m')
      (hring : m.store.published = i :: m'.store.published)
      (hreturned : m'.store.returned = m.store.returned) : CloseMove m m' .sweeping .sweeping
  | enter (g : Gate) (hnext : guardNext (m.sync.gate g) = .tryEnter)
      (hmem : m' = { m with sync := m.sync.setGate g (wordInc (m.sync.gate g)) }) :
      CloseMove m m' .idle (.inside g)
  | leave (g : Gate)
      (hmem : m' = { m with sync := m.sync.setGate g (wordDec (m.sync.gate g)) }) :
      CloseMove m m' (.inside g) .idle
  | leaveClosed
      (hmem : m' = { m with sync := m.sync.setGate .consumer (wordDec (m.sync.gate .consumer)) }) :
      CloseMove m m' .leavingClosed .closedOut
  | refused (hclosed : isClosed (m.sync.gate .consumer) = true) (hmem : m' = m) :
      CloseMove m m' .idle .closedOut
  | refusedOnce (hclosed : isClosed (m.sync.gate .consumer) = true)
      (hmem : m' = { m with store := m.store.record (.pop .closed) }) : CloseMove m m' .idle .idle
  | look (hring : m.store.published = []) (hmem : m' = m) : CloseMove m m' .consuming .sawEmpty
  | readQuiesced (hquiesced : m.sync.producerQuiesced = true) (hmem : m' = m) :
      CloseMove m m' .sawEmpty .leavingClosed
  | readOpen (hmem : m' = m) : CloseMove m m' .sawEmpty .consuming
  | lock (hgates : SameGates m m') (hstore : m'.store = m.store) :
      CloseMove m m' .idle (.shutting .producer)
  | shut (g : Gate) (hmem : m' = { m with sync := m.sync.setGate g (shut (m.sync.gate g)) }) :
      CloseMove m m' (.shutting g) (.closing g)
  | shutDrained (g : Gate)
      (hmem : m' = { m with sync := m.sync.setGate g (shut (m.sync.gate g)) })
      (hactive : active (m'.sync.gate g) = 0) : CloseMove m m' (.shutting g) (.afterGate g)
  | loadDrained (g : Gate) (hmem : m' = m) (hactive : active (m.sync.gate g) = 0) :
      CloseMove m m' (.closing g) (.afterGate g)
  | storeQuiesced (discard : Bool)
      (hmem : m' = { m with sync := { m.sync with producerQuiesced := true } }) :
      CloseMove m m' .drained (.signalling discard)
  | signalled (hgates : SameGates m m') (hstore : m'.store = m.store) :
      CloseMove m m' (.signalling false) .idle
  | goOnDiscarding (hgates : SameGates m m') (hstore : m'.store = m.store) :
      CloseMove m m' (.signalling true) (.shutting .consumer)
  | sweptAll (hring : m.store.published = []) (hmem : m' = m) :
      CloseMove m m' .sweeping .swept
  | plainResult (r : QueueResult E) (hplain : Plain r) (hgates : SameGates m m')
      (hstore : m'.store = m.store.record r) : CloseMove m m' .idle .idle
  | closedResult (hgates : SameGates m m') (hstore : m'.store = m.store.record (.pop .closed)) :
      CloseMove m m' .closedOut .idle
  | discardedResult (n : ℕ) (hgates : SameGates m m')
      (hstore : m'.store = m.store.record (.discarded n)) : CloseMove m m' .swept .idle

section Moves

variable {t : T} {m m' : LockFreeMem T E} {l l' : LockFreeLoc T E} {flag : Bool}
  {waiter : Option T}

/-- A step that keeps the storage and the gates and the part its thread plays. -/
theorem CloseMove.unchanged {r r' : CloseRole} (hgates : SameGates m m')
    (hstore : m'.store = m.store) (hr : r' = r) : CloseMove m m' r r' := by
  subst hr
  exact .quiet r' hgates (by rw [hstore]) (by rw [hstore]) (by rw [hstore])

/-- What a push attempt goes on to is no move. -/
theorem afterPush_closeMove (m₀ : LockFreeMem T E) (hgates : SameGates m₀ m)
    (hstore : m.store = m₀.store) (event : E) (context : PushContext) (outcome : PushOutcome) :
    CloseMove m₀ (afterPush m event context outcome).1 .idle
      (role (afterPush m event context outcome).2) := by
  cases context with
  | once =>
      refine .plainResult (.push outcome) ⟨by simp, by simp⟩ hgates ?_
      simp only [afterPush, return_, hstore]
  | timedFinal => exact .unchanged hgates hstore rfl
  | _ =>
      refine .unchanged hgates hstore ?_
      simp only [afterPush]
      split <;> rfl

variable [DecidableEq T]

/-- A notification does not touch the gates. -/
theorem notifyEpoch_sameGates {k : Epoch} (h : notifyEpoch m k waiter = some m') :
    SameGates m m' ∧ m'.store = m.store := by
  obtain ⟨left, _, rfl⟩ := Option.map_eq_some_iff.mp h
  exact ⟨⟨rfl, rfl⟩, rfl⟩

/-- **Step lemma**, for a push attempt. -/
theorem stepPush_closeMove {event : E} {context : PushContext} {phase : PushPhase}
    (h : stepPush m event context flag waiter phase = some (m', l')) :
    CloseMove m m' (rolePush phase) (role l') := by
  have hguard : guardLoop (m.sync.gate .producer) (afterPush m event context (.returned .closed))
      (fun state => (m, .push event context (.enterGate state))) = some (m', l') →
      CloseMove m m' .idle (role l') := by
    intro hr
    obtain ⟨_, hr⟩ | ⟨state, hr⟩ := guardLoop_eq_some hr
    · have hmove := afterPush_closeMove m ⟨rfl, rfl⟩ rfl event context (.returned .closed)
      rwa [← hr] at hmove
    · cases hr
      exact .unchanged ⟨rfl, rfl⟩ rfl rfl
  cases phase with
  | loadGate => exact hguard h
  | enterGate state =>
      simp only [stepPush] at h
      split at h
      · next hcas =>
          cases h
          rw [← hcas.1]
          exact .enter .producer (hcas.1 ▸ state.2) rfl
      · exact hguard h
  | takeIndex =>
      simp only [stepPush] at h
      split at h <;> cases h
      · exact .unchanged ⟨rfl, rfl⟩ rfl rfl
      · exact .quiet _ ⟨rfl, rfl⟩ rfl rfl rfl
  | construct index =>
      simp only [stepPush] at h
      split at h <;> cases h
      · exact .unchanged ⟨rfl, rfl⟩ rfl rfl
      · exact .quiet _ ⟨rfl, rfl⟩ rfl rfl rfl
  | rollBack index | countOccupied index | bumpRolledBack | bump =>
      cases h
      exact .quiet _ ⟨rfl, rfl⟩ rfl rfl rfl
  | publish index => cases h; exact .publish ⟨rfl, rfl⟩ rfl rfl
  | notifyRolledBack | notify =>
      obtain ⟨m₁, hm₁, hr⟩ := Option.map_eq_some_iff.mp h
      cases hr
      obtain ⟨hgates, hstore⟩ := notifyEpoch_sameGates hm₁
      exact .unchanged hgates hstore rfl
  | leave => cases h; exact .leave .producer rfl
  | notifyGate outcome =>
      have hmove := afterPush_closeMove (m := { m with sync := m.sync.notifyGate .producer }) m
        ⟨rfl, rfl⟩ rfl event context outcome
      rw [Option.some.inj h] at hmove
      exact hmove

/-- **Step lemma**, for a pop attempt. -/
theorem stepPop_closeMove {context : PopContext} {phase : PopPhase E}
    (h : stepPop m context flag waiter phase = some (m', l')) :
    CloseMove m m' (rolePop phase) (role l') := by
  have hguard : guardLoop (m.sync.gate .consumer) (afterPop m context .closed)
      (fun state => (m, .pop context (.enterGate state))) = some (m', l') →
      CloseMove m m' .idle (role l') := by
    intro hr
    obtain ⟨hclosed, hr⟩ | ⟨state, hr⟩ := guardLoop_eq_some hr
    · cases context <;> cases hr
      · exact .refusedOnce hclosed rfl
      · exact .refused hclosed rfl
      · exact .refused hclosed rfl
    · cases hr
      exact .unchanged ⟨rfl, rfl⟩ rfl rfl
  cases phase with
  | loadGate => exact hguard h
  | enterGate state =>
      simp only [stepPop] at h
      split at h
      · next hcas =>
          cases h
          rw [← hcas.1]
          exact .enter .consumer (hcas.1 ▸ state.2) rfl
      · exact hguard h
  | takeIndex =>
      simp only [stepPop] at h
      split at h
      · next hring =>
          cases h
          exact .look hring rfl
      · next hring =>
          obtain ⟨event, _, hr⟩ := Option.map_eq_some_iff.mp h
          cases hr
          exact .claim ⟨rfl, rfl⟩ hring rfl rfl
  | loadQuiesced =>
      cases h
      cases hq : m.sync.producerQuiesced with
      | true => exact .readQuiesced hq rfl
      | false => exact .readOpen rfl
  | move index event =>
      obtain ⟨event', _, hr⟩ := Option.map_eq_some_iff.mp h
      cases hr
      exact .unchanged ⟨rfl, rfl⟩ rfl rfl
  | destroy | uncount | giveBack | bump => cases h; exact .quiet _ ⟨rfl, rfl⟩ rfl rfl rfl
  | notify event =>
      obtain ⟨m₁, hm₁, hr⟩ := Option.map_eq_some_iff.mp h
      cases hr
      obtain ⟨hgates, hstore⟩ := notifyEpoch_sameGates hm₁
      exact .unchanged hgates hstore rfl
  | leave result =>
      cases h
      cases result with
      | closed => exact .leaveClosed rfl
      | _ => exact .leave .consumer rfl
  | notifyGate result =>
      have hmem := Option.some.inj h
      cases result with
      | closed =>
          cases context <;> cases hmem
          · exact .closedResult ⟨rfl, rfl⟩ rfl
          · exact .unchanged ⟨rfl, rfl⟩ rfl rfl
          · exact .unchanged ⟨rfl, rfl⟩ rfl rfl
      | _ =>
          cases context <;> cases hmem
          · exact .plainResult _ ⟨by simp, by simp⟩ ⟨rfl, rfl⟩ rfl
          · exact .unchanged ⟨rfl, rfl⟩ rfl rfl
          · exact .unchanged ⟨rfl, rfl⟩ rfl rfl

/-- **Step lemma**, for the loops that wait for an epoch. -/
theorem stepWait_closeMove {k : Epoch} {attempt : LockFreeLoc T E}
    {checked : ℕ → LockFreeLoc T E} {loop : WaitPhase → LockFreeLoc T E}
    {stopped : LockFreeLoc T E} {phase : WaitPhase} (hattempt : role attempt = .idle)
    (hchecked : ∀ e, role (checked e) = .idle) (hloop : ∀ p, role (loop p) = .idle)
    (hstopped : role stopped = .idle)
    (h : stepWait t m k attempt checked loop stopped flag phase = some (m', l')) :
    CloseMove m m' .idle (role l') := by
  obtain ⟨⟨hstore, hgates⟩, hl⟩ := stepWait_frame h
  refine .unchanged hgates hstore ?_
  rcases hl with rfl | ⟨e, rfl⟩ | ⟨p, rfl⟩ | rfl
  · exact hattempt
  · exact hchecked e
  · exact hloop p
  · exact hstopped

/-- What `close_gate` goes on to, as a part. -/
theorem roleClose_afterGate (discard : Bool) (g : Gate) :
    roleClose discard (afterGate g : ClosePhase E) = .afterGate g := by
  cases g <;> rfl

/-- **Step lemma**, for `close` and `close_and_discard`. -/
theorem stepClose_closeMove {discard : Bool} {phase : ClosePhase E}
    (h : stepClose t m discard flag waiter phase = some (m', l')) :
    CloseMove m m' (roleClose discard phase) (role l') := by
  cases phase with
  | lock =>
      simp only [stepClose] at h
      split at h <;> cases h
      exact .lock ⟨rfl, rfl⟩ rfl
  | shutGate g =>
      cases h
      by_cases hactive : active (shut (m.sync.gate g)) = 0
      · simp only [hactive, if_true, role, roleClose_afterGate]
        refine .shutDrained g rfl ?_
        simpa [LockFreeSync.setGate] using hactive
      · simp only [hactive, if_false]
        exact .shut g rfl
  | loadGate g =>
      cases h
      by_cases hactive : active (m.sync.gate g) = 0
      · simp only [hactive, if_true, role, roleClose_afterGate]
        exact .loadDrained g rfl hactive
      · simp only [hactive, if_false]
        exact .unchanged ⟨rfl, rfl⟩ rfl rfl
  | waitGate g state =>
      simp only [stepClose] at h
      split at h <;> cases h <;> exact .unchanged ⟨rfl, rfl⟩ rfl rfl
  | parkedGate g state =>
      simp only [stepClose] at h
      split at h
      · split at h <;> cases h
        exact .unchanged ⟨rfl, rfl⟩ rfl rfl
      · cases h
        exact .unchanged ⟨rfl, rfl⟩ rfl rfl
  | storeQuiesced => cases h; exact .storeQuiesced discard rfl
  | bump k discarded =>
      cases h
      cases discarded <;> exact .unchanged ⟨rfl, rfl⟩ rfl rfl
  | notify k discarded =>
      cases k with
      | data =>
          obtain ⟨m₁, hm₁, hr⟩ := Option.map_eq_some_iff.mp h
          cases hr
          obtain ⟨hgates, hstore⟩ := notifyEpoch_sameGates hm₁
          cases discarded <;> exact .unchanged hgates hstore rfl
      | capacity =>
          obtain ⟨m₁, hm₁, hr⟩ := Option.map_eq_some_iff.mp h
          cases hr
          obtain ⟨hgates, hstore⟩ := notifyEpoch_sameGates hm₁
          cases discarded with
          | some n => exact .unchanged hgates hstore rfl
          | none =>
              cases discard with
              | true => exact .goOnDiscarding hgates hstore
              | false => exact .signalled hgates hstore
  | takeIndex discarded =>
      simp only [stepClose] at h
      split at h
      · next hring =>
          cases h
          exact .sweptAll hring rfl
      · next hring =>
          obtain ⟨event, _, hr⟩ := Option.map_eq_some_iff.mp h
          cases hr
          exact .discard ⟨rfl, rfl⟩ hring rfl
  | destroy | uncount | giveBack => cases h; exact .quiet _ ⟨rfl, rfl⟩ rfl rfl rfl
  | unlock discarded =>
      cases h
      cases discarded with
      | none => exact .plainResult .closed ⟨by simp, by simp⟩ ⟨rfl, rfl⟩ rfl
      | some n => exact .discardedResult n ⟨rfl, rfl⟩ rfl

omit [DecidableEq T] in
/-- A call begins without a part. -/
theorem role_start (op : QueueOp E) : role (start op : LockFreeLoc T E) = .idle := by
  rcases op with ⟨kind, event, stop⟩ | ⟨wait, stop⟩ | _ | _
  · cases kind <;> rfl
  · cases wait <;> rfl
  · rfl
  · rfl

/-- **Every step is one move of the closing protocol.** -/
theorem step_closeMove {c : LockFreeChoice T E}
    (h : step t c m l = some (m', l')) : CloseMove m m' (role l) (role l') := by
  cases c with
  | call op =>
      cases l <;> cases h
      exact .unchanged ⟨rfl, rfl⟩ rfl (role_start op)
  | requestStop target =>
      cases l <;> simp only [step, reduceCtorEq, Option.some.injEq] at h
      unfold stepRequestStop at h
      repeat' split at h
      all_goals
        cases h
        exact .unchanged ⟨rfl, rfl⟩ rfl rfl
  | go flag waiter =>
      cases l with
      | outside last => cases h
      | push event context phase => exact stepPush_closeMove h
      | pop context phase => exact stepPop_closeMove h
      | waitPush event phase | waitPop phase =>
          simp only [step] at h
          exact stepWait_closeMove rfl (fun _ => rfl) (fun _ => rfl) rfl h
      | timedPush event phase =>
          cases phase <;> cases h
          · refine .unchanged ⟨rfl, rfl⟩ rfl ?_
            split <;> rfl
          · cases flag <;> exact .unchanged ⟨rfl, rfl⟩ rfl rfl
          · exact .unchanged ⟨rfl, rfl⟩ rfl rfl
      | close discard phase => exact stepClose_closeMove h
      | unregisterPush outcome =>
          simp only [step, stepUnregister] at h
          split at h <;> cases h
          exact .plainResult _ ⟨by simp, by simp⟩ ⟨rfl, rfl⟩ rfl
      | unregisterPop result =>
          simp only [step, stepUnregister] at h
          split at h <;> cases h
          cases result with
          | closed => exact .closedResult ⟨rfl, rfl⟩ rfl
          | _ => exact .plainResult _ ⟨by simp, by simp⟩ ⟨rfl, rfl⟩ rfl
      | stopCallback target k bumped =>
          cases bumped <;> cases h <;> exact .unchanged ⟨rfl, rfl⟩ rfl rfl

end Moves

/-- The thread has stored `producer_quiesced_`, or comes after such a store. -/
def afterQuiesced : CloseRole → Bool
  | .signalling _ | .shutting .consumer | .closing .consumer | .sweeping | .swept => true
  | _ => false

section Views

variable {m m' : LockFreeMem T E} {r r' : CloseRole}

/-- What a step does to the gates and to `producer_quiesced_`. -/
inductive GatesEffect (m m' : LockFreeMem T E) (r r' : CloseRole) : Prop
  | same (hgates : SameGates m m') (hguards : ∀ g, r'.guards g = r.guards g)
  | quiesced (hr : r = .drained) (hguards : ∀ g, r'.guards g = r.guards g)
      (hmem : m' = { m with sync := { m.sync with producerQuiesced := true } })
  | enter (g : Gate) (hnext : guardNext (m.sync.gate g) = .tryEnter)
      (hguards : r.guards g = 0 ∧ r'.guards g = 1) (hothers : ∀ g' ≠ g, r'.guards g' = r.guards g')
      (hmem : m' = { m with sync := m.sync.setGate g (wordInc (m.sync.gate g)) })
  | leave (g : Gate) (hguards : r.guards g = 1 ∧ r'.guards g = 0)
      (hothers : ∀ g' ≠ g, r'.guards g' = r.guards g')
      (hmem : m' = { m with sync := m.sync.setGate g (wordDec (m.sync.gate g)) })
  | shut (g : Gate) (hr : r = .shutting g) (hr' : r' = .closing g ∨ r' = .afterGate g)
      (hguards : ∀ g', r'.guards g' = r.guards g')
      (hmem : m' = { m with sync := m.sync.setGate g (shut (m.sync.gate g)) })

/-- What a step does to the published ring, to the results and to the dropped events. -/
inductive StoreEffect (m m' : LockFreeMem T E) (r r' : CloseRole) : Prop
  | same (hring : m'.store.published = m.store.published)
      (hreturned : m'.store.returned = m.store.returned)
      (hdropped : m'.store.dropped = m.store.dropped)
  | publish (hr : r = .producing) (hreturned : m'.store.returned = m.store.returned)
      (hdropped : m'.store.dropped = m.store.dropped)
  | take {i : ℕ} (hring : m.store.published = i :: m'.store.published)
      (hreturned : m'.store.returned = m.store.returned)
      (hdropped : r = .sweeping ∨ m'.store.dropped = m.store.dropped)
  | record (result : QueueResult E) (hgates : SameGates m m')
      (hstore : m'.store = m.store.record result)
      (hresult : Plain result ∨ (result = .pop .closed ∧ r' = .idle ∧
          (r = .closedOut ∨ isClosed (m.sync.gate .consumer) = true)) ∨
        ((∃ n, result = .discarded n) ∧ r = .swept))

/-- The effects of a step, whatever its move; the lemmas on what a step leaves alone follow from
these. -/
theorem CloseMove.effects (h : CloseMove m m' r r') :
    GatesEffect m m' r r' ∧ StoreEffect m m' r r' := by
  have hkept : ∀ sync, m' = { m with sync := sync } → StoreEffect m m' r r' := by
    rintro sync rfl
    exact .same rfl rfl rfl
  have hstored : m'.store = m.store → StoreEffect m m' r r' := fun hstore =>
    .same (by rw [hstore]) (by rw [hstore]) (by rw [hstore])
  cases h with
  | quiet _ hgates hring hreturned hdropped =>
      exact ⟨.same hgates fun _ => rfl, .same hring hreturned hdropped⟩
  | publish hgates hreturned hdropped =>
      exact ⟨.same hgates fun _ => rfl, .publish rfl hreturned hdropped⟩
  | claim hgates hring hreturned hdropped =>
      exact ⟨.same hgates fun _ => rfl, .take hring hreturned (.inr hdropped)⟩
  | discard hgates hring hreturned =>
      exact ⟨.same hgates fun _ => rfl, .take hring hreturned (.inl rfl)⟩
  | enter g hnext hmem =>
      refine ⟨.enter g hnext (by cases g <;> exact ⟨rfl, rfl⟩) ?_ hmem, hkept _ hmem⟩
      intro g' hne
      cases g <;> cases g' <;> first | rfl | exact absurd rfl hne
  | leave g hmem =>
      refine ⟨.leave g (by cases g <;> exact ⟨rfl, rfl⟩) ?_ hmem, hkept _ hmem⟩
      intro g' hne
      cases g <;> cases g' <;> first | rfl | exact absurd rfl hne
  | leaveClosed hmem =>
      refine ⟨.leave .consumer ⟨rfl, rfl⟩ ?_ hmem, hkept _ hmem⟩
      intro g' hne
      cases g' <;> first | rfl | exact absurd rfl hne
  | shut g hmem => exact ⟨.shut g rfl (.inl rfl) (fun _ => rfl) hmem, hkept _ hmem⟩
  | shutDrained g hmem =>
      exact ⟨.shut g rfl (.inr rfl) (fun _ => by cases g <;> rfl) hmem, hkept _ hmem⟩
  | storeQuiesced _ hmem => exact ⟨.quiesced rfl (fun _ => rfl) hmem, hkept _ hmem⟩
  | refused _ hmem | look _ hmem | readQuiesced _ hmem | readOpen hmem | sweptAll _ hmem =>
      exact ⟨.same (by rw [hmem]; exact ⟨rfl, rfl⟩) fun _ => rfl, hkept _ hmem⟩
  | loadDrained g hmem =>
      exact ⟨.same (by rw [hmem]; exact ⟨rfl, rfl⟩) fun _ => by cases g <;> rfl, hkept _ hmem⟩
  | lock hgates hstore | signalled hgates hstore | goOnDiscarding hgates hstore =>
      exact ⟨.same hgates fun _ => rfl, hstored hstore⟩
  | refusedOnce hclosed hmem =>
      have hgates : SameGates m m' := by
        rw [hmem]
        exact ⟨rfl, rfl⟩
      exact ⟨.same hgates fun _ => rfl,
        .record (.pop .closed) hgates (by rw [hmem]) (.inr (.inl ⟨rfl, rfl, .inr hclosed⟩))⟩
  | plainResult result hplain hgates hstore =>
      exact ⟨.same hgates fun _ => rfl, .record result hgates hstore (.inl hplain)⟩
  | closedResult hgates hstore =>
      exact ⟨.same hgates fun _ => rfl,
        .record _ hgates hstore (.inr (.inl ⟨rfl, rfl, .inl rfl⟩))⟩
  | discardedResult n hgates hstore =>
      exact ⟨.same hgates fun _ => rfl, .record _ hgates hstore (.inr (.inr ⟨⟨n, rfl⟩, rfl⟩))⟩

/-- A step does one atomic operation on each gate. -/
theorem CloseMove.gateMove (h : CloseMove m m' r r') (g : Gate) :
    GateMove (m.sync.gate g) (r.guards g) (m'.sync.gate g) (r'.guards g) := by
  -- an operation on one gate leaves the other alone
  have hother : ∀ {g' state}, g' ≠ g → r'.guards g = r.guards g →
      GateMove (m.sync.gate g) (r.guards g) ((m.sync.setGate g' state).gate g) (r'.guards g) := by
    intro g' state hne hguards
    simp only [LockFreeSync.setGate, Function.update_of_ne hne.symm, hguards]
    exact .quiet _ _
  cases h.effects.1 with
  | same hgates hguards =>
      rw [hgates.1, hguards]
      exact .quiet _ _
  | quiesced _ hguards hmem =>
      rw [hmem, hguards]
      exact .quiet _ _
  | enter g' hnext hguards hothers hmem =>
      rw [hmem]
      by_cases hg : g' = g
      · subst hg
        rw [hguards.1, hguards.2]
        simpa [LockFreeSync.setGate] using GateMove.enter _ hnext
      · exact hother hg (hothers g (Ne.symm hg))
  | leave g' hguards hothers hmem =>
      rw [hmem]
      by_cases hg : g' = g
      · subst hg
        rw [hguards.1, hguards.2]
        simpa [LockFreeSync.setGate] using GateMove.leave _
      · exact hother hg (hothers g (Ne.symm hg))
  | shut g' _ _ hguards hmem =>
      rw [hmem]
      by_cases hg : g' = g
      · subst hg
        rw [hguards]
        simpa [LockFreeSync.setGate] using GateMove.shut _ _
      · exact hother hg (hguards g)

/-- Only a thread about to shut a gate sets its closed bit. -/
theorem CloseMove.isClosed_cases (h : CloseMove m m' r r') (g : Gate) {n : ℕ}
    (hinv : GateInv (m.sync.gate g) n) (hle : r.guards g ≤ n) :
    isClosed (m'.sync.gate g) = isClosed (m.sync.gate g) ∨
      (r = .shutting g ∧ (r' = .closing g ∨ r' = .afterGate g)) := by
  -- an operation on one gate leaves the other alone
  have hother : ∀ {g' state}, (g' = g → isClosed state = isClosed (m.sync.gate g)) →
      isClosed ((m.sync.setGate g' state).gate g) = isClosed (m.sync.gate g) := by
    intro g' state hsame
    by_cases hg : g' = g
    · subst hg
      simpa [LockFreeSync.setGate] using hsame rfl
    · simp [LockFreeSync.setGate, Function.update_of_ne (Ne.symm hg)]
  cases h.effects.1 with
  | same hgates => exact .inl (by rw [hgates.1])
  | quiesced _ _ hmem =>
      rw [hmem]
      exact .inl rfl
  | enter g' hnext _ _ hmem =>
      rw [hmem]
      refine .inl (hother ?_)
      rintro rfl
      exact hinv.isClosed_inc hnext
  | leave g' hguards _ hmem =>
      rw [hmem]
      refine .inl (hother ?_)
      rintro rfl
      obtain ⟨k, rfl⟩ := Nat.exists_eq_add_of_le' (hguards.1 ▸ hle)
      exact hinv.isClosed_dec
  | shut g' hr hr' _ hmem =>
      by_cases hg : g' = g
      · exact .inr (hg ▸ ⟨hr, hr'⟩)
      · rw [hmem]
        exact .inl (hother fun h => absurd h hg)

/-- Only a thread that found the producer gate drained stores
`producer_quiesced_`. -/
theorem CloseMove.quiesced (h : CloseMove m m' r r') :
    m'.sync.producerQuiesced = m.sync.producerQuiesced ∨
      (r = .drained ∧ m'.sync.producerQuiesced = true ∧ m'.store = m.store) := by
  cases h.effects.1 with
  | same hgates => exact .inl hgates.2
  | quiesced hr _ hmem =>
      rw [hmem]
      exact .inr ⟨hr, rfl, rfl⟩
  | enter _ _ _ _ hmem | leave _ _ _ hmem | shut _ _ _ _ hmem =>
      rw [hmem]
      exact .inl rfl

/-- Only a producer adds to the published ring. -/
theorem CloseMove.ring (h : CloseMove m m' r r') (hr : r ≠ .producing)
    (hempty : m.store.published = []) : m'.store.published = [] := by
  cases h.effects.2 with
  | same hring => rw [hring, hempty]
  | publish hproducing => exact absurd hproducing hr
  | take hring => simp [hempty] at hring
  | record _ _ hstore =>
      rw [hstore]
      exact hempty

/-- Where the results that speak of closing come from. -/
theorem CloseMove.returned (h : CloseMove m m' r r') {result : QueueResult E}
    (hmem : result ∈ m'.store.returned) :
    result ∈ m.store.returned ∨ Plain result ∨
      (result = .pop .closed ∧ r' = .idle ∧ m'.store.published = m.store.published ∧
        SameGates m m' ∧
        (r = .closedOut ∨ isClosed (m.sync.gate .consumer) = true)) ∨
      ((∃ n, result = .discarded n) ∧ r = .swept ∧ SameGates m m' ∧
        m'.store.published = m.store.published) := by
  cases h.effects.2 with
  | same _ hreturned | publish _ hreturned | take _ hreturned => exact .inl (hreturned ▸ hmem)
  | record result' hgates hstore hresult =>
      rw [hstore] at hmem ⊢
      rcases List.mem_append.mp hmem with hold | hnew
      · exact .inl hold
      · obtain rfl := List.mem_singleton.mp hnew
        rcases hresult with hplain | ⟨hclosed, hr', hr⟩ | ⟨hdiscarded, hr⟩
        · exact .inr (.inl hplain)
        · exact .inr (.inr (.inl ⟨hclosed, hr', rfl, hgates, hr⟩))
        · exact .inr (.inr (.inr ⟨hdiscarded, hr, hgates, rfl⟩))

/-- How a thread comes to wait for a gate. -/
theorem CloseMove.to_closing (h : CloseMove m m' r r') {g : Gate} (hr' : r' = .closing g) :
    r = .closing g ∨ m'.sync.gate g = OperationGate.shut (m.sync.gate g) := by
  cases h with
  | quiet | discard => exact .inl hr'
  | enter g' => cases g' <;> cases hr'
  | shut g' hmem =>
      cases hr'
      subst hmem
      exact .inr (by simp [LockFreeSync.setGate])
  | shutDrained g' | loadDrained g' => cases g' <;> cases hr'
  | _ => cases hr'

/-- How a thread comes to find a gate drained. -/
theorem CloseMove.to_afterGate (h : CloseMove m m' r r') {g : Gate} (hr' : r' = .afterGate g) :
    r = .afterGate g ∨ (m'.sync.gate g = OperationGate.shut (m.sync.gate g) ∧
      active (m'.sync.gate g) = 0) ∨
      (r = .closing g ∧ m' = m ∧ active (m.sync.gate g) = 0) := by
  have hinj : ∀ g', CloseRole.afterGate g' = .afterGate g → g' = g := by
    intro g' heq
    cases g' <;> cases g <;> simp_all [CloseRole.afterGate]
  cases h with
  | quiet | discard => exact .inl hr'
  | shutDrained g' hmem hactive =>
      obtain rfl := hinj g' hr'
      subst hmem
      exact .inr (.inl ⟨by simp [LockFreeSync.setGate], hactive⟩)
  | loadDrained g' hmem hactive =>
      obtain rfl := hinj g' hr'
      exact .inr (.inr ⟨rfl, hmem, hactive⟩)
  | enter g' => cases g' <;> cases g <;> cases hr'
  | _ => cases g <;> cases hr'

/-- How a thread comes to stand after the store of `producer_quiesced_`. -/
theorem CloseMove.to_afterQuiesced (h : CloseMove m m' r r')
    (hr' : afterQuiesced r' = true) :
    afterQuiesced r = true ∨ m'.sync.producerQuiesced = true := by
  cases h with
  | quiet | discard => exact .inl hr'
  | enter g' => cases g' <;> cases hr'
  | shut g' => cases g' <;> simp_all [afterQuiesced]
  | shutDrained g' | loadDrained g' => cases g' <;> simp_all [afterQuiesced, CloseRole.afterGate]
  | storeQuiesced _ hmem =>
      subst hmem
      exact .inr rfl
  | goOnDiscarding | sweptAll => exact .inl rfl
  | _ => cases hr'

/-- How a thread comes to have found nothing left to discard. -/
theorem CloseMove.to_swept (h : CloseMove m m' r r') (hr' : r' = .swept) :
    r = .swept ∨ (m.store.published = [] ∧ m' = m) := by
  cases h with
  | quiet | discard => exact .inl hr'
  | enter g' => cases g' <;> cases hr'
  | shutDrained g' | loadDrained g' => cases g' <;> cases hr'
  | sweptAll hring hmem => exact .inr ⟨hring, hmem⟩
  | _ => cases hr'

end Views

/-- **Invariant of the closing protocol.** -/
structure CloseInv [Fintype T] (m : LockFreeMem T E) (roles : T → CloseRole) : Prop where
  gates : ∀ g, GateInv (m.sync.gate g) (tally (CloseRole.guards g) roles)
  closing : ∀ t g, roles t = .closing g → isClosed (m.sync.gate g) = true
  drained : ∀ t, roles t = .drained → Drained (m.sync.gate .producer)
  quiesced : m.sync.producerQuiesced = true → Drained (m.sync.gate .producer)
  after : ∀ t, afterQuiesced (roles t) = true → m.sync.producerQuiesced = true
  swept : ∀ t, roles t = .swept → m.store.published = []
  discarded : ∀ n, .discarded n ∈ m.store.returned →
    m.sync.producerQuiesced = true ∧ m.store.published = []

namespace CloseInv

variable [Fintype T] {m m' : LockFreeMem T E} {roles : T → CloseRole} {t : T} {r' : CloseRole}

/-- Once `producer_quiesced_` is stored no producer is inside any more. -/
theorem no_producer (h : CloseInv m roles) (hq : m.sync.producerQuiesced = true) (t : T) :
    roles t ≠ .producing := by
  intro ht
  have hzero := (h.gates .producer).eq_zero (h.quiesced hq)
  have hle := le_tally (CloseRole.guards .producer) roles t
  rw [hzero, ht] at hle
  simp [CloseRole.guards] at hle

/-- An empty ring stays empty once `producer_quiesced_` is stored. -/
theorem ring_stays_empty (h : CloseInv m roles) (hmove : CloseMove m m' (roles t) r')
    (hq : m.sync.producerQuiesced = true) (hempty : m.store.published = []) :
    m'.sync.producerQuiesced = true ∧ m'.store.published = [] := by
  refine ⟨?_, hmove.ring (h.no_producer hq t) hempty⟩
  rcases hmove.quiesced with heq | ⟨_, htrue, _⟩
  · rw [heq, hq]
  · exact htrue

section Step

variable [DecidableEq T]

/-- A gate counts the threads inside, after every step. -/
theorem step_gates (h : CloseInv m roles) (hmove : CloseMove m m' (roles t) r') (g : Gate) :
    GateInv (m'.sync.gate g) (tally (CloseRole.guards g) (Function.update roles t r')) :=
  (hmove.gateMove g).inv (h.gates g) (le_tally _ roles t)
    (tally_update (CloseRole.guards g) roles t r')

/-- Whoever waits for a gate has shut it. -/
theorem step_closing (h : CloseInv m roles) (hmove : CloseMove m m' (roles t) r') (u : T)
    (g : Gate) (hu : Function.update roles t r' u = .closing g) :
    isClosed (m'.sync.gate g) = true := by
  have hkeep := (hmove.gateMove g).isClosed (h.gates g) (le_tally _ roles t)
  by_cases hut : u = t
  · subst hut
    rw [Function.update_self] at hu
    rcases hmove.to_closing hu with hold | hshut
    · exact hkeep (h.closing u g hold)
    · rw [hshut]
      exact (h.gates g).isClosed_shut
  · rw [Function.update_of_ne hut] at hu
    exact hkeep (h.closing u g hu)

/-- The producer gate stays drained until `producer_quiesced_` is stored. -/
theorem step_drained (h : CloseInv m roles) (hmove : CloseMove m m' (roles t) r') (u : T)
    (hu : Function.update roles t r' u = .drained) : Drained (m'.sync.gate .producer) := by
  have hkeep := (hmove.gateMove .producer).drained (h.gates .producer) (le_tally _ roles t)
  have hgates := h.step_gates hmove .producer
  by_cases hut : u = t
  · subst hut
    rw [Function.update_self] at hu
    rcases hmove.to_afterGate (g := .producer) hu with
      hold | ⟨hshut, hactive⟩ | ⟨hclosing, rfl, hactive⟩
    · exact hkeep (h.drained u hold)
    · refine hgates.drained ?_ hactive
      rw [hshut]
      exact (h.gates .producer).isClosed_shut
    · exact hgates.drained (h.closing u .producer hclosing) hactive
  · rw [Function.update_of_ne hut] at hu
    exact hkeep (h.drained u hu)

omit [DecidableEq T] in
/-- And it stays drained for ever behind that store. -/
theorem step_quiesced (h : CloseInv m roles) (hmove : CloseMove m m' (roles t) r')
    (hq : m'.sync.producerQuiesced = true) : Drained (m'.sync.gate .producer) := by
  have hkeep := (hmove.gateMove .producer).drained (h.gates .producer) (le_tally _ roles t)
  rcases hmove.quiesced with heq | ⟨hdrained, _⟩
  · exact hkeep (h.quiesced (heq ▸ hq))
  · exact hkeep (h.drained t hdrained)

/-- Whoever comes behind the store finds `producer_quiesced_` set. -/
theorem step_after (h : CloseInv m roles) (hmove : CloseMove m m' (roles t) r') (u : T)
    (hu : afterQuiesced (Function.update roles t r' u) = true) :
    m'.sync.producerQuiesced = true := by
  have hkeep : m.sync.producerQuiesced = true → m'.sync.producerQuiesced = true := by
    intro hq
    rcases hmove.quiesced with heq | ⟨_, htrue, _⟩
    · rw [heq, hq]
    · exact htrue
  by_cases hut : u = t
  · subst hut
    rw [Function.update_self] at hu
    rcases hmove.to_afterQuiesced hu with hold | hnew
    · exact hkeep (h.after u hold)
    · exact hnew
  · rw [Function.update_of_ne hut] at hu
    exact hkeep (h.after u hu)

/-- Nothing is published behind a finished sweep. -/
theorem step_swept (h : CloseInv m roles) (hmove : CloseMove m m' (roles t) r') (u : T)
    (hu : Function.update roles t r' u = .swept) : m'.store.published = [] := by
  have hkeep : ∀ v, roles v = .swept → m'.store.published = [] := by
    intro v hv
    have hq := h.after v (by rw [hv]; rfl)
    exact (h.ring_stays_empty hmove hq (h.swept v hv)).2
  by_cases hut : u = t
  · subst hut
    rw [Function.update_self] at hu
    rcases hmove.to_swept hu with hold | ⟨hempty, rfl⟩
    · exact hkeep u hold
    · exact hempty
  · rw [Function.update_of_ne hut] at hu
    exact hkeep u hu

omit [DecidableEq T] in
/-- Nothing is published behind the return of `close_and_discard`. -/
theorem step_discarded (h : CloseInv m roles) (hmove : CloseMove m m' (roles t) r') (n : ℕ)
    (hn : .discarded n ∈ m'.store.returned) :
    m'.sync.producerQuiesced = true ∧ m'.store.published = [] := by
  rcases hmove.returned hn with hold | hplain | ⟨hclosed, _⟩ | ⟨_, hswept, _⟩
  · obtain ⟨hq, hempty⟩ := h.discarded n hold
    exact h.ring_stays_empty hmove hq hempty
  · exact absurd rfl (hplain.2 n)
  · cases hclosed
  · have hq := h.after t (by rw [hswept]; rfl)
    exact h.ring_stays_empty hmove hq (h.swept t hswept)

/-- **Step lemma** of the closing protocol. -/
theorem step (h : CloseInv m roles) (hmove : CloseMove m m' (roles t) r') :
    CloseInv m' (Function.update roles t r') where
  gates := h.step_gates hmove
  closing := h.step_closing hmove
  drained := h.step_drained hmove
  quiesced := h.step_quiesced hmove
  after := h.step_after hmove
  swept := h.step_swept hmove
  discarded := h.step_discarded hmove

end Step

end CloseInv

/-- **Run lemma** of the closing protocol. -/
theorem closeInv_reach [Fintype T] [DecidableEq T] {capacity : ℕ}
    {ok : Config T (LockFreeMem T E) (LockFreeLoc T E) → T × LockFreeChoice T E → Prop} :
    ∀ s, (system T E capacity).Reach ok s → CloseInv s.mem (role ∘ s.loc) := by
  refine interleave_invariant ?_ ?_
  · rintro s rfl
    exact
      { gates := fun g => by
          have hzero : tally (CloseRole.guards g) (role ∘ (started T E capacity).loc) = 0 :=
            tally_eq_zero fun _ => rfl
          rw [hzero]
          exact gateInv_init
        closing := fun _ _ h => by cases h
        drained := fun _ h => by cases h
        quiesced := fun h => by cases h
        after := fun _ h => by cases h
        swept := fun _ _ => rfl
        discarded := fun _ h => by cases h }
  · intro s t c m l _ hinv _ hstep
    rw [Function.comp_update]
    exact hinv.step (step_closeMove hstep)

end LockFreeQueue

end EventDispatcher
