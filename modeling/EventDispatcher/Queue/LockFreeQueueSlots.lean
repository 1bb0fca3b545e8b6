import EventDispatcher.Queue.LockFreeQueue

/-!
# Slot conservation in `bounded_lock_free_queue`

Every step of every operation is one move of slot ownership (`step_slotMove`), so
the conservation law `SlotInv` holds in every reachable state.  The main theorem
spells it out in terms of the threads' program points.
-/

namespace EventDispatcher

open Transition OperationGate

namespace LockFreeQueue

variable {T E : Type}

section Moves

/-- What a push attempt goes on to holds no slot. -/
theorem afterPush_move (m : LockFreeMem T E) (event : E) (context : PushContext)
    (outcome : PushOutcome) :
    SlotMove m.store (.ofResult (.push outcome)) (afterPush m event context outcome).1.store
      (hold (afterPush m event context outcome).2) := by
  cases context with
  | once => exact .result _ _
  | timedFinal =>
      by_cases hfull : outcome = .returned .full
      · subst hfull
        exact .quiet _ _
      · simpa [afterPush, hfull, hold] using SlotMove.quiet m.store (.ofResult (.push outcome))
  | _ =>
      by_cases hfull : outcome = .returned .full
      · subst hfull
        exact .quiet _ _
      · simpa [afterPush, hfull, hold] using SlotMove.quiet m.store (.ofResult (.push outcome))

/-- What a pop attempt goes on to holds no slot. -/
theorem afterPop_move (m : LockFreeMem T E) (context : PopContext) (result : PopResult E) :
    SlotMove m.store (.ofResult (.pop result)) (afterPop m context result).1.store
      (hold (afterPop m context result).2) := by
  cases context with
  | once => exact .result _ _
  | _ => cases result <;> exact .quiet _ _

variable [DecidableEq T] {t : T} {m m' : LockFreeMem T E} {l l' : LockFreeLoc T E} {flag : Bool}
  {waiter : Option T}

/-- A notification does not touch the storage. -/
theorem notifyEpoch_store {k : Epoch} (h : notifyEpoch m k waiter = some m') :
    m'.store = m.store := by
  obtain ⟨left, _, rfl⟩ := Option.map_eq_some_iff.mp h
  rfl

omit [DecidableEq T] in
/-- An operation begins with empty hands. -/
theorem hold_start (op : QueueOp E) : hold (start op : LockFreeLoc T E) = .nothing := by
  rcases op with ⟨kind, event, stop⟩ | ⟨wait, stop⟩ | _ | _
  · cases kind <;> rfl
  · cases wait <;> rfl
  · rfl
  · rfl

/-- **Step lemma**, for a push attempt. -/
theorem stepPush_move {event : E} {context : PushContext} {phase : PushPhase}
    (h : stepPush m event context flag waiter phase = some (m', l')) :
    SlotMove m.store (holdPush event phase) m'.store (hold l') := by
  have hguard : guardLoop (m.sync.gate .producer) (afterPush m event context (.returned .closed))
      (fun state => (m, .push event context (.enterGate state))) = some (m', l') →
      SlotMove m.store .nothing m'.store (hold l') := by
    intro hr
    obtain ⟨_, hr⟩ | ⟨state, hr⟩ := guardLoop_eq_some hr
    · have hmove := afterPush_move m event context (.returned .closed)
      rwa [← hr] at hmove
    · cases hr
      exact .quiet _ _
  cases phase with
  | loadGate => exact hguard h
  | enterGate state =>
      simp only [stepPush] at h
      split at h
      · cases h
        exact .quiet _ _
      · exact hguard h
  | takeIndex =>
      simp only [stepPush] at h
      split at h
      · cases h
        exact .quiet _ _
      · next hring =>
          cases h
          exact .reserve _ hring
  | construct index =>
      simp only [stepPush] at h
      split at h
      · cases h
        exact .quiet _ _
      · cases h
        exact .construct _ event
  | rollBack index => cases h; exact .unreserve _
  | countOccupied index => cases h; exact .count _
  | publish index => cases h; exact .publish _
  | notifyRolledBack | notify =>
      obtain ⟨m₁, hm₁, hr⟩ := Option.map_eq_some_iff.mp h
      cases hr
      rw [notifyEpoch_store hm₁]
      exact .quiet _ _
  | bumpRolledBack | bump | leave => cases h; exact .quiet _ _
  | notifyGate outcome =>
      have hmove := afterPush_move { m with sync := m.sync.notifyGate .producer } event context
        outcome
      rw [Option.some.inj h] at hmove
      exact hmove

/-- **Step lemma**, for a pop attempt. -/
theorem stepPop_move {context : PopContext} {phase : PopPhase E}
    (hheld : ∀ i e, (holdPop phase).slot.alive = some (i, e) → m.store.slots i = some e)
    (h : stepPop m context flag waiter phase = some (m', l')) :
    SlotMove m.store (holdPop phase) m'.store (hold l') := by
  have hguard : guardLoop (m.sync.gate .consumer) (afterPop m context .closed)
      (fun state => (m, .pop context (.enterGate state))) = some (m', l') →
      SlotMove m.store .nothing m'.store (hold l') := by
    intro hr
    obtain ⟨_, hr⟩ | ⟨state, hr⟩ := guardLoop_eq_some hr
    · have hmove := afterPop_move m context .closed
      rwa [← hr] at hmove
    · cases hr
      exact .quiet _ _
  cases phase with
  | loadGate => exact hguard h
  | enterGate state =>
      simp only [stepPop] at h
      split at h
      · cases h
        exact .quiet _ _
      · exact hguard h
  | takeIndex =>
      simp only [stepPop] at h
      split at h
      · cases h
        exact .quiet _ _
      · next hring =>
          obtain ⟨event, hevent, hr⟩ := Option.map_eq_some_iff.mp h
          cases hr
          exact .claim _ hring hevent
  | loadQuiesced =>
      cases h
      show SlotMove _ .nothing _ (.ofResult (.pop (if m.sync.producerQuiesced then _ else _)))
      split <;> exact .quiet _ _
  | move index event =>
      obtain ⟨event', hevent, hr⟩ := Option.map_eq_some_iff.mp h
      cases hr
      have heq := hheld index event rfl
      rw [hevent] at heq
      cases heq
      exact .quiet _ _
  | destroy index event => cases h; exact .destroy _
  | uncount index event => cases h; exact .uncount _
  | giveBack index event => cases h; exact .giveBack _
  | notify event =>
      obtain ⟨m₁, hm₁, hr⟩ := Option.map_eq_some_iff.mp h
      cases hr
      rw [notifyEpoch_store hm₁]
      exact .quiet _ _
  | bump | leave => cases h; exact .quiet _ _
  | notifyGate result =>
      have hmove := afterPop_move { m with sync := m.sync.notifyGate .consumer } context result
      rw [Option.some.inj h] at hmove
      exact hmove

/-- The waiting loop owns nothing. -/
theorem stepWait_move {k : Epoch} {attempt : LockFreeLoc T E} {checked : ℕ → LockFreeLoc T E}
    {loop : WaitPhase → LockFreeLoc T E} {stopped : LockFreeLoc T E} {phase : WaitPhase}
    (hattempt : hold attempt = .nothing) (hchecked : ∀ e, hold (checked e) = .nothing)
    (hloop : ∀ p, hold (loop p) = .nothing) (hstopped : hold stopped = .nothing)
    (h : stepWait t m k attempt checked loop stopped flag phase = some (m', l')) :
    SlotMove m.store .nothing m'.store (hold l') := by
  obtain ⟨⟨hstore, _⟩, hl⟩ := stepWait_frame h
  have hnothing : hold l' = .nothing := by
    rcases hl with rfl | ⟨e, rfl⟩ | ⟨p, rfl⟩ | rfl
    · exact hattempt
    · exact hchecked e
    · exact hloop p
    · exact hstopped
  rw [hstore, hnothing]
  exact .quiet _ _

/-- **Step lemma**, for `close` and `close_and_discard`. -/
theorem stepClose_move {discard : Bool} {phase : ClosePhase E}
    (h : stepClose t m discard flag waiter phase = some (m', l')) :
    SlotMove m.store (holdClose phase) m'.store (hold l') := by
  -- `close_gate` owns nothing, whatever it has read
  have hgate : ∀ (g : Gate) (state : ℕ), holdClose
      (if active state = 0 then afterGate g else .waitGate g state : ClosePhase E) = .nothing := by
    intro g state
    split
    · cases g <;> rfl
    · rfl
  cases phase with
  | lock =>
      simp only [stepClose] at h
      split at h
      · cases h
        exact .quiet _ _
      · cases h
  | shutGate g | loadGate g =>
      cases h
      simp only [hold, hgate]
      exact .quiet _ _
  | waitGate g state =>
      simp only [stepClose] at h
      split at h <;> cases h <;> exact .quiet _ _
  | parkedGate g state =>
      simp only [stepClose] at h
      split at h
      · split at h <;> cases h
        exact .quiet _ _
      · cases h
        exact .quiet _ _
  | storeQuiesced => cases h; exact .quiet _ _
  | bump k discarded =>
      cases h
      cases discarded <;> exact .quiet _ _
  | notify k discarded =>
      cases k with
      | data =>
          obtain ⟨m₁, hm₁, hr⟩ := Option.map_eq_some_iff.mp h
          cases hr
          rw [notifyEpoch_store hm₁]
          cases discarded <;> exact .quiet _ _
      | capacity =>
          obtain ⟨m₁, hm₁, hr⟩ := Option.map_eq_some_iff.mp h
          cases hr
          rw [notifyEpoch_store hm₁]
          cases discarded with
          | none => cases discard <;> exact .quiet _ _
          | some n => exact .quiet _ _
  | takeIndex discarded =>
      simp only [stepClose] at h
      split at h
      · cases h
        exact .quiet _ _
      · next hring =>
          obtain ⟨event, hevent, hr⟩ := Option.map_eq_some_iff.mp h
          cases hr
          exact .discard _ hring hevent
  | destroy index event discarded => cases h; exact .destroy _
  | uncount index discarded => cases h; exact .uncount _
  | giveBack index discarded => cases h; exact .giveBack _
  | unlock discarded => cases h; exact .result _ _

/-- **Every step is one move of slot ownership.** -/
theorem step_slotMove {c : LockFreeChoice T E}
    (hheld : ∀ i e, (hold l).slot.alive = some (i, e) → m.store.slots i = some e)
    (h : step t c m l = some (m', l')) : SlotMove m.store (hold l) m'.store (hold l') := by
  cases c with
  | call op =>
      cases l <;> cases h
      rw [hold_start]
      exact .quiet _ _
  | requestStop target =>
      cases l <;> simp only [step, reduceCtorEq, Option.some.injEq] at h
      unfold stepRequestStop at h
      repeat' split at h
      all_goals
        cases h
        exact .quiet _ _
  | go flag waiter =>
      cases l with
      | outside last => cases h
      | push event context phase => exact stepPush_move h
      | pop context phase => exact stepPop_move hheld h
      | waitPush event phase | waitPop phase =>
          simp only [step] at h
          exact stepWait_move rfl (fun _ => rfl) (fun _ => rfl) rfl h
      | timedPush event phase =>
          cases phase <;> cases h
          · show SlotMove _ .nothing _ (hold (if m.sync.stop t then _ else _))
            split <;> exact .quiet _ _
          · cases flag <;> exact .quiet _ _
          · exact .quiet _ _
      | close discard phase => exact stepClose_move h
      | unregisterPush | unregisterPop =>
          simp only [step, stepUnregister] at h
          split at h
          · cases h
          · cases h
            exact .result _ _
      | stopCallback target k bumped =>
          cases bumped <;> cases h <;> exact .quiet _ _

end Moves

section Points

/-- The index in a producer's hands. -/
def producerSlot : LockFreeLoc T E → Option ℕ
  | .push _ _ (.construct i) | .push _ _ (.rollBack i) | .push _ _ (.countOccupied i)
  | .push _ _ (.publish i) => some i
  | _ => none

/-- The index in a producer's hands, once the event is constructed. -/
def builtSlot : LockFreeLoc T E → Option ℕ
  | .push _ _ (.countOccupied i) | .push _ _ (.publish i) => some i
  | _ => none

/-- The index in a consumer's or discarder's hands. -/
def consumerSlot : LockFreeLoc T E → Option ℕ
  | .pop _ (.move i _) | .pop _ (.destroy i _) | .pop _ (.uncount i _) | .pop _ (.giveBack i _)
  | .close _ (.destroy i _ _) | .close _ (.uncount i _) | .close _ (.giveBack i _) => some i
  | _ => none

/-- The index in a consumer's or discarder's hands, until the event is
destroyed. -/
def undestroyedSlot : LockFreeLoc T E → Option ℕ
  | .pop _ (.move i _) | .pop _ (.destroy i _) | .close _ (.destroy i _ _) => some i
  | _ => none

/-- The slot the thread is about to construct an Event in. -/
def constructing : LockFreeLoc T E → Option ℕ
  | .push _ _ (.construct i) => some i
  | _ => none

/-- The slot whose Event the thread is about to destroy. -/
def destroying : LockFreeLoc T E → Option ℕ
  | .pop _ (.destroy i _) | .close _ (.destroy i _ _) => some i
  | _ => none

/-- The thread is about to decrement `occupied_count_`. -/
def uncounting : LockFreeLoc T E → Bool
  | .pop _ (.uncount _ _) | .close _ (.uncount _ _) => true
  | _ => false

/-- The thread is in no queue operation. -/
def isOutside : LockFreeLoc T E → Bool
  | .outside _ => true
  | _ => false

/-- The program points read off a thread's hold. -/
theorem slot_hold (l : LockFreeLoc T E) :
    (hold l).slot.index = (producerSlot l).or (consumerSlot l) ∧
      (producerSlot l = none ∨ consumerSlot l = none) ∧
      (hold l).slot.alive.map Prod.fst = (builtSlot l).or (undestroyedSlot l) ∧
      (builtSlot l = none ∨ undestroyedSlot l = none) := by
  rcases l with _ | ⟨_, _, phase⟩ | _ | _ | ⟨_, phase⟩ | _ | ⟨_, phase⟩ | _ | _ | _
  case push =>
    cases phase <;>
      simp [hold, holdPush, producerSlot, consumerSlot, builtSlot, undestroyedSlot,
        SlotHold.index, SlotHold.alive, Hold.slot_ofResult]
  case pop =>
    cases phase <;>
      simp [hold, holdPop, producerSlot, consumerSlot, builtSlot, undestroyedSlot,
        SlotHold.index, SlotHold.alive, Hold.slot_ofResult]
  case close =>
    rcases phase with _ | _ | _ | _ | _ | _ | ⟨_, _ | _⟩ | ⟨_, _ | _⟩ | _ | _ | _ | _ | _ <;>
      simp [hold, holdClose, producerSlot, consumerSlot, builtSlot, undestroyedSlot,
        SlotHold.index, SlotHold.alive, Hold.slot_ofResult]
  all_goals
    simp [hold, producerSlot, consumerSlot, builtSlot, undestroyedSlot, SlotHold.index,
      SlotHold.alive, Hold.slot_ofResult]

/-- A thread holds the slot that it fills and the one that it empties. -/
theorem holds_hold (i : ℕ) (l : LockFreeLoc T E) :
    (hold l).holds i = (if producerSlot l = some i then 1 else 0) +
      (if consumerSlot l = some i then 1 else 0) := by
  obtain ⟨hindex, hone, _⟩ := slot_hold l
  rw [Hold.holds, hindex]
  rcases hone with hnone | hnone
  · simp [hnone]
  · simp [hnone]

/-- The slots that a thread holds with an event inside. -/
theorem holdsAlive_hold (i : ℕ) (l : LockFreeLoc T E) :
    (hold l).holdsAlive i = 0 ↔ ¬(builtSlot l = some i ∨ undestroyedSlot l = some i) := by
  obtain ⟨_, _, halive, hone⟩ := slot_hold l
  rw [Hold.holdsAlive, halive]
  rcases hone with hnone | hnone
  · simp [hnone]
  · simp [hnone]

end Points

section Conservation

variable [Fintype T] {capacity : ℕ}

/-- Threads with an index in their hands, counted. -/
theorem tally_holds (i : ℕ) (loc : T → LockFreeLoc T E) :
    tally (Hold.holds i) (hold ∘ loc) =
      (Finset.univ.filter fun t => producerSlot (loc t) = some i).card +
        (Finset.univ.filter fun t => consumerSlot (loc t) = some i).card := by
  rw [Finset.card_filter, Finset.card_filter, ← Finset.sum_add_distrib]
  exact Finset.sum_congr rfl fun t _ => holds_hold i (loc t)

/-- Where the indices, the live events and the counts are in a state. -/
structure SlotsConserved (capacity : ℕ) (s : Config T (LockFreeMem T E) (LockFreeLoc T E)) :
    Prop where
  /-- every index is in exactly one ring, or in one thread's hands -/
  one_place : ∀ i < capacity, s.mem.store.available.count i + s.mem.store.published.count i +
    (Finset.univ.filter fun t => producerSlot (s.loc t) = some i).card +
    (Finset.univ.filter fun t => consumerSlot (s.loc t) = some i).card = 1
  live_iff : ∀ i, (s.mem.store.slots i).isSome ↔ i ∈ s.mem.store.published ∨
    (∃ t, builtSlot (s.loc t) = some i) ∨ ∃ t, undestroyedSlot (s.loc t) = some i
  construct_raw : ∀ t i, constructing (s.loc t) = some i → s.mem.store.slots i = none
  destroy_live : ∀ t i, destroying (s.loc t) = some i → (s.mem.store.slots i).isSome
  destroyed_once : ∀ i, s.mem.store.constructed i =
    s.mem.store.destroyed i + if (s.mem.store.slots i).isSome then 1 else 0
  no_underflow : ∀ t, uncounting (s.loc t) = true → 1 ≤ s.mem.store.occupied
  occupied_le : s.mem.store.occupied ≤ capacity
  quiescent : (∀ t, isOutside (s.loc t) = true) →
    s.mem.store.occupied = s.mem.store.published.length ∧
      pushCount s.mem.store.returned = (poppedEvents s.mem.store.returned).length +
        discardCount s.mem.store.returned + s.mem.store.published.length

/-- Where the living events are. -/
theorem live_iff_of_inv {s : Config T (LockFreeMem T E) (LockFreeLoc T E)}
    (h : SlotInv capacity s.mem.store (hold ∘ s.loc)) (i : ℕ) :
    (s.mem.store.slots i).isSome ↔ i ∈ s.mem.store.published ∨
      (∃ t, builtSlot (s.loc t) = some i) ∨ ∃ t, undestroyedSlot (s.loc t) = some i := by
  have hbit := h.alive i
  rw [← exists_or]
  constructor
  · intro hsome
    obtain ⟨e, he⟩ := Option.isSome_iff_exists.mp hsome
    rw [he, liveBit_some] at hbit
    by_cases hpub : i ∈ s.mem.store.published
    · exact .inl hpub
    · right
      by_contra hnone
      rw [List.count_eq_zero.mpr hpub, tally_eq_zero] at hbit
      · cases hbit
      · intro t
        rw [Function.comp_apply, holdsAlive_hold]
        exact fun ht => hnone ⟨t, ht⟩
  · intro hplace
    have hpos : 1 ≤ liveBit (s.mem.store.slots i) := by
      rw [hbit]
      rcases hplace with hpub | ⟨t, ht⟩
      · have hcount := List.count_pos_iff.mpr hpub
        omega
      · have hle := le_tally (Hold.holdsAlive i) (hold ∘ s.loc) t
        have hne : (hold (s.loc t)).holdsAlive i ≠ 0 :=
          fun hzero => (holdsAlive_hold i _).mp hzero ht
        rw [Function.comp_apply] at hle
        omega
    cases hslot : s.mem.store.slots i with
    | none => simp [hslot] at hpos
    | some e => rfl

/-- The conservation law, read off at the program points. -/
theorem conserved_of_inv {s : Config T (LockFreeMem T E) (LockFreeLoc T E)}
    (h : SlotInv capacity s.mem.store (hold ∘ s.loc)) : SlotsConserved capacity s where
  one_place := by
    intro i hi
    have hsum := h.unique i
    rw [tally_holds, if_pos hi] at hsum
    omega
  live_iff := live_iff_of_inv h
  construct_raw := by
    intro t i ht
    have hhold : (hold (s.loc t)).slot = .reserved i := by
      unfold constructing at ht
      split at ht
      · next hl =>
          cases ht
          rw [hl]
          rfl
      · cases ht
    exact h.raw (t := t) (by simp [hhold, SlotHold.index]) (by simp [hhold, SlotHold.alive])
  destroy_live := by
    intro t i ht
    refine (live_iff_of_inv h i).mpr (.inr (.inr ⟨t, ?_⟩))
    unfold destroying at ht
    split at ht
    · next hl =>
        cases ht
        rw [hl]
        rfl
    · next hl =>
        cases ht
        rw [hl]
        rfl
    · cases ht
  destroyed_once := by
    intro i
    rw [h.lifetime i]
    cases s.mem.store.slots i <;> rfl
  no_underflow := by
    intro t ht
    apply h.occupied_pos (t := t)
    unfold uncounting at ht
    split at ht
    · next hl =>
        rw [Function.comp_apply, hl]
        rfl
    · next hl =>
        rw [Function.comp_apply, hl]
        rfl
    · cases ht
  occupied_le := h.occupied_le
  quiescent := by
    intro hout
    have hnothing : hold ∘ s.loc = fun _ => Hold.nothing := by
      funext t
      have ht := hout t
      unfold isOutside at ht
      split at ht
      · next hl =>
          rw [Function.comp_apply, hl]
          rfl
      · cases ht
    have hocc := h.occupied
    have hlive := h.events
    have hpushes := h.pushes
    have hpops := h.pops
    have hdiscards := h.discards
    rw [hnothing, SlotInv.tally_nothing rfl] at hocc hpushes hpops hdiscards
    have hlen := h.length_contents
    have hcard := congrArg Multiset.card hlive
    have hclaimed := congrArg Multiset.card hpops
    simp only [Multiset.card_add, Multiset.coe_card, add_zero] at hcard hclaimed
    exact ⟨by omega, by omega⟩

variable [DecidableEq T]

/-- An admitted capacity fits into a word. -/
theorem Admitted.lt_wordSize (h : Admitted capacity) : capacity + 1 < wordSize := by
  have hle := (admitted_iff.mp h).2.2
  unfold wordSize
  omega

/-- **Run lemma**: the conservation law holds in every reachable state. -/
theorem slotInv_reach (hcap : Admitted capacity)
    {ok : Config T (LockFreeMem T E) (LockFreeLoc T E) → T × LockFreeChoice T E → Prop} :
    ∀ s, (system T E capacity).Reach ok s → SlotInv capacity s.mem.store (hold ∘ s.loc) := by
  refine interleave_invariant ?_ ?_
  · rintro s rfl
    exact SlotInv.initial capacity
  · intro s t c m l _ hinv _ hstep
    rw [Function.comp_update]
    exact hinv.step hcap.lt_wordSize (step_slotMove (hinv.held t) hstep)

/-- **Slot conservation.**  In every reachable state of a queue of any admitted
capacity, under any threads' operations. -/
theorem slots_conserved (hcap : Admitted capacity)
    {s : Config T (LockFreeMem T E) (LockFreeLoc T E)}
    (hs : (system T E capacity).Reachable s) : SlotsConserved capacity s :=
  conserved_of_inv (slotInv_reach hcap s hs)

/-- A pushed event is in the hands of a pop, and the theorem applies. -/
theorem slots_conserved_during_pop :
    ∃ s : Config (Fin 2) (LockFreeMem (Fin 2) ℕ) (LockFreeLoc (Fin 2) ℕ),
      SlotsConserved 2 s ∧ undestroyedSlot (s.loc 1) = some 0 ∧ s.mem.store.slots 0 = some 7 := by
  obtain ⟨s, hs, hp⟩ := System.exists_reach_of_run (system (Fin 2) ℕ 2) (fun _ _ => True)
    (fun _ _ => true) (s := started (Fin 2) ℕ 2) rfl
    (List.flatten [[(0, .call (.push .tryPush 7 false))], advance 0 10,
      [(1, .call (.pop false false))], advance 1 3])
    (fun s => undestroyedSlot (s.loc 1) == some 0 && s.mem.store.slots 0 == some 7)
    (by simp) (by decide +kernel)
  simp only [Bool.and_eq_true, beq_iff_eq] at hp
  exact ⟨s, slots_conserved admitted_two hs, hp⟩

end Conservation

end LockFreeQueue

end EventDispatcher
