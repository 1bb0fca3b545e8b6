import EventDispatcher.Queue.IndexRingFifo
import EventDispatcher.Queue.LockFreeQueue
import EventDispatcher.Queue.SequentialQueue

/-!
# `bounded_lock_free_queue`, one operation at a time

The whole queue at machine-word level: the two SCQ index rings, the raw slots, the
occupancy counter, the two gate words and the two epochs.  A failed dequeue moves
tickets, a construction that throws puts its index at the end of the free list, and
neither shows: `Refines` relates every state to the bounded FIFO it stands for.

Every loop takes fuel; a result `none` stands for running out of it, for
`std::terminate`, for waiting on a gate that nobody leaves or for reading a slot
without an event.  None of these happens.
-/

namespace EventDispatcher

open Replay OperationGate

/-- The data members of `bounded_lock_free_queue`. -/
structure LockFreeWords (E : Type) where
  slots : ℕ → Option E
  available : IndexRing
  published : IndexRing
  occupied : ℕ
  producerGate : ℕ
  consumerGate : ℕ
  producerQuiesced : Bool
  dataEpoch : ℕ
  capacityEpoch : ℕ

namespace LockFreeWords

variable {E : Type}

/-- The constructor. -/
def construct (capacity : ℕ) : LockFreeWords E where
  slots := fun _ => none
  available := .initializeFull capacity
  published := .initializeEmpty capacity
  occupied := 0
  producerGate := 0
  consumerGate := 0
  producerQuiesced := false
  dataEpoch := 0
  capacityEpoch := 0

/-- `signal_data`. -/
def signalData (q : LockFreeWords E) : LockFreeWords E :=
  { q with dataEpoch := wordInc q.dataEpoch }

/-- `signal_capacity`. -/
def signalCapacity (q : LockFreeWords E) : LockFreeWords E :=
  { q with capacityEpoch := wordInc q.capacityEpoch }

/-- The `stop_callback` of `wait_push_impl`, when it is registered. -/
def wakeProducers (q : LockFreeWords E) (stop : Bool) : LockFreeWords E :=
  if stop then { q with capacityEpoch := wordInc q.capacityEpoch } else q

/-- The `stop_callback` of `wait_pop`, when it is registered. -/
def wakeConsumers (q : LockFreeWords E) (stop : Bool) : LockFreeWords E :=
  if stop then { q with dataEpoch := wordInc q.dataEpoch } else q

/-- `try_push_impl` and `try_emplace` inside the producer gate. -/
def pushInside (q : LockFreeWords E) (event : E) (throws : Bool) (fuel : ℕ) :
    Option (PushOutcome × LockFreeWords E) :=
  (q.available.tryDequeue fuel).bind fun r =>
    let q := { q with available := r.1 }
    match r.2 with
    | none => some (.returned .full, q)
    | some index =>
        if throws then
          (q.available.enqueue index fuel).map fun ring =>
            (.threw, signalCapacity { q with available := ring })
        else
          let q := { q with
            slots := Function.update q.slots index (some event)
            occupied := wordInc q.occupied }
          (q.published.enqueue index fuel).map fun ring =>
            (.returned .success, signalData { q with published := ring })

/-- `try_push_impl` and `try_emplace`. -/
def tryPush (q : LockFreeWords E) (event : E) (throws : Bool) (fuel : ℕ) :
    Option (PushOutcome × LockFreeWords E) :=
  (guardLoop q.producerGate none fun state => some state).bind fun
    | none => some (.returned .closed, q)
    | some state =>
        (pushInside { q with producerGate := wordInc state.1 } event throws fuel).map fun r =>
          (r.1, { r.2 with producerGate := wordDec r.2.producerGate })

/-- `try_pop` inside the consumer gate. -/
def popInside (q : LockFreeWords E) (fuel : ℕ) : Option (PopResult E × LockFreeWords E) :=
  (q.published.tryDequeue fuel).bind fun r =>
    let q := { q with published := r.1 }
    match r.2 with
    | none => some (if q.producerQuiesced then .closed else .empty, q)
    | some index =>
        (q.slots index).bind fun event =>
          let q := { q with
            slots := Function.update q.slots index none
            occupied := wordDec q.occupied }
          (q.available.enqueue index fuel).map fun ring =>
            (.success event, signalCapacity { q with available := ring })

/-- `try_pop`. -/
def tryPop (q : LockFreeWords E) (fuel : ℕ) : Option (PopResult E × LockFreeWords E) :=
  (guardLoop q.consumerGate none fun state => some state).bind fun
    | none => some (.closed, q)
    | some state =>
        (popInside { q with consumerGate := wordInc state.1 } fuel).map fun r =>
          (r.1, { r.2 with consumerGate := wordDec r.2.consumerGate })

/-- The loop of `wait_push_impl`.  Waiting for an epoch that has not moved
blocks. -/
def waitPushLoop (q : LockFreeWords E) (event : E) (throws stop : Bool) (fuel : ℕ) :
    ℕ → Option (SeqResult E × LockFreeWords E)
  | 0 => none
  | rounds + 1 =>
      (q.tryPush event throws fuel).bind fun r =>
        if r.1 ≠ .returned .full then some (.push r.1, r.2)
        else if stop then some (.push (.returned .stopped), r.2)
        else
          let epoch := r.2.capacityEpoch
          (r.2.tryPush event throws fuel).bind fun r =>
            if r.1 ≠ .returned .full then some (.push r.1, r.2)
            else if stop then some (.push (.returned .stopped), r.2)
            else if r.2.capacityEpoch = epoch then some (.blocks, r.2)
            else waitPushLoop r.2 event throws stop fuel rounds

/-- `wait_push_impl`.  If a stop has been requested the `stop_callback` runs at once. -/
def waitPush (q : LockFreeWords E) (event : E) (throws stop : Bool) (fuel : ℕ) :
    Option (SeqResult E × LockFreeWords E) :=
  (q.wakeProducers stop).waitPushLoop event throws stop fuel fuel

/-- `wait_push_until_impl`, up to its first sleep. -/
def waitPushUntil (q : LockFreeWords E) (event : E) (throws stop expired : Bool) (fuel : ℕ) :
    Option (SeqResult E × LockFreeWords E) :=
  (q.tryPush event throws fuel).bind fun r =>
    if r.1 ≠ .returned .full then some (.push r.1, r.2)
    else if stop then some (.push (.returned .stopped), r.2)
    else if expired then
      (r.2.tryPush event throws fuel).map fun r =>
        (.push (if r.1 = .returned .full then .returned .timeout else r.1), r.2)
    else some (.blocks, r.2)

/-- The loop of `wait_pop`. -/
def waitPopLoop (q : LockFreeWords E) (stop : Bool) (fuel : ℕ) :
    ℕ → Option (SeqResult E × LockFreeWords E)
  | 0 => none
  | rounds + 1 =>
      (q.tryPop fuel).bind fun r =>
        if r.1.status ≠ .empty then some (.pop r.1, r.2)
        else if stop then some (.pop .stopped, r.2)
        else
          let epoch := r.2.dataEpoch
          (r.2.tryPop fuel).bind fun r =>
            if r.1.status ≠ .empty then some (.pop r.1, r.2)
            else if stop then some (.pop .stopped, r.2)
            else if r.2.dataEpoch = epoch then some (.blocks, r.2)
            else waitPopLoop r.2 stop fuel rounds

/-- `wait_pop`. -/
def waitPop (q : LockFreeWords E) (stop : Bool) (fuel : ℕ) :
    Option (SeqResult E × LockFreeWords E) :=
  (q.wakeConsumers stop).waitPopLoop stop fuel fuel

/-- `close_gate`: with a guard inside it would wait for ever. -/
def closeGate (gate : ℕ) : Option ℕ :=
  if active (shut gate) = 0 then some (shut gate) else none

/-- `close_producers`. -/
def closeProducers (q : LockFreeWords E) : Option (LockFreeWords E) :=
  (closeGate q.producerGate).map fun gate =>
    signalCapacity (signalData { q with producerGate := gate, producerQuiesced := true })

/-- The loop of `close_and_discard`. -/
def discardLoop (q : LockFreeWords E) (discarded : ℕ) (fuel : ℕ) :
    ℕ → Option (ℕ × LockFreeWords E)
  | 0 => none
  | rounds + 1 =>
      (q.published.tryDequeue fuel).bind fun r =>
        let q := { q with published := r.1 }
        match r.2 with
        | none => some (discarded, q)
        | some index =>
            (q.slots index).bind fun _ =>
              let q := { q with
                slots := Function.update q.slots index none
                occupied := wordDec q.occupied }
              (q.available.enqueue index fuel).bind fun ring =>
                discardLoop { q with available := ring } (discarded + 1) fuel rounds

/-- `close_and_discard`. -/
def closeAndDiscard (q : LockFreeWords E) (fuel : ℕ) : Option (ℕ × LockFreeWords E) :=
  q.closeProducers.bind fun q =>
    (closeGate q.consumerGate).bind fun gate =>
      (discardLoop { q with consumerGate := gate } 0 fuel fuel).map fun r =>
        (r.1, signalCapacity (signalData r.2))

/-- `bounded_lock_free_queue`, one operation at a time. -/
def exec (fuel : ℕ) (q : LockFreeWords E) : SeqOp E → Option (SeqResult E × LockFreeWords E)
  | .push .tryPush event throws _ _ | .push .tryEmplace event throws _ _ =>
      (q.tryPush event throws fuel).map fun r => (.push r.1, r.2)
  | .push .waitPush event throws stop _ => q.waitPush event throws stop fuel
  | .push .waitPushUntil event throws stop expired =>
      q.waitPushUntil event throws stop expired fuel
  | .pop false _ => (q.tryPop fuel).map fun r => (.pop r.1, r.2)
  | .pop true stop => q.waitPop stop fuel
  | .close => q.closeProducers.map fun q => (.done, q)
  | .closeAndDiscard => (q.closeAndDiscard fuel).map fun r => (.discarded r.1, r.2)
  | .size => some (.size q.occupied, q)
  | .closed => some (.closed (isClosed q.producerGate), q)

/-- The published ring lists the slots of `items` in order, the available ring the
other slots. -/
structure Stores (k : ℕ) (q : LockFreeWords E) (items : List E) : Prop where
  rings : ∃ hfree free hused used,
    IndexRing.Represents k hfree free q.available ∧
    IndexRing.Represents k hused used q.published ∧
    (free ++ used).Perm (List.range (2 ^ k)) ∧
    used.map q.slots = items.map some
  occupied : q.occupied = items.length

/-- What an operation inside the gates leaves alone. -/
def SameGates (q q' : LockFreeWords E) : Prop :=
  q'.producerGate = q.producerGate ∧ q'.consumerGate = q.consumerGate ∧
    q'.producerQuiesced = q.producerQuiesced

/-- Nor does a failed attempt signal anything. -/
def SameEpochs (q q' : LockFreeWords E) : Prop :=
  q'.dataEpoch = q.dataEpoch ∧ q'.capacityEpoch = q.capacityEpoch

section Inside

variable {k : ℕ} {q : LockFreeWords E} {items : List E}

/-- Moving an index to the end of a list of the same indices. -/
theorem perm_last {i : ℕ} {xs ys all : List ℕ} (h : (i :: xs ++ ys).Perm all) :
    (xs ++ (ys ++ [i])).Perm all := by
  refine List.Perm.trans ?_ h
  rw [← List.append_assoc]
  exact List.perm_append_singleton i (xs ++ ys)

/-- Free and used indices are all the indices. -/
theorem length_of_perm {free used : List ℕ} (h : (free ++ used).Perm (List.range (2 ^ k))) :
    free.length + used.length = 2 ^ k := by
  have hlen := h.length_eq
  simpa using hlen

/-- An index in the first place occurs nowhere else. -/
theorem not_mem_of_perm {i : ℕ} {xs : List ℕ} (h : (i :: xs).Perm (List.range (2 ^ k))) :
    i < 2 ^ k ∧ i ∉ xs := by
  have hnodup : (i :: xs).Nodup := h.nodup_iff.mpr List.nodup_range
  have hmem := h.mem_iff.mp (List.mem_cons_self (a := i) (l := xs))
  exact ⟨List.mem_range.mp hmem, (List.nodup_cons.mp hnodup).1⟩

/-- A slot that is not listed does not matter. -/
theorem map_update {i : ℕ} {xs : List ℕ} (hi : i ∉ xs) (slots : ℕ → Option E) (slot : Option E) :
    xs.map (Function.update slots i slot) = xs.map slots := by
  apply List.map_congr_left
  intro j hj
  apply Function.update_of_ne
  rintro rfl
  exact hi hj

/-- No more is stored than there are slots. -/
theorem Stores.length_le (h : Stores k q items) : items.length ≤ 2 ^ k := by
  obtain ⟨_, free, _, used, _, _, hperm, hslots⟩ := h.rings
  have hlen := length_of_perm hperm
  have hused := congrArg List.length hslots
  simp only [List.length_map] at hused
  omega

/-- A push attempt on a full queue. -/
theorem pushInside_full (hk : k ≤ 61) (h : Stores k q items) (hfull : items.length = 2 ^ k)
    (event : E) (throws : Bool) (fuel : ℕ) :
    ∃ q', q.pushInside event throws (fuel + 1) = some (.returned .full, q') ∧ Stores k q' items ∧
      SameGates q q' ∧ SameEpochs q q' := by
  obtain ⟨hfree, free, hused, used, havail, hpub, hperm, hslots⟩ := h.rings
  have hlen := length_of_perm hperm
  have hcount := congrArg List.length hslots
  simp only [List.length_map] at hcount
  obtain rfl : free = [] := List.eq_nil_of_length_eq_zero (by omega)
  obtain ⟨ring, h', hdequeue, hring⟩ := havail.tryDequeue_nil hk fuel
  refine ⟨{ q with available := ring }, ?_, ⟨⟨h', [], hused, used, hring, hpub, hperm, hslots⟩,
    h.occupied⟩, ⟨rfl, rfl, rfl⟩, ⟨rfl, rfl⟩⟩
  rw [pushInside, hdequeue]
  rfl

/-- A push attempt that throws puts its index back. -/
theorem pushInside_threw (hk : k ≤ 61) (h : Stores k q items) (hroom : items.length ≠ 2 ^ k)
    (event : E) (fuel : ℕ) :
    ∃ q', q.pushInside event true (fuel + 1) = some (.threw, q') ∧ Stores k q' items ∧
      SameGates q q' := by
  obtain ⟨hfree, free, hused, used, havail, hpub, hperm, hslots⟩ := h.rings
  have hlen := length_of_perm hperm
  have hcount := congrArg List.length hslots
  simp only [List.length_map] at hcount
  cases free with
  | nil => simp at hlen; omega
  | cons i rest =>
      obtain ⟨ring, hdequeue, hring⟩ := havail.tryDequeue_cons hk fuel
      have hi := not_mem_of_perm hperm
      obtain ⟨ring', henqueue, hring'⟩ := hring.enqueue hk hi.1
        (by simp at hlen; omega) fuel
      refine ⟨signalCapacity { q with available := ring' }, ?_,
        ⟨⟨hfree + 1, rest ++ [i], hused, used, hring', hpub, ?_, hslots⟩, h.occupied⟩,
        ⟨rfl, rfl, rfl⟩⟩
      · rw [pushInside, hdequeue]
        simp only [Option.bind_some, if_true, henqueue, Option.map_some]
      · refine List.Perm.trans ?_ hperm
        rw [List.append_assoc]
        exact List.perm_middle

/-- A push attempt that succeeds. -/
theorem pushInside_success (hk : k ≤ 61) (h : Stores k q items) (hroom : items.length ≠ 2 ^ k)
    (event : E) (fuel : ℕ) :
    ∃ q', q.pushInside event false (fuel + 1) = some (.returned .success, q') ∧
      Stores k q' (items ++ [event]) ∧ SameGates q q' := by
  obtain ⟨hfree, free, hused, used, havail, hpub, hperm, hslots⟩ := h.rings
  have hlen := length_of_perm hperm
  have hcount := congrArg List.length hslots
  simp only [List.length_map] at hcount
  cases free with
  | nil => simp at hlen; omega
  | cons i rest =>
      obtain ⟨ring, hdequeue, hring⟩ := havail.tryDequeue_cons hk fuel
      have hi := not_mem_of_perm hperm
      have hnot : i ∉ used := fun hmem => hi.2 (List.mem_append_right rest hmem)
      obtain ⟨ring', henqueue, hring'⟩ := hpub.enqueue hk hi.1 (by simp at hlen; omega) fuel
      refine ⟨signalData { q with
          available := ring
          slots := Function.update q.slots i (some event)
          occupied := wordInc q.occupied
          published := ring' }, ?_,
        ⟨⟨hfree + 1, rest, hused, used ++ [i], hring, hring', perm_last hperm, ?_⟩, ?_⟩,
        ⟨rfl, rfl, rfl⟩⟩
      · rw [pushInside, hdequeue]
        simp only [Option.bind_some, henqueue, Option.map_some, Bool.false_eq_true, if_false]
      · simp only [signalData, List.map_append, map_update hnot, hslots, List.map_cons,
          List.map_nil, Function.update_self]
      · have hle := h.length_le
        have hring := IndexRing.ring_lt hk
        have hpow : (2 : ℕ) ^ (k + 2) = 4 * 2 ^ k := by ring
        show wordInc q.occupied = _
        rw [h.occupied, wordInc_of_lt (by omega), List.length_append, List.length_singleton]

/-- Taking the oldest index out of the published ring and freeing its slot, as both
`try_pop` and `close_and_discard` do. -/
theorem Stores.takeOldest (hk : k ≤ 61) {event : E} (h : Stores k q (event :: items)) (fuel : ℕ) :
    ∃ ring index ring', q.published.tryDequeue (fuel + 1) = some (ring, some index) ∧
      q.slots index = some event ∧ q.available.enqueue index (fuel + 1) = some ring' ∧
      Stores k { q with
        published := ring
        slots := Function.update q.slots index none
        occupied := wordDec q.occupied
        available := ring' } items := by
  obtain ⟨hfree, free, hused, used, havail, hpub, hperm, hslots⟩ := h.rings
  have hlen := length_of_perm hperm
  cases used with
  | nil => simp at hslots
  | cons i rest =>
      obtain ⟨ring, hdequeue, hring⟩ := hpub.tryDequeue_cons hk fuel
      have hfirst : ((i :: rest) ++ free).Perm (List.range (2 ^ k)) :=
        List.perm_append_comm.trans hperm
      have hi := not_mem_of_perm hfirst
      have hnot : i ∉ rest := fun hmem => hi.2 (List.mem_append_left free hmem)
      obtain ⟨ring', henqueue, hring'⟩ := havail.enqueue hk hi.1 (by simp at hlen; omega) fuel
      simp only [List.map_cons, List.cons.injEq] at hslots
      refine ⟨ring, i, ring', hdequeue, hslots.1, henqueue,
        ⟨hfree, free ++ [i], hused + 1, rest, hring', hring, ?_, ?_⟩, ?_⟩
      · refine List.Perm.trans ?_ hperm
        rw [List.append_assoc]
        rfl
      · simp only [map_update hnot, hslots.2]
      · show wordDec q.occupied = _
        rw [h.occupied, List.length_cons, wordDec_succ]

/-- A pop attempt on a non-empty queue. -/
theorem popInside_cons (hk : k ≤ 61) {event : E} (h : Stores k q (event :: items)) (fuel : ℕ) :
    ∃ q', q.popInside (fuel + 1) = some (.success event, q') ∧ Stores k q' items ∧
      SameGates q q' := by
  obtain ⟨ring, index, ring', hdequeue, hslot, henqueue, hstores⟩ := h.takeOldest hk fuel
  refine ⟨signalCapacity { q with
      published := ring
      slots := Function.update q.slots index none
      occupied := wordDec q.occupied
      available := ring' }, ?_, ⟨hstores.rings, hstores.occupied⟩, ⟨rfl, rfl, rfl⟩⟩
  rw [popInside, hdequeue]
  simp only [Option.bind_some, hslot, henqueue, Option.map_some]

/-- A look into the empty published ring. -/
theorem Stores.tryDequeue_nil (hk : k ≤ 61) (h : Stores k q []) (fuel : ℕ) :
    ∃ ring, q.published.tryDequeue (fuel + 1) = some (ring, none) ∧
      Stores k { q with published := ring } [] := by
  obtain ⟨hfree, free, hused, used, havail, hpub, hperm, hslots⟩ := h.rings
  obtain rfl : used = [] := by simpa using hslots
  obtain ⟨ring, h', hdequeue, hring⟩ := hpub.tryDequeue_nil hk fuel
  exact ⟨ring, hdequeue, ⟨hfree, free, h', [], havail, hring, hperm, hslots⟩, h.occupied⟩

/-- A pop attempt on an empty queue. -/
theorem popInside_nil (hk : k ≤ 61) (h : Stores k q []) (fuel : ℕ) :
    ∃ q', q.popInside (fuel + 1) =
        some (if q.producerQuiesced then .closed else .empty, q') ∧ Stores k q' [] ∧
      SameGates q q' ∧ SameEpochs q q' := by
  obtain ⟨ring, hdequeue, hstores⟩ := h.tryDequeue_nil hk fuel
  refine ⟨{ q with published := ring }, ?_, hstores, ⟨rfl, rfl, rfl⟩, ⟨rfl, rfl⟩⟩
  rw [popInside, hdequeue]
  rfl

/-- The loop of `close_and_discard` counts and frees every item. -/
theorem discardLoop_eq (hk : k ≤ 61) (fuel : ℕ) :
    ∀ (rounds discarded : ℕ) (q : LockFreeWords E) (items : List E), Stores k q items →
      items.length < rounds →
      ∃ q', q.discardLoop discarded (fuel + 1) rounds = some (discarded + items.length, q') ∧
        Stores k q' [] ∧ SameGates q q' := by
  intro rounds
  induction rounds with
  | zero =>
      intro discarded q items h hlt
      omega
  | succ rounds ih =>
      intro discarded q items h hlt
      cases items with
      | nil =>
          obtain ⟨ring, hdequeue, hstores⟩ := h.tryDequeue_nil hk fuel
          refine ⟨{ q with published := ring }, ?_, hstores, ⟨rfl, rfl, rfl⟩⟩
          rw [discardLoop, hdequeue]
          rfl
      | cons event rest =>
          obtain ⟨ring, index, ring', hdequeue, hslot, henqueue, hstores⟩ := h.takeOldest hk fuel
          obtain ⟨q', hloop, hq', hsame⟩ := ih (discarded + 1) _ rest hstores (by simpa using hlt)
          refine ⟨q', ?_, hq', hsame⟩
          rw [discardLoop, hdequeue]
          simp only [Option.bind_some, hslot, henqueue, hloop, List.length_cons]
          congr 2
          omega

end Inside

section Gates

/-- The gates of a queue in which no operation is running. -/
theorem guardLoop_open {R : Type} (refused : R) (exchange : OpenState → R) :
    ∃ state : OpenState, state.1 = 0 ∧ guardLoop (word false 0) refused exchange =
      some (exchange state) := by
  have hnext : guardNext (word false 0) = .tryEnter := by decide
  refine ⟨⟨word false 0, hnext⟩, rfl, ?_⟩
  rw [guardLoop, dif_pos hnext]

/-- The gate of a closed queue refuses. -/
theorem guardLoop_closed {R : Type} (refused : R) (exchange : OpenState → R) :
    guardLoop (word true 0) refused exchange = some refused := by
  have hclosed : isClosed (word true 0) = true := isClosed_word true (Nat.zero_le _)
  have hnext : guardNext (word true 0) ≠ .tryEnter := by
    rw [guardNext, if_pos hclosed]
    simp
  rw [guardLoop, dif_neg hnext, if_pos hclosed]

/-- A guard that leaves takes back what it added. -/
theorem wordDec_wordInc_zero : wordDec (wordInc 0) = 0 := by
  have hone : 0 + 1 < wordSize := by
    unfold wordSize
    decide
  rw [wordInc_of_lt hone, wordDec_succ]

/-- `close_gate` of a queue in which no operation is running. -/
theorem closeGate_word (closed : Bool) : closeGate (word closed 0) = some (word true 0) := by
  have hshut := shut_word closed (Nat.zero_le activeMask)
  have hactive : active (word true 0) = 0 := active_word true (Nat.zero_le _)
  rw [closeGate, hshut, if_pos hactive]

end Gates

/-- The queue stands for a bounded FIFO. -/
structure Refines (k : ℕ) (q : LockFreeWords E) (a : BoundedFifo E) : Prop where
  stores : Stores k q a.items
  producers : q.producerGate = word a.closed 0
  consumers : ∃ discarded, q.consumerGate = word discarded 0 ∧
    (discarded = true → a.closed = true ∧ a.items = [])
  quiesced : q.producerQuiesced = a.closed

namespace Refines

variable {k : ℕ} {q : LockFreeWords E} {a : BoundedFifo E}

/-- The constructor makes an empty queue. -/
theorem construct (hk : k ≤ 61) : Refines k (construct (2 ^ k) : LockFreeWords E) ⟨[], false⟩ where
  stores :=
    ⟨⟨_, _, _, _, .initializeFull hk, .initializeEmpty hk, by simp, rfl⟩, rfl⟩
  producers := rfl
  consumers := ⟨false, rfl, by simp⟩
  quiesced := rfl

/-- An operation that entered and left a gate, and the items it left behind. -/
theorem of_stores (h : Refines k q a) {q' : LockFreeWords E} {items : List E}
    (hstores : Stores k q' items) (hproducer : q'.producerGate = q.producerGate)
    (hconsumer : q'.consumerGate = q.consumerGate)
    (hquiesced : q'.producerQuiesced = q.producerQuiesced)
    (hitems : a.items = [] → a.closed = true → items = []) :
    Refines k q' { a with items := items } where
  stores := hstores
  producers := hproducer.trans h.producers
  consumers := by
    obtain ⟨discarded, hgate, himp⟩ := h.consumers
    refine ⟨discarded, hconsumer.trans hgate, ?_⟩
    intro hd
    exact ⟨(himp hd).1, hitems (himp hd).2 (himp hd).1⟩
  quiesced := hquiesced.trans h.quiesced

/-- An attempt on a closed queue. -/
theorem tryPush_closed (h : Refines k q a) (hclosed : a.closed = true) (event : E)
    (throws : Bool) (fuel : ℕ) : q.tryPush event throws fuel = some (.returned .closed, q) := by
  rw [tryPush, h.producers, hclosed, guardLoop_closed]
  rfl

/-- An attempt in an open queue goes through the producer gate and back. -/
theorem tryPush_open (h : Refines k q a) (hopen : a.closed = false) {event : E} {throws : Bool}
    {fuel : ℕ} {outcome : PushOutcome} (items : List E)
    (hinside : ∀ q₀ : LockFreeWords E, Stores k q₀ a.items → ∃ q', q₀.pushInside event throws fuel =
      some (outcome, q') ∧ Stores k q' items ∧ SameGates q₀ q' ∧
      (outcome = .returned .full → SameEpochs q₀ q')) :
    ∃ q', q.tryPush event throws fuel = some (outcome, q') ∧ Refines k q' { a with items := items } ∧
      (outcome = .returned .full → SameEpochs q q') := by
  obtain ⟨state, hstate, hguard⟩ := guardLoop_open none fun state : OpenState => some state
  obtain ⟨q', hpush, hstores, hgates, hepochs⟩ :=
    hinside { q with producerGate := wordInc state.1 } ⟨h.stores.rings, h.stores.occupied⟩
  have hleave : wordDec q'.producerGate = q.producerGate := by
    rw [hgates.1, h.producers, hopen]
    simp only [hstate, wordDec_wordInc_zero]
    rfl
  refine ⟨{ q' with producerGate := wordDec q'.producerGate }, ?_, ?_, hepochs⟩
  · rw [tryPush, h.producers, hopen, hguard]
    simp only [Option.bind_some, hpush, Option.map_some]
  · exact h.of_stores ⟨hstores.rings, hstores.occupied⟩ hleave hgates.2.1 hgates.2.2
      (by simp [hopen])

/-- An attempt on a full queue. -/
theorem tryPush_full (hk : k ≤ 61) (h : Refines k q a) (hopen : a.closed = false)
    (hfull : a.items.length = 2 ^ k) (event : E) (throws : Bool) (fuel : ℕ) :
    ∃ q', q.tryPush event throws (fuel + 1) = some (.returned .full, q') ∧ Refines k q' a ∧
      SameEpochs q q' := by
  obtain ⟨q', hpush, hrefines, hepochs⟩ :=
    h.tryPush_open hopen a.items fun q₀ hstores => by
      obtain ⟨q', hpush, hstores', hgates, hepochs⟩ :=
        pushInside_full hk hstores hfull event throws fuel
      exact ⟨q', hpush, hstores', hgates, fun _ => hepochs⟩
  exact ⟨q', hpush, hrefines, hepochs rfl⟩

/-- An attempt that finds room decides the push. -/
theorem tryPush_room (hk : k ≤ 61) (h : Refines k q a) (hopen : a.closed = false)
    (hroom : a.items.length ≠ 2 ^ k) (event : E) (throws : Bool) (fuel : ℕ) :
    ∃ q', q.tryPush event throws (fuel + 1) =
        some (if throws then .threw else .returned .success, q') ∧
      Refines k q' (if throws then a else { a with items := a.items ++ [event] }) := by
  cases throws with
  | true =>
      obtain ⟨q', hpush, hrefines, _⟩ :=
        h.tryPush_open hopen a.items fun q₀ hstores => by
          obtain ⟨q', hpush, hstores', hgates⟩ := pushInside_threw hk hstores hroom event fuel
          exact ⟨q', hpush, hstores', hgates, by simp⟩
      exact ⟨q', hpush, hrefines⟩
  | false =>
      obtain ⟨q', hpush, hrefines, _⟩ :=
        h.tryPush_open hopen (a.items ++ [event]) fun q₀ hstores => by
          obtain ⟨q', hpush, hstores', hgates⟩ := pushInside_success hk hstores hroom event fuel
          exact ⟨q', hpush, hstores', hgates, by simp⟩
      exact ⟨q', hpush, hrefines⟩

/-- An attempt on a queue that is closed or has room decides the push, whatever its kind. -/
theorem tryPush_decided (hk : k ≤ 61) (h : Refines k q a)
    (hdecided : ¬ (a.closed = false ∧ a.items.length = 2 ^ k)) (event : E) (throws : Bool)
    (fuel : ℕ) :
    ∃ outcome q' a', q.tryPush event throws (fuel + 1) = some (outcome, q') ∧ Refines k q' a' ∧
      outcome ≠ .returned .full ∧ ∀ kind stop expired,
        a.exec (2 ^ k) (.push kind event throws stop expired) = (.push outcome, a') := by
  by_cases hclosed : a.closed = true
  · refine ⟨_, q, a, h.tryPush_closed hclosed event throws (fuel + 1), h, by simp, ?_⟩
    intro kind stop expired
    simp [BoundedFifo.exec, hclosed]
  · rw [Bool.not_eq_true] at hclosed
    have hroom : a.items.length ≠ 2 ^ k := fun hfull => hdecided ⟨hclosed, hfull⟩
    obtain ⟨q', hpush, hq'⟩ := h.tryPush_room hk hclosed hroom event throws fuel
    refine ⟨_, q', _, hpush, hq', ?_, ?_⟩
    · cases throws <;> simp
    · intro kind stop expired
      cases throws <;> simp [BoundedFifo.exec, hclosed, hroom]

/-- Two attempts on a full queue, with nothing signalled between them. -/
theorem tryPush_full_twice (hk : k ≤ 61) (h : Refines k q a)
    (hfull : a.closed = false ∧ a.items.length = 2 ^ k) (event : E) (throws : Bool) (fuel : ℕ) :
    ∃ q₁ q₂, q.tryPush event throws (fuel + 1) = some (.returned .full, q₁) ∧ Refines k q₁ a ∧
      q₁.tryPush event throws (fuel + 1) = some (.returned .full, q₂) ∧ Refines k q₂ a ∧
      SameEpochs q₁ q₂ := by
  obtain ⟨q₁, hfirst, hq₁, _⟩ := h.tryPush_full hk hfull.1 hfull.2 event throws fuel
  obtain ⟨q₂, hsecond, hq₂, hepochs⟩ := hq₁.tryPush_full hk hfull.1 hfull.2 event throws fuel
  exact ⟨q₁, q₂, hfirst, hq₁, hsecond, hq₂, hepochs⟩

/-- An epoch is no part of what the queue stands for. -/
theorem wakeProducers (h : Refines k q a) (stop : Bool) : Refines k (q.wakeProducers stop) a := by
  cases stop with
  | false => exact h
  | true =>
      exact ⟨⟨h.stores.rings, h.stores.occupied⟩, h.producers, h.consumers, h.quiesced⟩

/-- The same for the other epoch. -/
theorem wakeConsumers (h : Refines k q a) (stop : Bool) : Refines k (q.wakeConsumers stop) a := by
  cases stop with
  | false => exact h
  | true =>
      exact ⟨⟨h.stores.rings, h.stores.occupied⟩, h.producers, h.consumers, h.quiesced⟩

/-- The loop of `wait_push_impl` ends in its first round. -/
theorem waitPushLoop (hk : k ≤ 61) (h : Refines k q a) (event : E) (throws stop expired : Bool)
    (fuel rounds : ℕ) :
    ∃ q', q.waitPushLoop event throws stop (fuel + 1) (rounds + 1) =
        some ((a.exec (2 ^ k) (.push .waitPush event throws stop expired)).1, q') ∧
      Refines k q' (a.exec (2 ^ k) (.push .waitPush event throws stop expired)).2 := by
  by_cases hfull : a.closed = false ∧ a.items.length = 2 ^ k
  · obtain ⟨q₁, q₂, hfirst, hq₁, hsecond, hq₂, hepochs⟩ :=
      h.tryPush_full_twice hk hfull event throws fuel
    cases stop with
    | true =>
        refine ⟨q₁, ?_, by simpa [BoundedFifo.exec, hfull] using hq₁⟩
        simp [LockFreeWords.waitPushLoop, hfirst, fullAnswer, BoundedFifo.exec, hfull]
    | false =>
        refine ⟨q₂, ?_, by simpa [BoundedFifo.exec, hfull] using hq₂⟩
        simp [LockFreeWords.waitPushLoop, hfirst, hsecond, fullAnswer, hepochs.2, BoundedFifo.exec,
          hfull]
  · obtain ⟨outcome, q', a', hpush, hq', hne, hspec⟩ := h.tryPush_decided hk hfull event throws fuel
    rw [hspec]
    exact ⟨q', by simp [LockFreeWords.waitPushLoop, hpush, hne], hq'⟩

/-- The four pushes agree with the specification. -/
theorem exec_push (hk : k ≤ 61) (h : Refines k q a) (kind : PushKind) (event : E)
    (throws stop expired : Bool) (fuel : ℕ) :
    ∃ q', q.exec (fuel + 1) (.push kind event throws stop expired) =
        some ((a.exec (2 ^ k) (.push kind event throws stop expired)).1, q') ∧
      Refines k q' (a.exec (2 ^ k) (.push kind event throws stop expired)).2 := by
  cases kind with
  | waitPush =>
      exact (h.wakeProducers stop).waitPushLoop hk event throws stop expired fuel fuel
  | _ =>
      by_cases hfull : a.closed = false ∧ a.items.length = 2 ^ k
      · obtain ⟨q₁, q₂, hfirst, hq₁, hsecond, hq₂, _⟩ :=
          h.tryPush_full_twice hk hfull event throws fuel
        cases stop <;> cases expired <;>
          simp [exec, waitPushUntil, hfirst, hsecond, fullAnswer, BoundedFifo.exec, hfull, hq₁, hq₂]
      · obtain ⟨outcome, q', a', hpush, hq', hne, hspec⟩ :=
          h.tryPush_decided hk hfull event throws fuel
        rw [hspec]
        exact ⟨q', by simp [exec, waitPushUntil, hpush, hne], hq'⟩

/-- A pop attempt agrees with the specification. -/
theorem tryPop_eq (hk : k ≤ 61) (h : Refines k q a) (fuel : ℕ) :
    (∃ event rest q', a.items = event :: rest ∧ q.tryPop (fuel + 1) = some (.success event, q') ∧
      Refines k q' { a with items := rest }) ∨
    (a.items = [] ∧ ∃ q', q.tryPop (fuel + 1) = some (if a.closed then .closed else .empty, q') ∧
      Refines k q' a ∧ SameEpochs q q') := by
  obtain ⟨discarded, hgate, himp⟩ := h.consumers
  cases discarded with
  | true =>
      obtain ⟨hclosed, hitems⟩ := himp rfl
      refine .inr ⟨hitems, q, ?_, h, ⟨rfl, rfl⟩⟩
      rw [tryPop, hgate, guardLoop_closed, hclosed]
      rfl
  | false =>
      obtain ⟨state, hstate, hguard⟩ := guardLoop_open none fun state : OpenState => some state
      have hstores : Stores k { q with consumerGate := wordInc state.1 } a.items :=
        ⟨h.stores.rings, h.stores.occupied⟩
      have hleave : ∀ q' : LockFreeWords E,
          SameGates { q with consumerGate := wordInc state.1 } q' →
          wordDec q'.consumerGate = q.consumerGate := by
        intro q' hgates
        rw [hgates.2.1, hgate]
        simp only [hstate, wordDec_wordInc_zero]
        rfl
      cases hitems : a.items with
      | cons event rest =>
          rw [hitems] at hstores
          obtain ⟨q', hpop, hstores', hgates⟩ := popInside_cons hk hstores fuel
          refine .inl ⟨event, rest, { q' with consumerGate := wordDec q'.consumerGate }, rfl, ?_, ?_⟩
          · rw [tryPop, hgate, hguard]
            simp only [Option.bind_some, hpop, Option.map_some]
          · exact h.of_stores ⟨hstores'.rings, hstores'.occupied⟩ hgates.1 (hleave q' hgates)
              hgates.2.2 (by simp [hitems])
      | nil =>
          rw [hitems] at hstores
          obtain ⟨q', hpop, hstores', hgates, hepochs⟩ := popInside_nil hk hstores fuel
          refine .inr ⟨rfl, { q' with consumerGate := wordDec q'.consumerGate }, ?_, ?_, hepochs⟩
          · rw [tryPop, hgate, hguard]
            simp only [Option.bind_some, hpop, Option.map_some]
            rw [h.quiesced]
          · have hrefines : Refines k { q' with consumerGate := wordDec q'.consumerGate }
                { a with items := [] } :=
              h.of_stores ⟨hstores'.rings, hstores'.occupied⟩ hgates.1 (hleave q' hgates)
                hgates.2.2 (by simp)
            rwa [← hitems] at hrefines

/-- The loop of `wait_pop` ends in its first round. -/
theorem waitPopLoop (hk : k ≤ 61) (h : Refines k q a) (stop : Bool) (fuel rounds : ℕ) :
    ∃ q', q.waitPopLoop stop (fuel + 1) (rounds + 1) =
        some ((a.exec (2 ^ k) (.pop true stop)).1, q') ∧
      Refines k q' (a.exec (2 ^ k) (.pop true stop)).2 := by
  rcases h.tryPop_eq hk fuel with ⟨event, rest, q', hitems, hpop, hq'⟩ | ⟨hitems, q₁, hpop, hq₁, _⟩
  · refine ⟨q', ?_, by simpa [BoundedFifo.exec, hitems] using hq'⟩
    simp [LockFreeWords.waitPopLoop, hpop, BoundedFifo.exec, hitems, PopResult.status]
  · cases hclosed : a.closed with
    | true =>
        refine ⟨q₁, ?_, by simpa [BoundedFifo.exec, hitems, hclosed] using hq₁⟩
        simp [LockFreeWords.waitPopLoop, hpop, BoundedFifo.exec, hitems, hclosed, PopResult.status]
    | false =>
        rcases hq₁.tryPop_eq hk fuel with ⟨_, _, _, hne, _⟩ | ⟨_, q₂, hpop₂, hq₂, hepochs⟩
        · rw [hitems] at hne
          cases hne
        · have hspec : a.exec (2 ^ k) (.pop true stop) = (emptyAnswer true stop, a) := by
            simp [BoundedFifo.exec, hitems, hclosed]
          rw [hspec]
          rw [hclosed] at hpop hpop₂
          cases stop with
          | true =>
              refine ⟨q₁, ?_, hq₁⟩
              simp [LockFreeWords.waitPopLoop, hpop, emptyAnswer, PopResult.status]
          | false =>
              refine ⟨q₂, ?_, hq₂⟩
              simp [LockFreeWords.waitPopLoop, hpop, hpop₂, emptyAnswer, PopResult.status, hepochs.1]

/-- Both pops agree with the specification. -/
theorem exec_pop (hk : k ≤ 61) (h : Refines k q a) (wait stop : Bool) (fuel : ℕ) :
    ∃ q', q.exec (fuel + 1) (.pop wait stop) = some ((a.exec (2 ^ k) (.pop wait stop)).1, q') ∧
      Refines k q' (a.exec (2 ^ k) (.pop wait stop)).2 := by
  cases wait with
  | true => exact (h.wakeConsumers stop).waitPopLoop hk stop fuel fuel
  | false =>
      rcases h.tryPop_eq hk fuel with ⟨event, rest, q', hitems, hpop, hq'⟩ |
        ⟨hitems, q', hpop, hq', _⟩
      · refine ⟨q', ?_, by simpa [BoundedFifo.exec, hitems] using hq'⟩
        simp [exec, hpop, BoundedFifo.exec, hitems]
      · cases hclosed : a.closed with
        | true | false =>
            refine ⟨q', ?_, by simpa [BoundedFifo.exec, hitems, hclosed] using hq'⟩
            simp [exec, hpop, BoundedFifo.exec, hitems, hclosed, emptyAnswer]

/-- `close_producers` closes the queue and keeps its items. -/
theorem closeProducers (h : Refines k q a) :
    ∃ q', q.closeProducers = some q' ∧ Refines k q' { a with closed := true } := by
  refine ⟨_, by rw [LockFreeWords.closeProducers, h.producers, closeGate_word]; rfl, ?_⟩
  obtain ⟨discarded, hgate, himp⟩ := h.consumers
  exact
    { stores := ⟨h.stores.rings, h.stores.occupied⟩
      producers := rfl
      consumers := ⟨discarded, hgate, fun hd => ⟨rfl, (himp hd).2⟩⟩
      quiesced := rfl }

/-- `close_and_discard` empties the queue and counts its items. -/
theorem closeAndDiscard (hk : k ≤ 61) (h : Refines k q a) {fuel : ℕ} (hfuel : 2 ^ k ≤ fuel) :
    ∃ q', q.closeAndDiscard (fuel + 1) = some (a.items.length, q') ∧ Refines k q' ⟨[], true⟩ := by
  obtain ⟨q₁, hclose, hq₁⟩ := h.closeProducers
  obtain ⟨discarded, hgate, _⟩ := hq₁.consumers
  have hle := hq₁.stores.length_le
  obtain ⟨q₂, hloop, hstores, hgates⟩ := discardLoop_eq hk fuel (fuel + 1) 0
    { q₁ with consumerGate := word true 0 } a.items ⟨hq₁.stores.rings, hq₁.stores.occupied⟩
    (by simp only at hle; omega)
  refine ⟨signalCapacity (signalData q₂), ?_, ?_⟩
  · rw [LockFreeWords.closeAndDiscard, hclose, Option.bind_some, hgate, closeGate_word,
      Option.bind_some, hloop, Option.map_some, Nat.zero_add]
  · exact
      { stores := ⟨hstores.rings, hstores.occupied⟩
        producers := hgates.1.trans hq₁.producers
        consumers := ⟨true, hgates.2.1, fun _ => ⟨rfl, rfl⟩⟩
        quiesced := hgates.2.2.trans hq₁.quiesced }

end Refines

/-- **`bounded_lock_free_queue` refines the bounded FIFO**, with one round of fuel
more than there are slots. -/
theorem simulates {k : ℕ} (hk : k ≤ 61) {fuel : ℕ} (hfuel : 2 ^ k ≤ fuel) :
    Simulates (Refines k) (exec (E := E) (fuel + 1)) (BoundedFifo.exec (2 ^ k)) := by
  intro q a op h
  cases op with
  | push kind event throws stop expired => exact h.exec_push hk kind event throws stop expired fuel
  | pop wait stop => exact h.exec_pop hk wait stop fuel
  | close =>
      obtain ⟨q', hclose, hq'⟩ := h.closeProducers
      exact ⟨q', by rw [exec, hclose]; rfl, hq'⟩
  | closeAndDiscard =>
      obtain ⟨q', hdiscard, hq'⟩ := h.closeAndDiscard hk hfuel
      exact ⟨q', by rw [exec, hdiscard]; rfl, hq'⟩
  | size => exact ⟨q, by rw [exec, h.stores.occupied]; rfl, h⟩
  | closed =>
      refine ⟨q, ?_, h⟩
      rw [exec, h.producers, isClosed_word a.closed (Nat.zero_le _)]
      rfl

/-- `validate_capacity` admits powers of two up to `2 ^ 61`. -/
theorem capacity_le {k : ℕ} (h : 2 ^ k ≤ (2 ^ 63 - 1) / 3) : k ≤ 61 := by
  by_contra hlt
  have hpow : 2 ^ 62 ≤ 2 ^ k := Nat.pow_le_pow_right (by decide) (by omega)
  omega

/-- **The lock-free policy refines the mutex policy.**  For every admitted capacity
and every sequence of operations, with enough fuel for the loops, both policies give
the same answers, and both give one to every operation. -/
theorem same_answers {capacity : ℕ} (hcap : LockFreeQueue.Admitted capacity) {fuel : ℕ}
    (hfuel : capacity < fuel) (ops : List (SeqOp E)) :
    ∃ answers, replay MutexQueue.exec (MutexQueue.empty capacity) ops = some answers ∧
      replay (exec fuel) (construct capacity) ops = some answers := by
  obtain ⟨hpos, ⟨k, rfl⟩, hle⟩ := LockFreeQueue.admitted_iff.mp hcap
  have hk := capacity_le hle
  have hmutex : MutexQueue.Refines (2 ^ k) (MutexQueue.empty (2 ^ k) : MutexQueue E) ⟨[], false⟩ :=
    ⟨MutexQueue.represents_empty (by omega), rfl, by simp [MutexQueue.empty]⟩
  obtain ⟨rounds, rfl⟩ : ∃ rounds, fuel = rounds + 1 := ⟨fuel - 1, by omega⟩
  exact ⟨_, (MutexQueue.simulates (2 ^ k)).replay hmutex ops,
    (simulates hk (by omega)).replay (Refines.construct hk) ops⟩

/-- A short sequence whose answers are read off the mutex policy: the lock-free
policy gives the same. -/
theorem same_answers_to_nine_operations :
    replay (exec 3) (construct 2 : LockFreeWords ℕ)
      [.pop true true, .push .tryPush 7 false false false, .push .tryEmplace 8 true false false,
        .push .waitPush 9 false true false, .push .waitPushUntil 5 false false true, .size,
        .pop false false, .closeAndDiscard, .closed] =
      some [.pop .stopped, .push (.returned .success), .push .threw, .push (.returned .success),
        .push (.returned .timeout), .size 2, .pop (.success 7), .discarded 1, .closed true] := by
  obtain ⟨answers, hmutex, hlockFree⟩ := same_answers (E := ℕ)
    LockFreeQueue.admitted_two (by decide : 2 < 3)
    [.pop true true, .push .tryPush 7 false false false, .push .tryEmplace 8 true false false,
      .push .waitPush 9 false true false, .push .waitPushUntil 5 false false true, .size,
      .pop false false, .closeAndDiscard, .closed]
  rw [hlockFree, ← hmutex]
  decide

end LockFreeWords

end EventDispatcher
