import EventDispatcher.Queue.Status

/-!
# `bounded_mutex_queue`: the ring and its critical sections

The queue is a vector of optionals with separately stored `head_`, `tail_` and
`size_`.  Every member function holds `mutex_` while it touches them, so each
critical section is one function on the ring here; waiting and notification are
added in `MutexQueueThreads`.

`Represents q events` is the representation invariant: reading `size_` slots
from `head_` onwards, wrapping, gives `events`, and every other slot is
disengaged.  Each critical section is then an operation on that list.
-/

namespace EventDispatcher

/-- The data members of `bounded_mutex_queue` that `mutex_` protects. -/
structure MutexQueue (E : Type) where
  slots : List (Option E)
  head : ℕ
  tail : ℕ
  size : ℕ
  closed : Bool
  deriving DecidableEq

namespace MutexQueue

variable {E : Type}

/-- `capacity()`: the number of slots. -/
def capacity (q : MutexQueue E) : ℕ := q.slots.length

/-- The freshly constructed ring of a given capacity. -/
def empty (capacity : ℕ) : MutexQueue E :=
  ⟨List.replicate capacity none, 0, 0, 0, false⟩

/-- The constructor, which rejects capacity zero. -/
def construct (capacity : ℕ) : Except String (MutexQueue E) :=
  if capacity = 0 then
    .error "bounded_mutex_queue capacity must be greater than zero"
  else .ok (empty capacity)

/-- `increment`: the next slot, wrapping at the end. -/
def increment (q : MutexQueue E) (index : ℕ) : ℕ :=
  if index + 1 = q.slots.length then 0 else index + 1

/-- `push_locked` after a construction that did not throw. -/
def pushLocked (q : MutexQueue E) (event : E) : MutexQueue E :=
  { q with
    slots := q.slots.set q.tail (some event)
    tail := q.increment q.tail
    size := q.size + 1 }

/-- `pop_locked` up to the unlock.  `none` stands for the undefined read of a
disengaged optional. -/
def popLocked (q : MutexQueue E) : Option (E × MutexQueue E) :=
  (q.slots[q.head]?.join).map fun event =>
    (event,
      { q with
        slots := q.slots.set q.head none
        head := q.increment q.head
        size := q.size - 1 })

/-- The predicate of the `not_full_` waits. -/
def notFull (q : MutexQueue E) : Bool := q.size != q.slots.length || q.closed

/-- The predicate of the `not_empty_` wait. -/
def notEmpty (q : MutexQueue E) : Bool := q.size != 0 || q.closed

/-- The critical section of `try_push_impl` and `try_emplace`. -/
def tryPushSection (q : MutexQueue E) (event : E) (throws : Bool) :
    MutexQueue E × PushOutcome :=
  if q.closed then (q, .returned .closed)
  else if q.size = q.slots.length then (q, .returned .full)
  else if throws then (q, .threw)
  else (q.pushLocked event, .returned .success)

/-- The rest of `wait_push_impl` once its wait has returned `ready`; on
`wait_push_until_impl` a wait that was not ready reports `timeout` unless a
stop was requested. -/
def waitPushSection (q : MutexQueue E) (event : E) (ready timed stop throws : Bool) :
    MutexQueue E × PushOutcome :=
  if !ready then (q, .returned (if timed && !stop then .timeout else .stopped))
  else if q.closed then (q, .returned .closed)
  else if throws then (q, .threw)
  else (q.pushLocked event, .returned .success)

/-- What `try_pop` answers when the ring is empty. -/
def emptyResult (q : MutexQueue E) : PopResult E :=
  if q.closed then .closed else .empty

/-- The discard loop of `close_and_discard`: `fuel` bounds the number of
iterations, and `size_` iterations are enough. -/
def discardLoop (q : MutexQueue E) : ℕ → MutexQueue E
  | 0 => q
  | fuel + 1 =>
      if q.size = 0 then q
      else discardLoop
        { q with
          slots := q.slots.set q.head none
          head := q.increment q.head
          size := q.size - 1 } fuel

/-- The critical section of `close`. -/
def closeSection (q : MutexQueue E) : MutexQueue E := { q with closed := true }

/-- The critical section of `close_and_discard`, with the discarded count. -/
def discardSection (q : MutexQueue E) : MutexQueue E × ℕ :=
  let drained := discardLoop { q with closed := true } q.size
  ({ drained with head := drained.tail }, q.size)

/-- The events stored in the ring, oldest first. -/
def contents (q : MutexQueue E) : List E :=
  (List.range q.size).filterMap fun k => q.slots[(q.head + k) % q.slots.length]?.join

/-- **Representation invariant.**  The ring stores exactly `events`: the slots
`head_ + k` (wrapping) for `k < size_` hold them in order and all other slots
are disengaged. -/
structure Represents (q : MutexQueue E) (events : List E) : Prop where
  head_lt : q.head < q.slots.length
  size_eq : q.size = events.length
  size_le : events.length ≤ q.slots.length
  tail_eq : q.tail = (q.head + q.size) % q.slots.length
  occupied : ∀ k e, events[k]? = some e →
    q.slots[(q.head + k) % q.slots.length]? = some (some e)
  vacant : ∀ k, events.length ≤ k → k < q.slots.length →
    q.slots[(q.head + k) % q.slots.length]? = some none

/-- Wrapped positions written without `%`. -/
theorem wrap_eq {h k c : ℕ} (hh : h < c) (hk : k ≤ c) :
    (h + k) % c = if h + k < c then h + k else h + k - c := by
  split
  · next hlt => exact Nat.mod_eq_of_lt hlt
  · next hge =>
      rw [Nat.mod_eq_sub_mod (by omega), Nat.mod_eq_of_lt (by omega)]

/-- Wrapped positions of different offsets are different slots. -/
theorem wrap_inj {h j k c : ℕ} (hh : h < c) (hj : j < c) (hk : k < c)
    (heq : (h + j) % c = (h + k) % c) : j = k := by
  rw [wrap_eq hh hj.le, wrap_eq hh hk.le] at heq
  split at heq <;> split at heq <;> omega

/-- `increment` is the successor modulo the capacity. -/
theorem increment_eq {q : MutexQueue E} {index : ℕ} (h : index < q.slots.length) :
    q.increment index = (index + 1) % q.slots.length := by
  unfold increment
  split
  · next heq => rw [heq, Nat.mod_self]
  · next hne => rw [Nat.mod_eq_of_lt (by omega)]

/-- A represented ring reads back its events. -/
theorem Represents.contents_eq {q : MutexQueue E} {events : List E}
    (h : q.Represents events) : q.contents = events := by
  have hread : ∀ k, k < events.length →
      q.slots[(q.head + k) % q.slots.length]?.join = events[k]? := by
    intro k hk
    rw [h.occupied k events[k] (by simp [hk])]
    simp [hk]
  have hprefix : ∀ n, n ≤ events.length →
      (List.range n).filterMap
        (fun k => q.slots[(q.head + k) % q.slots.length]?.join) = events.take n := by
    intro n
    induction n with
    | zero => simp
    | succ n ih =>
        intro hn
        rw [List.range_succ, List.filterMap_append, ih (by omega), List.take_add_one,
          ← hread n (by omega)]
        cases hslot : q.slots[(q.head + n) % q.slots.length]?.join <;> simp [hslot]
  unfold contents
  rw [h.size_eq, hprefix _ le_rfl, List.take_length]

/-- The constructor's ring is empty. -/
theorem represents_empty {capacity : ℕ} (hpos : 0 < capacity) :
    (empty capacity : MutexQueue E).Represents [] where
  head_lt := by simpa [empty] using hpos
  size_eq := rfl
  size_le := Nat.zero_le _
  tail_eq := by simp [empty]
  occupied := by simp
  vacant := by
    intro k _ hk
    simp only [empty, List.length_replicate, Nat.zero_add] at hk ⊢
    simp [Nat.mod_eq_of_lt hk, hk]

/-- `push_locked` appends its event. -/
theorem Represents.pushLocked {q : MutexQueue E} {events : List E}
    (h : q.Represents events) (hroom : q.size ≠ q.slots.length) (event : E) :
    (q.pushLocked event).Represents (events ++ [event]) := by
  have hlt : events.length < q.slots.length := by
    have := h.size_le
    have := h.size_eq
    omega
  have htail : q.tail = (q.head + events.length) % q.slots.length := by
    rw [h.tail_eq, h.size_eq]
  have htail_lt : q.tail < q.slots.length := by
    rw [htail]
    exact Nat.mod_lt _ (by omega)
  -- the tail slot is the one at offset `events.length`; other offsets keep theirs
  have hother : ∀ k, k < q.slots.length → k ≠ events.length →
      (q.slots.set q.tail (some event))[(q.head + k) % q.slots.length]? =
        q.slots[(q.head + k) % q.slots.length]? := by
    intro k hk hne
    rw [List.getElem?_set_ne]
    rw [htail]
    intro heq
    exact hne (wrap_inj h.head_lt hlt hk heq).symm
  refine ⟨by simpa [MutexQueue.pushLocked] using h.head_lt,
    by simp [MutexQueue.pushLocked, h.size_eq],
    by simp [MutexQueue.pushLocked]; omega, ?_, ?_, ?_⟩
  · simp only [MutexQueue.pushLocked, List.length_set]
    rw [increment_eq htail_lt, htail, h.size_eq, Nat.mod_add_mod, Nat.add_assoc]
  · intro k e hk
    simp only [MutexQueue.pushLocked, List.length_set]
    rcases Nat.lt_trichotomy k events.length with hlt' | rfl | hgt
    · rw [List.getElem?_append_left hlt'] at hk
      rw [hother k (by omega) (by omega)]
      exact h.occupied k e hk
    · rw [List.getElem?_append_right (le_refl _)] at hk
      simp at hk
      rw [← htail, List.getElem?_set_self htail_lt, hk]
    · rw [List.getElem?_append_right (by omega)] at hk
      have : events.length < k := hgt
      rw [List.getElem?_eq_none (by simp; omega)] at hk
      cases hk
  · intro k hk hcap
    simp only [MutexQueue.pushLocked, List.length_set, List.length_append,
      List.length_singleton] at hk hcap ⊢
    rw [hother k hcap (by omega)]
    exact h.vacant k (by omega) hcap

/-- Disengaging the head slot and advancing `head_` removes the oldest event. -/
theorem Represents.dropHead {q : MutexQueue E} {event : E} {events : List E}
    (h : q.Represents (event :: events)) :
    ({ q with
        slots := q.slots.set q.head none
        head := q.increment q.head
        size := q.size - 1 } : MutexQueue E).Represents events := by
  have hsize : q.size = events.length + 1 := by simpa using h.size_eq
  have hle : events.length + 1 ≤ q.slots.length := by simpa using h.size_le
  have hpos : 0 < q.slots.length := by omega
  have hinc : q.increment q.head = (q.head + 1) % q.slots.length := increment_eq h.head_lt
  have hshift : ∀ k, (q.increment q.head + k) % q.slots.length =
      (q.head + (k + 1)) % q.slots.length := by
    intro k
    rw [hinc, Nat.mod_add_mod]
    congr 1
    omega
  have hhead : (q.head + 0) % q.slots.length = q.head := by
    rw [Nat.add_zero, Nat.mod_eq_of_lt h.head_lt]
  -- the only slot written is the one at offset zero
  have hother : ∀ k, k + 1 < q.slots.length →
      (q.slots.set q.head none)[(q.head + (k + 1)) % q.slots.length]? =
        q.slots[(q.head + (k + 1)) % q.slots.length]? := by
    intro k hk
    rw [List.getElem?_set_ne]
    intro heq
    have := wrap_inj h.head_lt hpos hk (by rw [hhead]; exact heq)
    omega
  refine ⟨?_, by simp [hsize], by simp; omega, ?_, ?_, ?_⟩
  · simp only [List.length_set]
    rw [hinc]
    exact Nat.mod_lt _ hpos
  · simp only [List.length_set]
    rw [hshift, h.tail_eq, hsize]
    simp
  · intro k e hk
    have hklt : k < events.length := by
      by_contra hge
      rw [List.getElem?_eq_none (by omega)] at hk
      cases hk
    simp only [List.length_set]
    rw [hshift, hother k (by omega)]
    exact h.occupied (k + 1) e (by simpa using hk)
  · intro k hk hcap
    simp only [List.length_set] at hcap ⊢
    rw [hshift]
    by_cases hlast : k + 1 < q.slots.length
    · rw [hother k hlast]
      exact h.vacant (k + 1) (by simp; omega) hlast
    · have hwrap : (q.head + (k + 1)) % q.slots.length = q.head := by
        have : k + 1 = q.slots.length := by omega
        rw [this, Nat.add_mod_right, Nat.mod_eq_of_lt h.head_lt]
      rw [hwrap, List.getElem?_set_self h.head_lt]

/-- `pop_locked` hands out the oldest event, and never reads a disengaged
slot. -/
theorem Represents.popLocked {q : MutexQueue E} {event : E} {events : List E}
    (h : q.Represents (event :: events)) :
    ∃ q', q.popLocked = some (event, q') ∧ q'.Represents events ∧
      q'.closed = q.closed ∧ q'.slots.length = q.slots.length := by
  have hhead : q.slots[q.head]? = some (some event) := by
    have := h.occupied 0 event rfl
    rwa [Nat.add_zero, Nat.mod_eq_of_lt h.head_lt] at this
  refine ⟨_, by simp only [MutexQueue.popLocked, hhead]; rfl, h.dropHead, rfl, ?_⟩
  simp

/-- The discard loop empties the ring in `size_` iterations. -/
theorem Represents.discardLoop {q : MutexQueue E} {events : List E}
    (h : q.Represents events) :
    (q.discardLoop events.length).Represents [] ∧
      (q.discardLoop events.length).closed = q.closed ∧
      (q.discardLoop events.length).slots.length = q.slots.length := by
  induction events generalizing q with
  | nil => exact ⟨h, rfl, rfl⟩
  | cons event events ih =>
      have hne : q.size ≠ 0 := by
        rw [h.size_eq]
        simp
      simp only [List.length_cons, MutexQueue.discardLoop, hne, if_false]
      obtain ⟨hrep, hclosed, hlen⟩ := ih h.dropHead
      exact ⟨hrep, hclosed, by simpa using hlen⟩

/-- `close` keeps the stored events. -/
theorem Represents.closeSection {q : MutexQueue E} {events : List E}
    (h : q.Represents events) : q.closeSection.Represents events :=
  ⟨h.head_lt, h.size_eq, h.size_le, h.tail_eq, h.occupied, h.vacant⟩

/-- `close_and_discard` empties the ring, closes it and counts what it
destroyed. -/
theorem Represents.discardSection {q : MutexQueue E} {events : List E}
    (h : q.Represents events) :
    q.discardSection.1.Represents [] ∧ q.discardSection.1.closed = true ∧
      q.discardSection.1.slots.length = q.slots.length ∧
      q.discardSection.2 = events.length := by
  obtain ⟨hrep, hcl, hlen⟩ := h.closeSection.discardLoop
  rw [← h.size_eq] at hrep hcl hlen ⊢
  simp only [MutexQueue.discardSection]
  -- `head_ = tail_` changes nothing, since an empty ring already has them equal
  change (MutexQueue.discardLoop { q with closed := true } q.size).Represents [] at hrep
  change (MutexQueue.discardLoop { q with closed := true } q.size).closed = true at hcl
  change (MutexQueue.discardLoop { q with closed := true } q.size).slots.length = _ at hlen
  generalize MutexQueue.discardLoop { q with closed := true } q.size = drained at *
  have hhead : drained.tail = drained.head := by
    rw [hrep.tail_eq, hrep.size_eq]
    simp [Nat.mod_eq_of_lt hrep.head_lt]
  have heq : ({ drained with head := drained.tail } : MutexQueue E) = drained := by
    cases drained
    simpa using hhead
  exact ⟨by rw [heq]; exact hrep, hcl, hlen, trivial⟩

end MutexQueue

end EventDispatcher
