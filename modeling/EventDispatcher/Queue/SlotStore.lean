import EventDispatcher.Lib.Threads
import EventDispatcher.Queue.OperationGate
import EventDispatcher.Queue.Status

/-!
# Slot ownership in `bounded_lock_free_queue`

The queue keeps its events in raw slots.  A slot index travels between the
available ring, a producer's hands, the published ring and a consumer's hands,
and the operations touch ring, slot and counter in separate atomic steps.  The
index rings are FIFO lists here.

`Hold` is what one thread owns between two steps, `SlotMove` lists the moves of
ownership one atomic step can make, and `SlotInv` is the conservation law they
all keep: every index is in one place, a slot is alive exactly while its index
is in a place that says so, and events are only moved around.  The lower half of
`SlotStore` is history: nothing reads it.
-/

namespace EventDispatcher

open Transition

/-- The storage of the queue, and the history of what happened to it. -/
structure SlotStore (E : Type) where
  available : List ℕ
  published : List ℕ
  slots : ℕ → Option E
  occupied : ℕ
  constructed : ℕ → ℕ
  destroyed : ℕ → ℕ
  accepted : List E
  claimed : List E
  dropped : List E
  returned : List (QueueResult E)

namespace SlotStore

variable {E : Type}

/-- `initialize_full` for the available ring, `initialize_empty` for the
published one. -/
def initial (E : Type) (capacity : ℕ) : SlotStore E where
  available := List.range capacity
  published := []
  slots := fun _ => none
  occupied := 0
  constructed := fun _ => 0
  destroyed := fun _ => 0
  accepted := []
  claimed := []
  dropped := []
  returned := []

/-- `available_indices_.enqueue(index)`. -/
@[simp]
def giveBack (s : SlotStore E) (index : ℕ) : SlotStore E :=
  { s with available := s.available ++ [index] }

/-- `std::construct_at(slots_[index].event(), event)`. -/
@[simp]
def construct (s : SlotStore E) (index : ℕ) (event : E) : SlotStore E :=
  { s with
    slots := Function.update s.slots index (some event)
    constructed := Function.update s.constructed index (s.constructed index + 1) }

/-- `std::destroy_at(slots_[index].event())`. -/
@[simp]
def destroy (s : SlotStore E) (index : ℕ) : SlotStore E :=
  { s with
    slots := Function.update s.slots index none
    destroyed := Function.update s.destroyed index (s.destroyed index + 1) }

/-- `occupied_count_.fetch_add(1)`. -/
@[simp]
def count (s : SlotStore E) : SlotStore E := { s with occupied := wordInc s.occupied }

/-- `occupied_count_.fetch_sub(1)`. -/
@[simp]
def uncount (s : SlotStore E) : SlotStore E := { s with occupied := wordDec s.occupied }

/-- `published_indices_.enqueue(index)`, the linearization point of a push. -/
@[simp]
def publish (s : SlotStore E) (index : ℕ) (event : E) : SlotStore E :=
  { s with published := s.published ++ [index], accepted := s.accepted ++ [event] }

/-- A pop takes the oldest published index. -/
@[simp]
def claim (s : SlotStore E) (rest : List ℕ) (event : E) : SlotStore E :=
  { s with published := rest, claimed := s.claimed ++ [event] }

/-- `close_and_discard` takes the oldest published index. -/
@[simp]
def drop (s : SlotStore E) (rest : List ℕ) (event : E) : SlotStore E :=
  { s with published := rest, dropped := s.dropped ++ [event] }

/-- An operation hands its result to its caller. -/
@[simp]
def record (s : SlotStore E) (result : QueueResult E) : SlotStore E :=
  { s with returned := s.returned ++ [result] }

/-- The events in the published ring, oldest first. -/
def contents (s : SlotStore E) : List E := s.published.filterMap s.slots

end SlotStore

/-- The slot a thread holds, if any. -/
inductive SlotHold (E : Type)
  | none
  /-- a producer's, still raw -/
  | reserved (index : ℕ)
  /-- a producer's, holding its event -/
  | built (index : ℕ) (event : E)
  /-- a producer's, already counted as occupied -/
  | counted (index : ℕ) (event : E)
  /-- a consumer's or discarder's, the event not destroyed yet -/
  | live (index : ℕ) (event : E)
  /-- a consumer's or discarder's, destroyed but still counted -/
  | emptied (index : ℕ)
  /-- a consumer's or discarder's, about to be given back -/
  | uncounted (index : ℕ)

namespace SlotHold

variable {E : Type}

/-- The index that a thread has in its hands. -/
def index : SlotHold E → Option ℕ
  | .none => Option.none
  | .reserved i | .built i _ | .counted i _ | .live i _ | .emptied i | .uncounted i => some i

/-- Index and event of a slot that is alive in the thread's hands. -/
def alive : SlotHold E → Option (ℕ × E)
  | .built i e | .counted i e | .live i e => some (i, e)
  | _ => Option.none

/-- Whether the slot is counted in `occupied_count_`. -/
def isCounted : SlotHold E → Bool
  | .counted _ _ | .live _ _ | .emptied _ => true
  | _ => false

end SlotHold

/-- What a thread owns: a slot, and what it owes its caller because of the
transfers it has already made. -/
structure Hold (E : Type) where
  slot : SlotHold E
  pushed : ℕ
  popped : Option E
  discarded : ℕ

namespace Hold

variable {E : Type}

/-- A thread that owns nothing. -/
@[simp]
def nothing : Hold E := ⟨.none, 0, none, 0⟩

/-- What a thread owes when only the return of `result` is left. -/
def ofResult : QueueResult E → Hold E
  | .push (.returned .success) => ⟨.none, 1, none, 0⟩
  | .pop (.success event) => ⟨.none, 0, some event, 0⟩
  | .discarded count => ⟨.none, 0, none, count⟩
  | _ => nothing

/-- Number of slots held. -/
@[simp]
def slotCount (h : Hold E) : ℕ := if h.slot.index = none then 0 else 1

/-- Whether the slot with this index is held. -/
@[simp]
def holds (i : ℕ) (h : Hold E) : ℕ := if h.slot.index = some i then 1 else 0

/-- Whether the slot with this index is held alive. -/
@[simp]
def holdsAlive (i : ℕ) (h : Hold E) : ℕ := if h.slot.alive.map Prod.fst = some i then 1 else 0

/-- Whether the held slot is counted as occupied. -/
@[simp]
def occupies (h : Hold E) : ℕ := if h.slot.isCounted then 1 else 0

/-- The event a pop still has to return. -/
@[simp]
def owed (h : Hold E) : Multiset E := ↑h.popped.toList

section OfResult

variable (r : QueueResult E)

/-- A result holds no slot. -/
theorem slot_ofResult : (ofResult r).slot = .none := by
  unfold ofResult
  split <;> rfl

/-- A result counts for no slot. -/
theorem slotCount_ofResult : (ofResult r).slotCount = 0 := by
  simp [slot_ofResult, SlotHold.index]

/-- A result holds no index. -/
theorem holds_ofResult (i : ℕ) : (ofResult r).holds i = 0 := by
  simp [slot_ofResult, SlotHold.index]

/-- A result holds no living event. -/
theorem holdsAlive_ofResult (i : ℕ) : (ofResult r).holdsAlive i = 0 := by
  simp [slot_ofResult, SlotHold.alive]

/-- A result counts for no place in `occupied_count_`. -/
theorem occupies_ofResult : (ofResult r).occupies = 0 := by
  simp [slot_ofResult, SlotHold.isCounted]

end OfResult

end Hold

/-- The moves of ownership that one atomic step can make. -/
inductive SlotMove {E : Type} :
    SlotStore E → Hold E → SlotStore E → Hold E → Prop
  | quiet (s : SlotStore E) (h : Hold E) : SlotMove s h s h
  | reserve (s : SlotStore E) {i p d : ℕ} {o : Option E} {rest : List ℕ}
      (hring : s.available = i :: rest) :
      SlotMove s ⟨.none, p, o, d⟩ { s with available := rest } ⟨.reserved i, p, o, d⟩
  | unreserve (s : SlotStore E) {i p d : ℕ} {o : Option E} :
      SlotMove s ⟨.reserved i, p, o, d⟩ (s.giveBack i) ⟨.none, p, o, d⟩
  | construct (s : SlotStore E) {i p d : ℕ} {o : Option E} (e : E) :
      SlotMove s ⟨.reserved i, p, o, d⟩ (s.construct i e) ⟨.built i e, p, o, d⟩
  | count (s : SlotStore E) {i p d : ℕ} {o : Option E} {e : E} :
      SlotMove s ⟨.built i e, p, o, d⟩ s.count ⟨.counted i e, p, o, d⟩
  | publish (s : SlotStore E) {i p d : ℕ} {o : Option E} {e : E} :
      SlotMove s ⟨.counted i e, p, o, d⟩ (s.publish i e) ⟨.none, p + 1, o, d⟩
  | claim (s : SlotStore E) {i p d : ℕ} {e : E} {rest : List ℕ}
      (hring : s.published = i :: rest) (hevent : s.slots i = some e) :
      SlotMove s ⟨.none, p, none, d⟩ (s.claim rest e) ⟨.live i e, p, some e, d⟩
  | discard (s : SlotStore E) {i p d : ℕ} {o : Option E} {e : E} {rest : List ℕ}
      (hring : s.published = i :: rest) (hevent : s.slots i = some e) :
      SlotMove s ⟨.none, p, o, d⟩ (s.drop rest e) ⟨.live i e, p, o, d + 1⟩
  | destroy (s : SlotStore E) {i p d : ℕ} {o : Option E} {e : E} :
      SlotMove s ⟨.live i e, p, o, d⟩ (s.destroy i) ⟨.emptied i, p, o, d⟩
  | uncount (s : SlotStore E) {i p d : ℕ} {o : Option E} :
      SlotMove s ⟨.emptied i, p, o, d⟩ s.uncount ⟨.uncounted i, p, o, d⟩
  | giveBack (s : SlotStore E) {i p d : ℕ} {o : Option E} :
      SlotMove s ⟨.uncounted i, p, o, d⟩ (s.giveBack i) ⟨.none, p, o, d⟩
  | result (s : SlotStore E) (r : QueueResult E) :
      SlotMove s (.ofResult r) (s.record r) .nothing

/-- A move takes a slot from one place and puts it into another. -/
theorem SlotMove.slots {E : Type} {s s' : SlotStore E} {h h' : Hold E}
    (hmove : SlotMove s h s' h') :
    s'.available.length + s'.published.length + h'.slotCount =
      s.available.length + s.published.length + h.slotCount := by
  cases hmove with
  | reserve hring | claim hring | discard hring =>
      rw [hring]
      simp [SlotHold.index]
      omega
  | result r =>
      rw [Hold.slotCount_ofResult]
      simp [SlotHold.index]
  | unreserve | publish | giveBack =>
      simp [SlotHold.index]
      omega
  | _ => simp [SlotHold.index]

/-- The successful pushes among the returned results. -/
def pushCount {E : Type} (results : List (QueueResult E)) : ℕ :=
  (results.map fun r => (Hold.ofResult r).pushed).sum

/-- The events of the successful pops among the returned results. -/
def poppedEvents {E : Type} (results : List (QueueResult E)) : List E :=
  results.filterMap fun r => (Hold.ofResult r).popped

/-- The sum of all returned discard counts. -/
def discardCount {E : Type} (results : List (QueueResult E)) : ℕ :=
  (results.map fun r => (Hold.ofResult r).discarded).sum

/-- One if the slot is alive. -/
def liveBit {E : Type} : Option E → ℕ
  | none => 0
  | some _ => 1

/-- A raw slot. -/
@[simp]
theorem liveBit_none {E : Type} : liveBit (none : Option E) = 0 := rfl

/-- A slot with an event. -/
@[simp]
theorem liveBit_some {E : Type} (e : E) : liveBit (some e) = 1 := rfl

/-- **Conservation of slots and events**, over the holds of all threads. -/
structure SlotInv {T E : Type} [Fintype T] (capacity : ℕ) (s : SlotStore E)
    (hold : T → Hold E) : Prop where
  total : s.available.length + s.published.length + tally Hold.slotCount hold = capacity
  unique : ∀ i, s.available.count i + s.published.count i + tally (Hold.holds i) hold =
    if i < capacity then 1 else 0
  alive : ∀ i, liveBit (s.slots i) = s.published.count i + tally (Hold.holdsAlive i) hold
  held : ∀ t i e, (hold t).slot.alive = some (i, e) → s.slots i = some e
  lifetime : ∀ i, s.constructed i = s.destroyed i + liveBit (s.slots i)
  occupied : s.occupied = s.published.length + tally Hold.occupies hold
  events : (↑s.accepted : Multiset E) = ↑s.claimed + ↑s.dropped + ↑s.contents
  pushes : s.accepted.length = pushCount s.returned + tally Hold.pushed hold
  pops : (↑s.claimed : Multiset E) = ↑(poppedEvents s.returned) + tally Hold.owed hold
  discards : s.dropped.length = discardCount s.returned + tally Hold.discarded hold

namespace SlotInv

variable {T E : Type} [Fintype T]

/-- Threads that own nothing add nothing up. -/
theorem tally_nothing {A : Type} [AddCommMonoid A] {f : Hold E → A} (h : f .nothing = 0) :
    tally f (fun _ : T => Hold.nothing) = 0 :=
  tally_eq_zero fun _ => h

/-- A fresh queue of any capacity. -/
theorem initial (capacity : ℕ) :
    SlotInv capacity (SlotStore.initial E capacity) fun _ : T => Hold.nothing where
  total := by
    rw [tally_nothing rfl]
    simp [SlotStore.initial]
  unique := by
    intro i
    rw [tally_nothing rfl]
    simp [SlotStore.initial, List.count_range]
  alive := by
    intro i
    rw [tally_nothing rfl]
    rfl
  held := by
    intro t i e h
    cases h
  lifetime := fun _ => rfl
  occupied := by
    rw [tally_nothing rfl]
    rfl
  events := rfl
  pushes := by
    rw [tally_nothing rfl]
    rfl
  pops := by
    rw [tally_nothing rfl]
    rfl
  discards := by
    rw [tally_nothing rfl]
    rfl

section Consequences

variable {capacity : ℕ} {s : SlotStore E} {hold : T → Hold E}

/-- Every published slot is alive, so the ring is as long as its contents. -/
theorem length_contents (h : SlotInv capacity s hold) :
    s.contents.length = s.published.length := by
  apply List.filterMap_length_eq_length.mpr
  intro i hi
  have hbit := h.alive i
  have hcount := List.count_pos_iff.mpr hi
  cases hslot : s.slots i with
  | none =>
      rw [hslot, liveBit_none] at hbit
      omega
  | some e => rfl

/-- A slot in somebody's hands is in no ring. -/
theorem not_published (h : SlotInv capacity s hold) {t : T} {i : ℕ}
    (ht : (hold t).slot.index = some i) : i ∉ s.published := by
  intro hmem
  have hone : 1 ≤ tally (Hold.holds i) hold :=
    calc 1 = Hold.holds i (hold t) := by rw [Hold.holds, if_pos ht]
      _ ≤ tally (Hold.holds i) hold := le_tally _ hold t
  have hpub : 1 ≤ s.published.count i := List.count_pos_iff.mpr hmem
  have hsum := h.unique i
  split at hsum <;> omega

/-- No two threads hold the same slot. -/
theorem holder_unique (h : SlotInv capacity s hold) {t u : T} {i : ℕ}
    (ht : (hold t).slot.index = some i) (hu : (hold u).slot.index = some i) : t = u := by
  classical
  by_contra hne
  have htwo := card_le_tally (f := Hold.holds i) (S := {t, u}) (by
    intro v hv
    rcases Finset.mem_insert.mp hv with rfl | hv
    · rw [Hold.holds, if_pos ht]
    · rw [Finset.mem_singleton.mp hv, Hold.holds, if_pos hu])
  rw [Finset.card_pair hne] at htwo
  have hsum := h.unique i
  split at hsum <;> omega

/-- A slot that is alive in a thread's hands is in its hands. -/
theorem index_of_alive {slot : SlotHold E} {i : ℕ} {e : E} (h : slot.alive = some (i, e)) :
    slot.index = some i := by
  cases slot <;> simp_all [SlotHold.alive, SlotHold.index]

/-- A slot held by a producer before construction, or by a consumer after
destruction, is raw memory. -/
theorem raw (h : SlotInv capacity s hold) {t : T} {i : ℕ}
    (ht : (hold t).slot.index = some i) (hnot : (hold t).slot.alive = none) :
    s.slots i = none := by
  have hpub : s.published.count i = 0 := List.count_eq_zero.mpr (h.not_published ht)
  have hlive : tally (Hold.holdsAlive i) hold = 0 := by
    apply tally_eq_zero
    intro u
    rw [Hold.holdsAlive, if_neg]
    intro hu
    obtain ⟨⟨j, e⟩, halive, rfl⟩ := Option.map_eq_some_iff.mp hu
    have heq := h.holder_unique ht (index_of_alive halive)
    rw [← heq, hnot] at halive
    cases halive
  have hbit := h.alive i
  cases hslot : s.slots i with
  | none => rfl
  | some e =>
      rw [hslot, hpub, hlive] at hbit
      cases hbit

/-- Held slots are counted once, so the counter stays within the capacity. -/
theorem occupied_le (h : SlotInv capacity s hold) : s.occupied ≤ capacity := by
  have hle : tally Hold.occupies hold ≤ tally Hold.slotCount hold := by
    apply Finset.sum_le_sum
    intro t _
    cases hslot : (hold t).slot <;>
      simp [Hold.occupies, Hold.slotCount, hslot, SlotHold.isCounted, SlotHold.index]
  have htotal := h.total
  have hocc := h.occupied
  omega

/-- Whoever is about to decrement the counter finds it positive. -/
theorem occupied_pos (h : SlotInv capacity s hold) {t : T}
    (ht : (hold t).slot.isCounted = true) : 1 ≤ s.occupied := by
  have hone : 1 ≤ tally Hold.occupies hold :=
    calc 1 = Hold.occupies (hold t) := by simp [Hold.occupies, ht]
      _ ≤ tally Hold.occupies hold := le_tally _ hold t
  have hocc := h.occupied
  omega

end Consequences

section Preservation

variable [DecidableEq T] {capacity : ℕ} {s s' : SlotStore E} {hold : T → Hold E}
  {t : T} {h' : Hold E}

/-- No index is lost. -/
theorem step_total (h : SlotInv capacity s hold) (hmove : SlotMove s (hold t) s' h') :
    s'.available.length + s'.published.length +
      tally Hold.slotCount (Function.update hold t h') = capacity := by
  have hsum := h.total
  have htally := tally_update Hold.slotCount hold t h'
  have hslots := hmove.slots
  omega

/-- Every index stays in one place. -/
theorem step_unique (h : SlotInv capacity s hold) (hmove : SlotMove s (hold t) s' h') (i : ℕ) :
    s'.available.count i + s'.published.count i +
      tally (Hold.holds i) (Function.update hold t h') = if i < capacity then 1 else 0 := by
  have hsum := h.unique i
  have htally := tally_update (Hold.holds i) hold t h'
  generalize tally (Hold.holds i) (Function.update hold t h') = n' at htally ⊢
  generalize tally (Hold.holds i) hold = n at htally hsum
  generalize hold t = old at hmove htally
  rw [← hsum]
  clear hsum h
  cases hmove with
  | reserve hring | claim hring | discard hring =>
      rw [hring]
      simp [SlotHold.index, List.count_cons] at htally ⊢
      omega
  | result r =>
      rw [Hold.holds_ofResult] at htally
      simp [SlotHold.index] at htally ⊢
      omega
  | unreserve | giveBack | publish =>
      simp [SlotHold.index, List.count_cons] at htally ⊢
      omega
  | _ =>
      simp [SlotHold.index] at htally ⊢
      omega

/-- The living slots are the published ones and those in a thread's hands. -/
theorem step_alive (h : SlotInv capacity s hold) (hmove : SlotMove s (hold t) s' h') (i : ℕ) :
    liveBit (s'.slots i) =
      s'.published.count i + tally (Hold.holdsAlive i) (Function.update hold t h') := by
  have hsum := h.alive i
  have htally := tally_update (Hold.holdsAlive i) hold t h'
  have hraw := fun j => h.raw (t := t) (i := j)
  have hheld := h.held t
  generalize tally (Hold.holdsAlive i) (Function.update hold t h') = n' at htally ⊢
  generalize tally (Hold.holdsAlive i) hold = n at htally hsum
  generalize hold t = old at hmove htally hraw hheld
  clear h
  cases hmove with
  | construct e =>
      rename_i j p d o
      have hempty : s.slots j = none := hraw j rfl rfl
      by_cases hij : i = j
      · subst hij
        simp [SlotHold.alive, hempty] at htally hsum ⊢
        omega
      · simp [SlotHold.alive, Function.update_of_ne hij, Ne.symm hij] at htally hsum ⊢
        omega
  | destroy =>
      rename_i j p d o e
      have hsome : s.slots j = some e := hheld j e rfl
      by_cases hij : i = j
      · subst hij
        simp [SlotHold.alive, hsome] at htally hsum ⊢
        omega
      · simp [SlotHold.alive, Function.update_of_ne hij, Ne.symm hij] at htally hsum ⊢
        omega
  | claim hring | discard hring =>
      rw [hring] at hsum
      simp [SlotHold.alive, List.count_cons] at htally hsum ⊢
      omega
  | publish =>
      simp [SlotHold.alive, List.count_cons] at htally hsum ⊢
      omega
  | result r =>
      rw [Hold.holdsAlive_ofResult] at htally
      simp [SlotHold.alive] at htally hsum ⊢
      omega
  | _ =>
      simp [SlotHold.alive] at htally hsum ⊢
      omega

/-- A slot in a thread's hands keeps its event. -/
theorem step_held (h : SlotInv capacity s hold) (hmove : SlotMove s (hold t) s' h') (u : T)
    (i : ℕ) (e : E) (halive : (Function.update hold t h' u).slot.alive = some (i, e)) :
    s'.slots i = some e := by
  have hraw := fun j => h.raw (t := t) (i := j)
  have hheld := h.held t
  have hunique := fun j => h.holder_unique (t := t) (u := u) (i := j)
  by_cases hu : u = t
  · subst hu
    rw [Function.update_self] at halive
    generalize hold u = old at hmove hraw hheld hunique
    cases hmove <;> simp_all [SlotHold.alive]
  · rw [Function.update_of_ne hu] at halive
    have hsome := h.held u i e halive
    have hindex := index_of_alive halive
    generalize hold t = old at hmove hraw hheld hunique
    cases hmove with
    | construct e' =>
        rename_i j p d o
        have hempty : s.slots j = none := hraw j rfl rfl
        have hij : i ≠ j := by
          rintro rfl
          rw [hempty] at hsome
          cases hsome
        simpa [Function.update_of_ne hij] using hsome
    | destroy =>
        rename_i j p d o e'
        have hij : i ≠ j := by
          rintro rfl
          exact hu (hunique _ rfl hindex).symm
        simpa [Function.update_of_ne hij] using hsome
    | _ => exact hsome

omit [DecidableEq T] in
/-- A slot is destroyed as often as it was constructed, but for the living event. -/
theorem step_lifetime (h : SlotInv capacity s hold) (hmove : SlotMove s (hold t) s' h')
    (i : ℕ) : s'.constructed i = s'.destroyed i + liveBit (s'.slots i) := by
  have hsum := h.lifetime i
  have hraw := fun j => h.raw (t := t) (i := j)
  have hheld := h.held t
  generalize hold t = old at hmove hraw hheld
  cases hmove with
  | construct e =>
      rename_i j p d o
      have hempty : s.slots j = none := hraw j rfl rfl
      by_cases hij : i = j
      · subst hij
        simpa [hempty] using hsum
      · simpa [Function.update_of_ne hij] using hsum
  | destroy =>
      rename_i j p d o e
      have hsome : s.slots j = some e := hheld j e rfl
      by_cases hij : i = j
      · subst hij
        simpa [hsome] using hsum
      · simpa [Function.update_of_ne hij] using hsum
  | _ => exact hsum

/-- `occupied_count_` counts the published events and those on their way. -/
theorem step_occupied (hcap : capacity + 1 < wordSize) (h : SlotInv capacity s hold)
    (hmove : SlotMove s (hold t) s' h') :
    s'.occupied = s'.published.length + tally Hold.occupies (Function.update hold t h') := by
  have hsum := h.occupied
  have hle := h.occupied_le
  have hpos := h.occupied_pos (t := t)
  have htally := tally_update Hold.occupies hold t h'
  generalize tally Hold.occupies (Function.update hold t h') = n' at htally ⊢
  generalize tally Hold.occupies hold = n at htally hsum
  generalize hold t = old at hmove htally hpos
  clear h
  cases hmove with
  | count =>
      simp [SlotHold.isCounted] at htally ⊢
      rw [wordInc_of_lt (by omega)]
      omega
  | uncount =>
      simp [SlotHold.isCounted] at htally ⊢
      obtain ⟨m, hm⟩ := Nat.exists_eq_add_of_le' (hpos rfl)
      rw [hm, wordDec_succ]
      omega
  | claim hring | discard hring =>
      rw [hring] at hsum
      simp [SlotHold.isCounted] at htally hsum ⊢
      omega
  | result r =>
      rw [Hold.occupies_ofResult] at htally
      simp [SlotHold.isCounted] at htally ⊢
      omega
  | _ =>
      simp [SlotHold.isCounted] at htally ⊢
      omega

/-- A slot that is not published does not matter for the contents. -/
theorem contents_update {i : ℕ} (hi : i ∉ s.published) (slot : Option E) :
    s.published.filterMap (Function.update s.slots i slot) = s.contents := by
  apply List.filterMap_congr
  intro j hj
  apply Function.update_of_ne
  rintro rfl
  exact hi hj

omit [DecidableEq T] in
/-- No accepted event is lost. -/
theorem step_events (h : SlotInv capacity s hold) (hmove : SlotMove s (hold t) s' h') :
    (↑s'.accepted : Multiset E) = ↑s'.claimed + ↑s'.dropped + ↑s'.contents := by
  have hsum := h.events
  have hheld := h.held t
  have hfree := fun j => h.not_published (t := t) (i := j)
  generalize hold t = old at hmove hheld hfree
  clear h
  cases hmove with
  | construct e | destroy =>
      have hcontents := contents_update (hfree _ rfl)
      simpa [SlotStore.contents, hcontents] using hsum
  | publish =>
      rename_i j p d o e
      have hsome : s.slots j = some e := hheld j e rfl
      simp [SlotStore.contents, List.filterMap_append, hsome, ← Multiset.coe_add] at hsum ⊢
      rw [hsum]
      abel
  | claim hring hevent | discard hring hevent =>
      simp only [SlotStore.contents, hring, List.filterMap_cons, hevent] at hsum
      simp only [SlotStore.contents, SlotStore.claim, SlotStore.drop, ← Multiset.coe_add,
        ← Multiset.cons_coe, ← Multiset.singleton_add, Multiset.coe_nil, add_zero] at hsum ⊢
      rw [hsum]
      abel
  | _ => exact hsum

/-- Every accepted event has its successful push. -/
theorem step_pushes (h : SlotInv capacity s hold) (hmove : SlotMove s (hold t) s' h') :
    s'.accepted.length =
      pushCount s'.returned + tally Hold.pushed (Function.update hold t h') := by
  have hsum := h.pushes
  have htally := tally_update Hold.pushed hold t h'
  generalize tally Hold.pushed (Function.update hold t h') = n' at htally ⊢
  generalize tally Hold.pushed hold = n at htally hsum
  generalize hold t = old at hmove htally
  cases hmove <;> simp [pushCount] at htally hsum ⊢ <;> omega

/-- Every dropped event has been counted by its `close_and_discard`. -/
theorem step_discards (h : SlotInv capacity s hold) (hmove : SlotMove s (hold t) s' h') :
    s'.dropped.length =
      discardCount s'.returned + tally Hold.discarded (Function.update hold t h') := by
  have hsum := h.discards
  have htally := tally_update Hold.discarded hold t h'
  generalize tally Hold.discarded (Function.update hold t h') = n' at htally ⊢
  generalize tally Hold.discarded hold = n at htally hsum
  generalize hold t = old at hmove htally
  cases hmove <;> simp [discardCount] at htally hsum ⊢ <;> omega

/-- Every claimed event has its successful pop. -/
theorem step_pops (h : SlotInv capacity s hold) (hmove : SlotMove s (hold t) s' h') :
    (↑s'.claimed : Multiset E) =
      ↑(poppedEvents s'.returned) + tally Hold.owed (Function.update hold t h') := by
  have hsum := h.pops
  have htally := tally_update Hold.owed hold t h'
  generalize tally Hold.owed (Function.update hold t h') = n' at htally ⊢
  generalize tally Hold.owed hold = n at htally hsum
  generalize hold t = old at hmove htally
  cases hmove with
  | claim hring hevent =>
      simp [← Multiset.coe_add] at htally ⊢
      rw [hsum, htally]
      abel
  | result r =>
      cases hr : (Hold.ofResult r).popped with
      | none =>
          simp [hr] at htally
          simp [poppedEvents, hr, htally, hsum]
      | some e =>
          simp only [Hold.owed, hr, Option.toList_some, Multiset.coe_singleton,
            Hold.nothing, Option.toList_none, Multiset.coe_nil, add_zero] at htally
          simp [poppedEvents, hr, ← Multiset.coe_add, ← htally, hsum]
          abel
  | _ =>
      simp at htally ⊢
      rw [htally, hsum]

/-- **Step lemma**: every move of ownership keeps the conservation law. -/
theorem step (hcap : capacity + 1 < wordSize) (h : SlotInv capacity s hold)
    (hmove : SlotMove s (hold t) s' h') : SlotInv capacity s' (Function.update hold t h') where
  total := h.step_total hmove
  unique := h.step_unique hmove
  alive := h.step_alive hmove
  held := h.step_held hmove
  lifetime := h.step_lifetime hmove
  occupied := h.step_occupied hcap hmove
  events := h.step_events hmove
  pushes := h.step_pushes hmove
  pops := h.step_pops hmove
  discards := h.step_discards hmove

end Preservation

end SlotInv

end EventDispatcher
