import EventDispatcher.Lib.Threads
import EventDispatcher.Queue.IndexRing

/-!
# `scalable_circular_index_queue` under any interleaving

`enqueue(index, false)` and `try_dequeue(false)` as programs of threads, one atomic operation a
step.  Tickets are unbounded here, so an entry is kept decoded: the cycle, which is what its word
has above the safe bit, the safe bit, and the index, where `none` is the mark `ring_mask_` of an
entry without one.  The entries of a fresh ring are words with all bits set, whose cycle is `-1`.

An index is enqueued only by the thread that holds it, which is what `holder` keeps track of.
`RingTrace` records what has happened; no step reads it.
-/

namespace EventDispatcher

open Transition

/-- An entry, decoded. -/
structure RingEntry where
  cycle : ℤ
  safe : Bool
  index : Option ℕ
  deriving DecidableEq

/-- What has happened so far; calls and returns are numbered by `clock`. -/
structure RingTrace where
  clock : ℕ
  /-- when `enqueue(i)` has been called -/
  calls : ℕ → List ℕ
  /-- the calls of `enqueue` that have returned, and when they did -/
  completed : List (ℕ × ℕ)
  /-- the calls of `try_dequeue` that have returned `i`, and when they did -/
  returns : ℕ → List (ℕ × ℕ)
  /-- `tail_` when `enqueue(i)` was called -/
  tails : ℕ → List ℕ
  /-- the tail tickets with which `i` was stored -/
  placed : ℕ → List ℕ
  /-- the call that has drawn a head ticket -/
  starts : ℕ → ℕ
  /-- the head tickets that are done with -/
  left : ℕ → Bool
  /-- the index in whose way a tail ticket was given up -/
  blame : ℕ → Option ℕ

/-- The ring, who holds which index, and the record. -/
structure RingMem (T : Type) where
  entries : ℕ → RingEntry
  head : ℕ
  tail : ℕ
  threshold : ℤ
  holder : ℕ → Option T
  trace : RingTrace

/-- Where `enqueue` stands. -/
inductive EnqueuePhase
  /-- `tail_.fetch_add(1)` -/
  | draw
  /-- `target.load()` -/
  | load (ticket : ℕ)
  /-- `head_.load()` in the condition of reuse -/
  | checkHead (ticket : ℕ) (entry : RingEntry)
  /-- `target.compare_exchange_weak(entry, ..)` -/
  | exchange (ticket : ℕ) (entry : RingEntry)
  /-- `threshold_.load()` -/
  | loadThreshold
  /-- `threshold_.store(initial_threshold())` -/
  | storeThreshold
  deriving DecidableEq

/-- Where `try_dequeue` stands. -/
inductive DequeuePhase
  /-- `threshold_.load()` -/
  | loadThreshold
  /-- `head_.fetch_add(1)` -/
  | draw
  /-- `target.load()` -/
  | load (ticket attempts : ℕ)
  /-- `target.compare_exchange_weak(entry, replacement)` -/
  | exchange (ticket attempts : ℕ) (entry replacement : RingEntry)
  /-- `target.fetch_or(ring_mask_)` -/
  | claim (ticket : ℕ) (entry : RingEntry)
  /-- `tail_.load()` -/
  | loadTail (ticket : ℕ)
  /-- `threshold_.fetch_sub(1) <= 0` -/
  | decrement
  /-- `catch_up`: `tail_.compare_exchange_weak(tail, head)`, then the loads of its loop -/
  | catchUp (tail head : ℕ)
  | catchHead
  | catchTail (head : ℕ)
  /-- `threshold_.fetch_sub(1)` before `return std::nullopt` -/
  | decrementLast
  deriving DecidableEq

/-- `enqueue` reads the entry of its ticket: by a load or by an exchange that fails. -/
inductive EnqueuePhase.Reads (ticket : ℕ) : EnqueuePhase → Prop
  | load : Reads ticket (.load ticket)
  | exchange (entry : RingEntry) : Reads ticket (.exchange ticket entry)

/-- `try_dequeue` reads the entry of its ticket. -/
inductive DequeuePhase.Reads (ticket : ℕ) : DequeuePhase → Prop
  | load (attempts : ℕ) : Reads ticket (.load ticket attempts)
  | exchange (attempts : ℕ) (entry replacement : RingEntry) :
      Reads ticket (.exchange ticket attempts entry replacement)

/-- What an operation has returned. -/
inductive RingReturn
  | enqueued
  | dequeued (index : Option ℕ)
  deriving DecidableEq

/-- Where a thread stands; `call` is the number of the call it is in. -/
inductive RingLoc
  | outside (last : Option RingReturn)
  | enqueue (index call : ℕ) (phase : EnqueuePhase)
  | tryDequeue (call : ℕ) (phase : DequeuePhase)
  deriving DecidableEq

/-- The choices a step can depend on. -/
inductive RingChoice (T : Type)
  | enqueue (index : ℕ)
  | tryDequeue
  /-- the holder passes an index to another thread -/
  | hand (index : ℕ) (other : T)
  /-- the next step; `flag` lets an exchange fail spuriously -/
  | go (flag : Bool)
  deriving DecidableEq

namespace RingMem

variable {T : Type}

/-- Records a call of `enqueue`. -/
@[simps]
def callEnqueue (m : RingMem T) (i : ℕ) : RingMem T :=
  { m with
    holder := Function.update m.holder i none
    trace :=
      { m.trace with
        clock := m.trace.clock + 1
        calls := Function.update m.trace.calls i (m.trace.calls i ++ [m.trace.clock])
        tails := Function.update m.trace.tails i (m.trace.tails i ++ [m.tail]) } }

/-- One step of the clock of the trace. -/
@[simps]
def tick (m : RingMem T) : RingMem T :=
  { m with trace := { m.trace with clock := m.trace.clock + 1 } }

/-- Writes who holds an index. -/
@[simps]
def setHolder (m : RingMem T) (i : ℕ) (t : T) : RingMem T :=
  { m with holder := Function.update m.holder i (some t) }

/-- Stores `tail_`. -/
@[simps]
def setTail (m : RingMem T) (tail : ℕ) : RingMem T := { m with tail := tail }

/-- Stores `threshold_`. -/
@[simps]
def setThreshold (m : RingMem T) (threshold : ℤ) : RingMem T := { m with threshold := threshold }

/-- A call of `try_dequeue` draws the next head ticket. -/
@[simps]
def drawHead (m : RingMem T) (call : ℕ) : RingMem T :=
  { m with
    head := m.head + 1
    trace := { m.trace with starts := Function.update m.trace.starts m.head call } }

/-- A tail ticket is given up because of `entry`. -/
@[simps]
def giveUp (m : RingMem T) (ticket : ℕ) (entry : RingEntry) : RingMem T :=
  { m with trace := { m.trace with blame := Function.update m.trace.blame ticket entry.index } }

/-- A head ticket is done with. -/
@[simps]
def leave (m : RingMem T) (ticket : ℕ) : RingMem T :=
  { m with trace := { m.trace with left := Function.update m.trace.left ticket true } }

/-- Stores an entry. -/
@[simps]
def setEntry (m : RingMem T) (slot : ℕ) (entry : RingEntry) : RingMem T :=
  { m with entries := Function.update m.entries slot entry }

/-- Index `i` has been stored with a tail ticket. -/
@[simps]
def recordPlaced (m : RingMem T) (i ticket : ℕ) : RingMem T :=
  { m with
    trace := { m.trace with
      placed := Function.update m.trace.placed i (m.trace.placed i ++ [ticket]) } }

/-- A call of `enqueue` returns. -/
@[simps]
def complete (m : RingMem T) (call : ℕ) : RingMem T :=
  { m with
    trace :=
      { m.trace with
        clock := m.trace.clock + 1
        completed := m.trace.completed ++ [(call, m.trace.clock)] } }

/-- A call of `try_dequeue` returns index `i` to thread `t`. -/
@[simps]
def give (m : RingMem T) (call i : ℕ) (t : T) : RingMem T :=
  { m with
    holder := Function.update m.holder i (some t)
    trace :=
      { m.trace with
        clock := m.trace.clock + 1
        returns := Function.update m.trace.returns i
          (m.trace.returns i ++ [(call, m.trace.clock)]) } }

end RingMem

namespace RingThreads

variable {T : Type} (n : ℕ)

/-- `ring_size_`, for a ring of capacity `n`. -/
def ringSize : ℕ := n * 2

/-- `map`. -/
def slot (ticket : ℕ) : ℕ := ticket &&& (ringSize n - 1)

/-- The cycle in `(ticket << 1) | cycle_mask()`. -/
def cycle (ticket : ℕ) : ℤ := (ticket / ringSize n : ℕ)

/-- `initial_threshold`. -/
def initialThreshold : ℤ := n + ringSize n - 1

/-- What `enqueue` does next about the entry it has read: it exchanges the entry, it has to look
at `head_` first, or the entry is not reusable. -/
def reuse (ticket : ℕ) (entry : RingEntry) : EnqueuePhase :=
  if entry.cycle < cycle n ticket ∧ entry.index = none then
    if entry.safe then .exchange ticket entry else .checkHead ticket entry
  else .draw

/-- The same, with the record of a ticket that is given up. -/
def tryReuse (m : RingMem T) (ticket : ℕ) (entry : RingEntry) : RingMem T × EnqueuePhase :=
  (if reuse n ticket entry = .draw then m.giveUp ticket entry else m, reuse n ticket entry)

/-- What `try_dequeue` does next about the entry it has read. -/
def examine (ticket attempts : ℕ) (entry : RingEntry) : DequeuePhase :=
  if entry.cycle = cycle n ticket then .claim ticket entry
  else if entry.index ≠ none then
    if entry.safe = false then .loadTail ticket
    else if entry.cycle < cycle n ticket then
      .exchange ticket attempts entry { entry with safe := false }
    else .loadTail ticket
  else if attempts + 1 ≤ IndexRing.catchupAttempts then .load ticket (attempts + 1)
  else if entry.cycle < cycle n ticket then
    .exchange ticket (attempts + 1) entry ⟨cycle n ticket, entry.safe, none⟩
  else .loadTail ticket

/-- The same, with the record of a ticket that is done with. -/
def tryClaim (m : RingMem T) (ticket attempts : ℕ) (entry : RingEntry) :
    RingMem T × DequeuePhase :=
  (if examine n ticket attempts entry = .loadTail ticket then m.leave ticket else m,
    examine n ticket attempts entry)

/-- `enqueue`. -/
def stepEnqueue (m : RingMem T) (i call : ℕ) (flag : Bool) : EnqueuePhase → RingMem T × RingLoc
  | .draw => (m.setTail (m.tail + 1), .enqueue i call (.load m.tail))
  | .load ticket =>
      let r := tryReuse n m ticket (m.entries (slot n ticket))
      (r.1, .enqueue i call r.2)
  | .checkHead ticket entry =>
      if m.head ≤ ticket then (m, .enqueue i call (.exchange ticket entry))
      else (m, .enqueue i call .draw)
  | .exchange ticket entry =>
      if m.entries (slot n ticket) = entry ∧ flag = false then
        ((m.setEntry (slot n ticket) ⟨cycle n ticket, true, some i⟩).recordPlaced i ticket,
          .enqueue i call .loadThreshold)
      else
        let r := tryReuse n m ticket (m.entries (slot n ticket))
        (r.1, .enqueue i call r.2)
  | .loadThreshold =>
      if m.threshold ≠ initialThreshold n then (m, .enqueue i call .storeThreshold)
      else (m.complete call, .outside (some .enqueued))
  | .storeThreshold =>
      ((m.setThreshold (initialThreshold n)).complete call, .outside (some .enqueued))

/-- `try_dequeue`. -/
def stepDequeue (t : T) (m : RingMem T) (call : ℕ) (flag : Bool) :
    DequeuePhase → RingMem T × RingLoc
  | .loadThreshold =>
      if m.threshold < 0 then (m.tick, .outside (some (.dequeued none)))
      else (m, .tryDequeue call .draw)
  | .draw => (m.drawHead call, .tryDequeue call (.load m.head 0))
  | .load ticket attempts =>
      let r := tryClaim n m ticket attempts (m.entries (slot n ticket))
      (r.1, .tryDequeue call r.2)
  | .exchange ticket attempts entry replacement =>
      if m.entries (slot n ticket) = entry ∧ flag = false then
        ((m.setEntry (slot n ticket) replacement).leave ticket, .tryDequeue call (.loadTail ticket))
      else
        let r := tryClaim n m ticket attempts (m.entries (slot n ticket))
        (r.1, .tryDequeue call r.2)
  | .claim ticket entry =>
      let index := entry.index.getD (ringSize n - 1)
      (((m.setEntry (slot n ticket) { m.entries (slot n ticket) with index := none }).leave
        ticket).give call index t, .outside (some (.dequeued (some index))))
  | .loadTail ticket =>
      if m.tail ≤ ticket + 1 then (m, .tryDequeue call (.catchUp m.tail (ticket + 1)))
      else (m, .tryDequeue call .decrement)
  | .decrement =>
      if m.threshold ≤ 0 then
        ((m.setThreshold (m.threshold - 1)).tick, .outside (some (.dequeued none)))
      else (m.setThreshold (m.threshold - 1), .tryDequeue call .draw)
  | .catchUp tail head =>
      if m.tail = tail ∧ flag = false then (m.setTail head, .tryDequeue call .decrementLast)
      else (m, .tryDequeue call .catchHead)
  | .catchHead => (m, .tryDequeue call (.catchTail m.head))
  | .catchTail head =>
      if m.tail < head then (m, .tryDequeue call (.catchUp m.tail head))
      else (m, .tryDequeue call .decrementLast)
  | .decrementLast =>
      ((m.setThreshold (m.threshold - 1)).tick, .outside (some (.dequeued none)))

variable [DecidableEq T]

/-- One atomic step.  The client enqueues only an index below the capacity that it holds. -/
def step (t : T) (c : RingChoice T) (m : RingMem T) : RingLoc → Option (RingMem T × RingLoc)
  | .outside last =>
      match c with
      | .enqueue i =>
          if m.holder i = some t ∧ i < n then
            some (m.callEnqueue i, .enqueue i m.trace.clock .draw)
          else none
      | .tryDequeue => some (m.tick, .tryDequeue m.trace.clock .loadThreshold)
      | .hand i u => if m.holder i = some t then some (m.setHolder i u, .outside last) else none
      | .go _ => none
  | .enqueue i call phase =>
      match c with
      | .go flag => some (stepEnqueue n m i call flag phase)
      | _ => none
  | .tryDequeue call phase =>
      match c with
      | .go flag => some (stepDequeue n t m call flag phase)
      | _ => none

/-- `initialize_empty`: every index is held by some thread. -/
def initializeEmpty (holder : ℕ → T) : RingMem T where
  entries := fun _ => ⟨-1, true, none⟩
  head := 0
  tail := 0
  threshold := -1
  holder := fun i => some (holder i)
  trace := ⟨1, fun _ => [], [], fun _ => [], fun _ => [], fun _ => [], fun _ => 0, fun _ => false,
    fun _ => none⟩

/-- `initialize_full`: every index is inside, as if its `enqueue` had returned at time 0. -/
def initializeFull : RingMem T where
  entries := fun j => if j < n then ⟨0, true, some j⟩ else ⟨-1, true, none⟩
  head := 0
  tail := n
  threshold := initialThreshold n
  holder := fun _ => none
  trace := ⟨1, fun i => if i < n then [0] else [], [(0, 0)], fun _ => [],
    fun i => if i < n then [0] else [], fun i => if i < n then [i] else [], fun _ => 0,
    fun _ => false, fun _ => none⟩

/-- A new ring. -/
def Fresh (m : RingMem T) : Prop := (∃ holder, m = initializeEmpty holder) ∨ m = initializeFull n

/-- Threads that use one ring. -/
def system : System (Config T (RingMem T) RingLoc) (T × RingChoice T) :=
  interleave (step n) fun s => Fresh n s.mem ∧ ∀ t, s.loc t = .outside none

/-- The steps of a thread. -/
inductive RingStep {T : Type} (n : ℕ) (t : T) (m : RingMem T) : RingLoc → RingMem T → RingLoc → Prop
  | callEnqueue (last : Option RingReturn) (i : ℕ) (hheld : m.holder i = some t) (hi : i < n) :
      RingStep n t m (.outside last) (m.callEnqueue i) (.enqueue i m.trace.clock .draw)
  | callDequeue (last : Option RingReturn) :
      RingStep n t m (.outside last) m.tick (.tryDequeue m.trace.clock .loadThreshold)
  | hand (last : Option RingReturn) (i : ℕ) (u : T) (hheld : m.holder i = some t) :
      RingStep n t m (.outside last) (m.setHolder i u) (.outside last)
  -- `enqueue`
  | drawTail (i call : ℕ) :
      RingStep n t m (.enqueue i call .draw) (m.setTail (m.tail + 1))
        (.enqueue i call (.load m.tail))
  | giveUp (i call ticket : ℕ) {phase : EnqueuePhase} (hreads : phase.Reads ticket)
      (hnot : (m.entries (slot n ticket)).index = none →
        cycle n ticket ≤ (m.entries (slot n ticket)).cycle) :
      RingStep n t m (.enqueue i call phase) (m.giveUp ticket (m.entries (slot n ticket)))
        (.enqueue i call .draw)
  | reuseSafe (i call ticket : ℕ) {phase : EnqueuePhase} (hreads : phase.Reads ticket)
      (hcycle : (m.entries (slot n ticket)).cycle < cycle n ticket)
      (hindex : (m.entries (slot n ticket)).index = none)
      (hsafe : (m.entries (slot n ticket)).safe = true) :
      RingStep n t m (.enqueue i call phase) m
        (.enqueue i call (.exchange ticket (m.entries (slot n ticket))))
  | reuseUnsafe (i call ticket : ℕ) {phase : EnqueuePhase} (hreads : phase.Reads ticket)
      (hcycle : (m.entries (slot n ticket)).cycle < cycle n ticket)
      (hindex : (m.entries (slot n ticket)).index = none) :
      RingStep n t m (.enqueue i call phase) m
        (.enqueue i call (.checkHead ticket (m.entries (slot n ticket))))
  | headBehind (i call ticket : ℕ) (entry : RingEntry) (hhead : m.head ≤ ticket) :
      RingStep n t m (.enqueue i call (.checkHead ticket entry)) m
        (.enqueue i call (.exchange ticket entry))
  | headAhead (i call ticket : ℕ) (entry : RingEntry) (hhead : ticket < m.head) :
      RingStep n t m (.enqueue i call (.checkHead ticket entry)) m (.enqueue i call .draw)
  | place (i call ticket : ℕ) (entry : RingEntry) (hsame : m.entries (slot n ticket) = entry) :
      RingStep n t m (.enqueue i call (.exchange ticket entry))
        ((m.setEntry (slot n ticket) ⟨cycle n ticket, true, some i⟩).recordPlaced i ticket)
        (.enqueue i call .loadThreshold)
  | disarmed (i call : ℕ) :
      RingStep n t m (.enqueue i call .loadThreshold) m (.enqueue i call .storeThreshold)
  | armed (i call : ℕ) (hthreshold : m.threshold = initialThreshold n) :
      RingStep n t m (.enqueue i call .loadThreshold) (m.complete call) (.outside (some .enqueued))
  | arm (i call : ℕ) :
      RingStep n t m (.enqueue i call .storeThreshold)
        ((m.setThreshold (initialThreshold n)).complete call) (.outside (some .enqueued))
  -- `try_dequeue`
  | exhausted (call : ℕ) (hthreshold : m.threshold < 0) :
      RingStep n t m (.tryDequeue call .loadThreshold) m.tick (.outside (some (.dequeued none)))
  | begin (call : ℕ) :
      RingStep n t m (.tryDequeue call .loadThreshold) m (.tryDequeue call .draw)
  | drawHead (call : ℕ) :
      RingStep n t m (.tryDequeue call .draw) (m.drawHead call) (.tryDequeue call (.load m.head 0))
  | found (call ticket : ℕ) {phase : DequeuePhase} (hreads : phase.Reads ticket)
      (hcycle : (m.entries (slot n ticket)).cycle = cycle n ticket) :
      RingStep n t m (.tryDequeue call phase) m
        (.tryDequeue call (.claim ticket (m.entries (slot n ticket))))
  | occupied (call ticket attempts : ℕ) {phase : DequeuePhase} (hreads : phase.Reads ticket)
      (hcycle : (m.entries (slot n ticket)).cycle < cycle n ticket)
      (hindex : (m.entries (slot n ticket)).index ≠ none) :
      RingStep n t m (.tryDequeue call phase) m
        (.tryDequeue call (.exchange ticket attempts (m.entries (slot n ticket))
          { m.entries (slot n ticket) with safe := false }))
  | vacant (call ticket attempts : ℕ) {phase : DequeuePhase} (hreads : phase.Reads ticket)
      (hcycle : (m.entries (slot n ticket)).cycle < cycle n ticket)
      (hindex : (m.entries (slot n ticket)).index = none) :
      RingStep n t m (.tryDequeue call phase) m
        (.tryDequeue call (.exchange ticket attempts (m.entries (slot n ticket))
          ⟨cycle n ticket, (m.entries (slot n ticket)).safe, none⟩))
  | spin (call ticket attempts : ℕ) {phase : DequeuePhase} (hreads : phase.Reads ticket)
      (hother : (m.entries (slot n ticket)).cycle ≠ cycle n ticket) :
      RingStep n t m (.tryDequeue call phase) m (.tryDequeue call (.load ticket attempts))
  | leave (call ticket : ℕ) {phase : DequeuePhase} (hreads : phase.Reads ticket)
      (hother : (m.entries (slot n ticket)).cycle ≠ cycle n ticket)
      (hwhy : (m.entries (slot n ticket)).index ≠ none ∧
          (m.entries (slot n ticket)).safe = false ∨
        cycle n ticket ≤ (m.entries (slot n ticket)).cycle) :
      RingStep n t m (.tryDequeue call phase) (m.leave ticket) (.tryDequeue call (.loadTail ticket))
  | replace (call ticket attempts : ℕ) (entry replacement : RingEntry)
      (hsame : m.entries (slot n ticket) = entry) :
      RingStep n t m (.tryDequeue call (.exchange ticket attempts entry replacement))
        ((m.setEntry (slot n ticket) replacement).leave ticket) (.tryDequeue call (.loadTail ticket))
  | takeOut (call ticket : ℕ) (entry : RingEntry) :
      RingStep n t m (.tryDequeue call (.claim ticket entry))
        (((m.setEntry (slot n ticket) { m.entries (slot n ticket) with index := none }).leave
          ticket).give call (entry.index.getD (ringSize n - 1)) t)
        (.outside (some (.dequeued (some (entry.index.getD (ringSize n - 1))))))
  | tailBehind (call ticket : ℕ) (htail : m.tail ≤ ticket + 1) :
      RingStep n t m (.tryDequeue call (.loadTail ticket)) m
        (.tryDequeue call (.catchUp m.tail (ticket + 1)))
  | tailAhead (call ticket : ℕ) :
      RingStep n t m (.tryDequeue call (.loadTail ticket)) m (.tryDequeue call .decrement)
  | decrementOut (call : ℕ) (hthreshold : m.threshold ≤ 0) :
      RingStep n t m (.tryDequeue call .decrement) (m.setThreshold (m.threshold - 1)).tick
        (.outside (some (.dequeued none)))
  | decrementOn (call : ℕ) :
      RingStep n t m (.tryDequeue call .decrement) (m.setThreshold (m.threshold - 1))
        (.tryDequeue call .draw)
  | caughtUp (call tail head : ℕ) (htail : m.tail = tail) :
      RingStep n t m (.tryDequeue call (.catchUp tail head)) (m.setTail head)
        (.tryDequeue call .decrementLast)
  | catchAgain (call tail head : ℕ) :
      RingStep n t m (.tryDequeue call (.catchUp tail head)) m (.tryDequeue call .catchHead)
  | catchHead (call : ℕ) :
      RingStep n t m (.tryDequeue call .catchHead) m (.tryDequeue call (.catchTail m.head))
  | catchTail (call head : ℕ) (htail : m.tail < head) :
      RingStep n t m (.tryDequeue call (.catchTail head)) m
        (.tryDequeue call (.catchUp m.tail head))
  | catchDone (call head : ℕ) :
      RingStep n t m (.tryDequeue call (.catchTail head)) m (.tryDequeue call .decrementLast)
  | decrementLast (call : ℕ) :
      RingStep n t m (.tryDequeue call .decrementLast) (m.setThreshold (m.threshold - 1)).tick
        (.outside (some (.dequeued none)))

section Sound

variable {T : Type} {n : ℕ} {t : T} {m m' : RingMem T} {l l' : RingLoc}

/-- **Step lemma**, for the exchange of `enqueue`. -/
theorem tryReuse_sound {i call ticket : ℕ} {phase : EnqueuePhase} (hreads : phase.Reads ticket) :
    RingStep n t m (.enqueue i call phase) (tryReuse n m ticket (m.entries (slot n ticket))).1
      (.enqueue i call (tryReuse n m ticket (m.entries (slot n ticket))).2) := by
  unfold tryReuse reuse
  by_cases hreuse : (m.entries (slot n ticket)).cycle < cycle n ticket ∧
      (m.entries (slot n ticket)).index = none
  · cases hsafe : (m.entries (slot n ticket)).safe with
    | true => simpa [hreuse, hsafe] using .reuseSafe i call ticket hreads hreuse.1 hreuse.2 hsafe
    | false => simpa [hreuse, hsafe] using .reuseUnsafe i call ticket hreads hreuse.1 hreuse.2
  · have hnot : (m.entries (slot n ticket)).index = none →
        cycle n ticket ≤ (m.entries (slot n ticket)).cycle := by
      intro hindex
      by_contra hlt
      exact hreuse ⟨not_le.mp hlt, hindex⟩
    simpa [hreuse] using .giveUp i call ticket hreads hnot

/-- **Step lemma**, for the exchange of `try_dequeue`. -/
theorem tryClaim_sound {call ticket attempts : ℕ} {phase : DequeuePhase}
    (hreads : phase.Reads ticket) :
    RingStep n t m (.tryDequeue call phase)
      (tryClaim n m ticket attempts (m.entries (slot n ticket))).1
      (.tryDequeue call (tryClaim n m ticket attempts (m.entries (slot n ticket))).2) := by
  unfold tryClaim examine
  by_cases hcycle : (m.entries (slot n ticket)).cycle = cycle n ticket
  · simpa [hcycle] using .found call ticket hreads hcycle
  · by_cases hindex : (m.entries (slot n ticket)).index = none
    · by_cases hattempts : attempts + 1 ≤ IndexRing.catchupAttempts
      · simpa [hcycle, hindex, hattempts] using
          .spin call ticket (attempts + 1) hreads hcycle
      · by_cases hlt : (m.entries (slot n ticket)).cycle < cycle n ticket
        · simpa [hcycle, hindex, hattempts, hlt] using
            .vacant call ticket (attempts + 1) hreads hlt hindex
        · simpa [hcycle, hindex, hattempts, hlt] using
            .leave call ticket hreads hcycle (.inr (not_lt.mp hlt))
    · cases hsafe : (m.entries (slot n ticket)).safe with
      | false =>
          simpa [hcycle, hindex, hsafe] using
            .leave call ticket hreads hcycle (.inl ⟨hindex, hsafe⟩)
      | true =>
          by_cases hlt : (m.entries (slot n ticket)).cycle < cycle n ticket
          · simpa [hcycle, hindex, hsafe, hlt] using
              .occupied call ticket attempts hreads hlt hindex
          · simpa [hcycle, hindex, hsafe, hlt] using
              .leave call ticket hreads hcycle (.inr (not_lt.mp hlt))

/-- **Step lemma**, for `enqueue`. -/
theorem stepEnqueue_sound {i call : ℕ} {flag : Bool} {phase : EnqueuePhase} :
    RingStep n t m (.enqueue i call phase) (stepEnqueue n m i call flag phase).1
      (stepEnqueue n m i call flag phase).2 := by
  cases phase with
  | draw => exact .drawTail i call
  | load ticket => exact tryReuse_sound (.load)
  | checkHead ticket entry =>
      by_cases hhead : m.head ≤ ticket
      · simpa [stepEnqueue, hhead] using .headBehind i call ticket entry hhead
      · simpa [stepEnqueue, hhead] using .headAhead i call ticket entry (not_le.mp hhead)
  | exchange ticket entry =>
      by_cases hsame : m.entries (slot n ticket) = entry ∧ flag = false
      · simpa only [stepEnqueue, if_pos hsame] using .place i call ticket entry hsame.1
      · simpa only [stepEnqueue, if_neg hsame] using tryReuse_sound (.exchange entry)
  | loadThreshold =>
      by_cases harmed : m.threshold = initialThreshold n
      · simpa [stepEnqueue, harmed] using .armed i call harmed
      · simpa [stepEnqueue, harmed] using .disarmed i call
  | storeThreshold => exact .arm i call

/-- **Step lemma**, for `try_dequeue`. -/
theorem stepDequeue_sound {call : ℕ} {flag : Bool} {phase : DequeuePhase} :
    RingStep n t m (.tryDequeue call phase) (stepDequeue n t m call flag phase).1
      (stepDequeue n t m call flag phase).2 := by
  cases phase with
  | loadThreshold =>
      by_cases hlow : m.threshold < 0
      · simpa [stepDequeue, hlow] using .exhausted call hlow
      · simpa [stepDequeue, hlow] using .begin call
  | draw => exact .drawHead call
  | load ticket attempts => exact tryClaim_sound (.load attempts)
  | exchange ticket attempts entry replacement =>
      by_cases hsame : m.entries (slot n ticket) = entry ∧ flag = false
      · simpa only [stepDequeue, if_pos hsame] using
          .replace call ticket attempts entry replacement hsame.1
      · simpa only [stepDequeue, if_neg hsame] using
          tryClaim_sound (.exchange attempts entry replacement)
  | claim ticket entry => exact .takeOut call ticket entry
  | loadTail ticket =>
      by_cases htail : m.tail ≤ ticket + 1
      · simpa [stepDequeue, htail] using .tailBehind call ticket htail
      · simpa [stepDequeue, htail] using .tailAhead call ticket
  | decrement =>
      by_cases hlow : m.threshold ≤ 0
      · simpa [stepDequeue, hlow] using .decrementOut call hlow
      · simpa [stepDequeue, hlow] using .decrementOn call
  | catchUp tail head =>
      by_cases hsame : m.tail = tail ∧ flag = false
      · simpa only [stepDequeue, if_pos hsame] using .caughtUp call tail head hsame.1
      · simpa only [stepDequeue, if_neg hsame] using .catchAgain call tail head
  | catchHead => exact .catchHead call
  | catchTail head =>
      by_cases htail : m.tail < head
      · simpa [stepDequeue, htail] using .catchTail call head htail
      · simpa [stepDequeue, htail] using .catchDone call head
  | decrementLast => exact .decrementLast call

/-- **What a step can do.** -/
theorem step_sound [DecidableEq T] {c : RingChoice T} (h : step n t c m l = some (m', l')) :
    RingStep n t m l m' l' := by
  cases l with
  | outside last =>
      cases c with
      | enqueue i =>
          obtain ⟨hheld, heq⟩ := Option.ite_none_right_eq_some.mp h
          cases heq
          exact .callEnqueue last i hheld.1 hheld.2
      | tryDequeue =>
          cases h
          exact .callDequeue last
      | hand i u =>
          obtain ⟨hheld, heq⟩ := Option.ite_none_right_eq_some.mp h
          cases heq
          exact .hand last i u hheld
      | go flag => cases h
  | enqueue i call phase =>
      cases c with
      | go flag =>
          obtain rfl : (stepEnqueue n m i call flag phase).1 = m' :=
            congrArg Prod.fst (Option.some.inj h)
          obtain rfl : (stepEnqueue n m i call flag phase).2 = l' :=
            congrArg Prod.snd (Option.some.inj h)
          exact stepEnqueue_sound
      | _ => cases h
  | tryDequeue call phase =>
      cases c with
      | go flag =>
          obtain rfl : (stepDequeue n t m call flag phase).1 = m' :=
            congrArg Prod.fst (Option.some.inj h)
          obtain rfl : (stepDequeue n t m call flag phase).2 = l' :=
            congrArg Prod.snd (Option.some.inj h)
          exact stepDequeue_sound
      | _ => cases h

end Sound

end RingThreads

end EventDispatcher
