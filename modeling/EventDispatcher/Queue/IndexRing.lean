import EventDispatcher.Queue.OperationGate

/-!
# `scalable_circular_index_queue` at machine-word level

Entries and tickets are 64-bit words, the threshold is a signed one, and all
arithmetic wraps.  An entry packs a cycle tag, a safe bit and an index: with
`ring_size = 2 * capacity` the index takes the bits below `ring_size`, the safe
bit is `ring_size` itself and the tag is what lies above.

The functions here execute one operation at a time, so a `compare_exchange_weak`
finds the value that was just loaded; a spurious failure would only repeat its
round.  The loops of the source take fuel.
-/

namespace EventDispatcher

/-- `left - right` as `std::size_t`. -/
def wordSub (left right : ℕ) : ℕ := (left + (wordSize - right)) % wordSize

/-- `static_cast<std::intptr_t>`. -/
def toSigned (w : ℕ) : ℤ := if w < 2 ^ 63 then w else (w : ℤ) - 2 ^ 64

/-- `fetch_sub(1)` on a `std::intptr_t`. -/
def signedDec (t : ℤ) : ℤ := (t - 1).bmod wordSize

/-- `~w`. -/
def wordNot (w : ℕ) : ℕ := wordSize - 1 - w

/-- `scalable_circular_index_queue`. -/
structure IndexRing where
  capacity : ℕ
  entries : ℕ → ℕ
  head : ℕ
  threshold : ℤ
  tail : ℕ

namespace IndexRing

/-- `catchup_attempts`. -/
def catchupAttempts : ℕ := 10000

/-- `ring_size_`. -/
def ringSize (capacity : ℕ) : ℕ := capacity * 2 % wordSize

/-- `ring_mask_`. -/
def ringMask (capacity : ℕ) : ℕ := wordSub (ringSize capacity) 1

/-- `cycle_mask`. -/
def cycleMask (capacity : ℕ) : ℕ := wordSub (ringSize capacity * 2 % wordSize) 1

/-- `initial_threshold`. -/
def initialThreshold (capacity : ℕ) : ℤ :=
  toSigned (wordSub ((capacity + ringSize capacity) % wordSize) 1)

/-- `before`. -/
def before (left right : ℕ) : Bool := decide (toSigned (wordSub left right) < 0)

/-- `before_or_equal`. -/
def beforeOrEqual (left right : ℕ) : Bool := decide (toSigned (wordSub left right) ≤ 0)

/-- `map`. -/
def map (capacity index : ℕ) : ℕ := index &&& ringMask capacity

/-- `(ticket << 1) | cycle_mask()`. -/
def ticketCycle (capacity ticket : ℕ) : ℕ := (ticket <<< 1) % wordSize ||| cycleMask capacity

/-- `initialize_empty`. -/
def initializeEmpty (capacity : ℕ) : IndexRing where
  capacity := capacity
  entries := fun _ => wordSize - 1
  head := 0
  threshold := -1
  tail := 0

/-- `initialize_full`. -/
def initializeFull (capacity : ℕ) : IndexRing where
  capacity := capacity
  entries := fun i => if i < capacity then (ringSize capacity + i) % wordSize else wordSize - 1
  head := 0
  threshold := initialThreshold capacity
  tail := capacity

/-- Whether `enqueue` may overwrite the entry it loaded. -/
def reusable (r : IndexRing) (entry tail : ℕ) : Bool :=
  let entryCycle := entry ||| cycleMask r.capacity
  before entryCycle (ticketCycle r.capacity tail) &&
    (entry == entryCycle ||
      (entry == entryCycle ^^^ ringSize r.capacity && beforeOrEqual r.head tail))

/-- `enqueue(index, false)`. -/
def enqueue (r : IndexRing) (index : ℕ) : ℕ → Option IndexRing
  | 0 => none
  | fuel + 1 =>
      let encodedIndex := index ^^^ ringMask r.capacity
      let tail := r.tail
      let r := { r with tail := wordInc r.tail }
      let target := map r.capacity tail
      if reusable r (r.entries target) tail then
        some { r with
          entries := Function.update r.entries target
            (ticketCycle r.capacity tail ^^^ encodedIndex)
          threshold := if r.threshold = initialThreshold r.capacity then r.threshold
            else initialThreshold r.capacity }
      else enqueue r index fuel

/-- What the inner loop of `try_dequeue` comes to for one head ticket. -/
inductive Claim
  /-- `return entry & ring_mask_` -/
  | index (value : ℕ)
  /-- `break` -/
  | missed
  deriving DecidableEq

/-- The inner loop of `try_dequeue` for one head ticket. -/
def claimLoop (r : IndexRing) (head : ℕ) (attempts : ℕ) : ℕ → Option (IndexRing × Claim)
  | 0 => none
  | fuel + 1 =>
      let headCycle := ticketCycle r.capacity head
      let target := map r.capacity head
      let entry := r.entries target
      let entryCycle := entry ||| cycleMask r.capacity
      if entryCycle = headCycle then
        some ({ r with
          entries := Function.update r.entries target (entry ||| ringMask r.capacity) },
          .index (entry &&& ringMask r.capacity))
      else if entry ||| ringSize r.capacity ≠ entryCycle then
        let replacement := entry &&& wordNot (ringSize r.capacity)
        if entry = replacement then some (r, .missed)
        else if before entryCycle headCycle then
          some ({ r with entries := Function.update r.entries target replacement }, .missed)
        else some (r, .missed)
      else if attempts + 1 ≤ catchupAttempts then claimLoop r head (attempts + 1) fuel
      else
        let replacement := headCycle ^^^ (wordNot entry &&& ringSize r.capacity)
        if before entryCycle headCycle then
          some ({ r with entries := Function.update r.entries target replacement }, .missed)
        else some (r, .missed)

/-- `catch_up(tail, head)`: its first exchange finds the tail it was given. -/
def catchUp (r : IndexRing) (tail head : ℕ) : IndexRing :=
  if r.tail = tail then { r with tail := head } else r

/-- The outer loop of `try_dequeue(false)`. -/
def dequeueLoop (r : IndexRing) : ℕ → Option (IndexRing × Option ℕ)
  | 0 => none
  | fuel + 1 =>
      let head := r.head
      match claimLoop { r with head := wordInc r.head } head 0 (catchupAttempts + 1) with
      | none => none
      | some (r, .index value) => some (r, some value)
      | some (r, .missed) =>
          if beforeOrEqual r.tail (wordInc head) then
            let r := catchUp r r.tail (wordInc head)
            some ({ r with threshold := signedDec r.threshold }, none)
          else if r.threshold ≤ 0 then
            some ({ r with threshold := signedDec r.threshold }, none)
          else dequeueLoop { r with threshold := signedDec r.threshold } fuel

/-- `try_dequeue(false)`. -/
def tryDequeue (r : IndexRing) (fuel : ℕ) : Option (IndexRing × Option ℕ) :=
  if r.threshold < 0 then some (r, none) else dequeueLoop r fuel

end IndexRing

end EventDispatcher
