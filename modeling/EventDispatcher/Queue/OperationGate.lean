import Mathlib

/-!
# The gate word of `operation_guard` and `close_gate`

A gate is one `std::size_t`: its top bit says that the gate is closed, the other
bits count the guards that have entered.  `GateMove` lists what one atomic
operation on a gate can do; under `GateInv` the count never carries into the
closed bit, and once the word is the bare closed bit it stays so.
-/

namespace EventDispatcher

/-- Number of values of a `std::size_t`. -/
@[irreducible]
def wordSize : ℕ := 2 ^ 64

/-- `fetch_add(1)`. -/
def wordInc (w : ℕ) : ℕ := (w + 1) % wordSize

/-- `fetch_sub(1)`. -/
def wordDec (w : ℕ) : ℕ := if w = 0 then wordSize - 1 else w - 1

/-- An increment without a carry. -/
theorem wordInc_of_lt {w : ℕ} (h : w + 1 < wordSize) : wordInc w = w + 1 :=
  Nat.mod_eq_of_lt h

/-- A decrement without a borrow. -/
theorem wordDec_succ (w : ℕ) : wordDec (w + 1) = w := rfl

namespace OperationGate

/-- `closed_bit`. -/
def closedBit : ℕ := 2 ^ 63

/-- `active_mask`. -/
def activeMask : ℕ := closedBit - 1

/-- `(state & closed_bit) != 0`. -/
def isClosed (state : ℕ) : Bool := (state &&& closedBit) != 0

/-- `state & active_mask`. -/
def active (state : ℕ) : ℕ := state &&& activeMask

/-- `fetch_or(closed_bit)`. -/
def shut (state : ℕ) : ℕ := state ||| closedBit

/-- What a guard's constructor does with the state it has just read. -/
inductive GuardNext
  | refused
  | terminate
  | tryEnter
  deriving DecidableEq

/-- The loop condition and the overflow check of `operation_guard`. -/
def guardNext (state : ℕ) : GuardNext :=
  if isClosed state then .refused
  else if active state = activeMask then .terminate
  else .tryEnter

/-- A state that lets a guard try to enter. -/
abbrev OpenState : Type := { state : ℕ // guardNext state = .tryEnter }

/-- One round of the constructor's loop, once `state` has been loaded: it gives up,
goes on to the exchange, or terminates the program. -/
def guardLoop {R : Type} (state : ℕ) (refused : R) (exchange : OpenState → R) : Option R :=
  if h : guardNext state = .tryEnter then some (exchange ⟨state, h⟩)
  else if isClosed state then some refused
  else none

/-- A guard is refused by a closed gate, or goes on to its exchange. -/
theorem guardLoop_eq_some {R : Type} {state : ℕ} {refused r : R} {exchange : OpenState → R}
    (h : guardLoop state refused exchange = some r) :
    (isClosed state = true ∧ r = refused) ∨ ∃ expected, r = exchange expected := by
  unfold guardLoop at h
  split at h
  · next hnext => exact .inr ⟨⟨state, hnext⟩, (Option.some.inj h).symm⟩
  · split at h
    · next hclosed => exact .inl ⟨hclosed, (Option.some.inj h).symm⟩
    · cases h

/-- The gate word for `n` entered guards. -/
def word (closed : Bool) (n : ℕ) : ℕ := if closed then closedBit + n else n

section Words

variable {n : ℕ}

/-- The closed bit of a gate word. -/
theorem isClosed_word (closed : Bool) (hn : n ≤ activeMask) :
    isClosed (word closed n) = closed := by
  have hlt : n < 2 ^ 63 := by
    unfold activeMask closedBit at hn
    omega
  have hbit := Nat.testBit_eq_false_of_lt hlt
  cases closed with
  | false =>
      show ((n &&& 2 ^ 63) != 0) = false
      rw [Nat.and_two_pow, hbit]
      rfl
  | true =>
      show (((2 ^ 63 + n) &&& 2 ^ 63) != 0) = true
      rw [Nat.and_two_pow, Nat.testBit_two_pow_add_eq, hbit]
      rfl

/-- The guards that a gate word counts. -/
theorem active_word (closed : Bool) (hn : n ≤ activeMask) : active (word closed n) = n := by
  have hlt : n < 2 ^ 63 := by
    unfold activeMask closedBit at hn
    omega
  unfold active activeMask closedBit
  rw [Nat.and_two_pow_sub_one_eq_mod]
  unfold word closedBit
  cases closed with
  | false => exact Nat.mod_eq_of_lt hlt
  | true =>
      rw [if_pos rfl, Nat.add_mod_left]
      exact Nat.mod_eq_of_lt hlt

/-- Setting the closed bit keeps the guards. -/
theorem shut_word (closed : Bool) (hn : n ≤ activeMask) :
    shut (word closed n) = word true n := by
  have hlt : n < 2 ^ 63 := by
    unfold activeMask closedBit at hn
    omega
  have hor : n ||| 2 ^ 63 = 2 ^ 63 + n := by
    rw [Nat.or_comm]
    simpa using (Nat.two_pow_add_eq_or_of_lt hlt 1).symm
  cases closed with
  | false => exact hor
  | true =>
      show (2 ^ 63 + n) ||| 2 ^ 63 = 2 ^ 63 + n
      rw [← hor, Nat.or_assoc, Nat.or_self]

/-- A guard enters only an open gate with room for one more guard. -/
theorem tryEnter_word {closed : Bool} (hn : n ≤ activeMask)
    (hnext : guardNext (word closed n) = .tryEnter) : closed = false ∧ n < activeMask := by
  unfold guardNext at hnext
  rw [isClosed_word closed hn, active_word closed hn] at hnext
  cases closed with
  | true => simp at hnext
  | false =>
      have hne : n ≠ activeMask := by
        intro heq
        simp [heq] at hnext
      exact ⟨rfl, by omega⟩

/-- There is room below the closed bit. -/
theorem wordInc_word (hn : n < activeMask) : wordInc (word false n) = word false (n + 1) := by
  apply wordInc_of_lt
  unfold activeMask closedBit at hn
  unfold word wordSize
  simp only [Bool.false_eq_true, if_false]
  omega

/-- A guard leaves. -/
theorem wordDec_word (closed : Bool) : wordDec (word closed (n + 1)) = word closed n := by
  cases closed with
  | false => exact wordDec_succ n
  | true => exact wordDec_succ (closedBit + n)

end Words

/-- What one atomic operation on a gate can do: `inside` and `inside'` say how
many guards its thread has entered before and after. -/
inductive GateMove : ℕ → ℕ → ℕ → ℕ → Prop
  | quiet (w inside : ℕ) : GateMove w inside w inside
  | enter (w : ℕ) (hnext : guardNext w = .tryEnter) : GateMove w 0 (wordInc w) 1
  | leave (w : ℕ) : GateMove w 1 (wordDec w) 0
  | shut (w inside : ℕ) : GateMove w inside (shut w) inside

/-- The gate word counts `n` guards. -/
def GateInv (w n : ℕ) : Prop := n ≤ activeMask ∧ ∃ closed, w = word closed n

/-- A gate begins open and empty. -/
theorem gateInv_init : GateInv 0 0 := ⟨Nat.zero_le _, false, rfl⟩

/-- A guard enters an open gate that is not full only. -/
theorem GateInv.tryEnter {w n : ℕ} (h : GateInv w n) (hnext : guardNext w = .tryEnter) :
    w = word false n ∧ n < activeMask := by
  obtain ⟨hn, closed, rfl⟩ := h
  obtain ⟨rfl, hlt⟩ := tryEnter_word hn hnext
  exact ⟨rfl, hlt⟩

/-- **Gate accounting**: every operation keeps the count in step with the
guards. -/
theorem GateMove.inv {w inside w' inside' n n' : ℕ} (hmove : GateMove w inside w' inside')
    (h : GateInv w n) (hle : inside ≤ n) (hn' : n' + inside = n + inside') :
    GateInv w' n' := by
  cases hmove with
  | quiet =>
      obtain rfl : n' = n := by omega
      exact h
  | enter hnext =>
      obtain ⟨hw, hlt⟩ := h.tryEnter hnext
      obtain rfl : n' = n + 1 := by omega
      refine ⟨hlt, false, ?_⟩
      rw [hw, wordInc_word hlt]
  | leave =>
      obtain ⟨hn, closed, rfl⟩ := h
      obtain rfl : n = n' + 1 := by omega
      have hn'' : n' ≤ activeMask := by omega
      exact ⟨hn'', closed, wordDec_word closed⟩
  | shut =>
      obtain ⟨hn, closed, rfl⟩ := h
      obtain rfl : n' = n := by omega
      exact ⟨hn, true, shut_word closed hn⟩

/-- A gate that has been shut is closed. -/
theorem GateInv.isClosed_shut {w n : ℕ} (h : GateInv w n) : isClosed (OperationGate.shut w) = true := by
  obtain ⟨hn, closed, rfl⟩ := h
  rw [shut_word closed hn, isClosed_word true hn]

/-- A guard that enters or leaves does not touch the closed bit. -/
theorem GateInv.isClosed_inc {w n : ℕ} (h : GateInv w n) (hnext : guardNext w = .tryEnter) :
    isClosed (wordInc w) = isClosed w := by
  obtain ⟨hw, hlt⟩ := h.tryEnter hnext
  rw [hw, wordInc_word hlt, isClosed_word false hlt, isClosed_word false h.1]

/-- A guard that leaves does not touch the closed bit. -/
theorem GateInv.isClosed_dec {w n : ℕ} (h : GateInv w (n + 1)) :
    isClosed (wordDec w) = isClosed w := by
  obtain ⟨hn, closed, rfl⟩ := h
  rw [wordDec_word closed, isClosed_word closed hn, isClosed_word closed (by omega)]

/-- Nothing opens a closed gate again. -/
theorem GateMove.isClosed {w inside w' inside' n : ℕ} (hmove : GateMove w inside w' inside')
    (h : GateInv w n) (hle : inside ≤ n) (hclosed : isClosed w = true) :
    OperationGate.isClosed w' = true := by
  cases hmove with
  | quiet => exact hclosed
  | enter hnext => rw [h.isClosed_inc hnext, hclosed]
  | leave =>
      obtain ⟨k, rfl⟩ := Nat.exists_eq_add_of_le' hle
      rw [h.isClosed_dec, hclosed]
  | shut => exact h.isClosed_shut

/-- The gate is closed and no guard is inside. -/
def Drained (w : ℕ) : Prop := w = closedBit

/-- What `close_gate` has seen when it returns. -/
theorem GateInv.drained {w n : ℕ} (h : GateInv w n) (hclosed : isClosed w = true)
    (hactive : active w = 0) : Drained w := by
  obtain ⟨hn, closed, rfl⟩ := h
  rw [isClosed_word closed hn] at hclosed
  rw [active_word closed hn] at hactive
  subst hclosed hactive
  rfl

/-- A drained gate has nobody inside. -/
theorem GateInv.eq_zero {w n : ℕ} (h : GateInv w n) (hd : Drained w) : n = 0 := by
  obtain ⟨hn, closed, hw⟩ := h
  unfold Drained at hd
  subst hd
  unfold activeMask closedBit at hn
  unfold word closedBit at hw
  cases closed <;> simp at hw <;> omega

/-- **A drained gate stays drained**: no guard enters any more. -/
theorem GateMove.drained {w inside w' inside' n : ℕ} (hmove : GateMove w inside w' inside')
    (h : GateInv w n) (hle : inside ≤ n) (hd : Drained w) : Drained w' := by
  have hn := h.eq_zero hd
  have hclosed : OperationGate.isClosed w = true := by
    rw [hd]
    exact isClosed_word true (Nat.zero_le _)
  cases hmove with
  | quiet => exact hd
  | enter hnext =>
      rw [(h.tryEnter hnext).1, isClosed_word false h.1] at hclosed
      cases hclosed
  | leave => omega
  | shut =>
      rw [hd]
      exact shut_word true (Nat.zero_le _)

end OperationGate

end EventDispatcher
