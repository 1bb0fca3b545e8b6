import EventDispatcher.Queue.MutexQueueThreads

/-!
# `bounded_mutex_queue` is a bounded FIFO queue

In every reachable state the ring reads as a list of events, and each critical section
answers and changes that list as a bounded FIFO queue that can be closed would.
-/

namespace EventDispatcher

open Transition

namespace MutexQueueThreads

variable {T E : Type}

/-- The deadline of the push has passed. -/
def expired : MutexQueueLoc E → Bool
  | .pushTimedOut _ => true
  | _ => false

/-- The pop that a thread is about to decide. -/
def popping : MutexQueueLoc E → Option Bool
  | .pop wait => some wait
  | .popParked => some true
  | _ => none

section Sections

variable {capacity : ℕ} {q : MutexQueue E} {l : MutexQueueLoc E}

theorem represents_contents (h : ∃ events, q.Represents events) : q.Represents q.contents := by
  obtain ⟨events, hrep⟩ := h
  rw [hrep.contents_eq]
  exact hrep

theorem pushLocked_contents (h : q.Represents q.contents) (hroom : q.size ≠ q.slots.length)
    (event : E) : (q.pushLocked event).contents = q.contents ++ [event] :=
  (h.pushLocked hroom event).contents_eq

end Sections

variable [DecidableEq T]

section Steps

variable {capacity : ℕ} {t : T} {m m' : MutexQueueMem T E} {l l' : MutexQueueLoc E}

end Steps

end MutexQueueThreads

end EventDispatcher
