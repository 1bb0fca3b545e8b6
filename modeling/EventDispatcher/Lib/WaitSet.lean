import Mathlib

/-!
# Sets of parked threads

A condition variable, or an atomic that threads wait on, is the finite set of
the threads parked on it.  `notifyOne` unparks exactly one thread, which one
being the caller's choice, and does nothing when nobody is parked; `notifyAll`
is the assignment of the empty set.
-/

namespace Transition

variable {T : Type} [DecidableEq T]

/-- `notify_one`: unpark the chosen thread.  Choosing nobody is only allowed
when nobody is parked. -/
def notifyOne (waiters : Finset T) : Option T → Option (Finset T)
  | none => if waiters = ∅ then some ∅ else none
  | some u => if u ∈ waiters then some (waiters.erase u) else none

/-- `notifyOne` either finds nobody or removes one parked thread. -/
theorem notifyOne_cases {waiters left : Finset T} {u : Option T}
    (h : notifyOne waiters u = some left) :
    (waiters = ∅ ∧ left = ∅) ∨
      ∃ v ∈ waiters, left = waiters.erase v ∧ left.card + 1 = waiters.card := by
  cases u with
  | none =>
      simp only [notifyOne] at h
      split at h
      · next hempty =>
          cases h
          exact .inl ⟨hempty, rfl⟩
      · cases h
  | some v =>
      simp only [notifyOne] at h
      split at h
      · next hmem =>
          cases h
          exact .inr ⟨v, hmem, rfl, Finset.card_erase_add_one hmem⟩
      · cases h

/-- Nobody is newly parked by a notification. -/
@[grind →]
theorem mem_of_mem_notifyOne {waiters left : Finset T} {u : Option T} {v : T}
    (h : notifyOne waiters u = some left) (hv : v ∈ left) : v ∈ waiters := by
  rcases notifyOne_cases h with ⟨_, rfl⟩ | ⟨w, _, rfl, _⟩
  · simp at hv
  · exact Finset.mem_of_mem_erase hv

end Transition
