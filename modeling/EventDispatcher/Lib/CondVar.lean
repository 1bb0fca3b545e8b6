import EventDispatcher.Lib.WaitSet

/-!
# A condition variable with `notify_all`

Threads park on a condition variable while something keeps them there (`blocked`).  Whoever ends
the blockade is at once on its way to a `notify_all`, but does not run it in the same step.  If
every step of every thread is one of these moves, nobody is parked for nothing: either the variable
is blocked, or some thread is about to wake everybody up.
-/

namespace Transition

/-- A condition variable: the threads parked on it, and what keeps them there. -/
structure CondVar (T : Type) where
  waiters : Finset T
  blocked : Prop

/-- Where a thread is with respect to one condition variable. -/
inductive CondRole
  | away
  | parked
  /-- it is going to run `notify_all` -/
  | signalling
  deriving DecidableEq

variable {T : Type} [DecidableEq T]

/-- What a step of thread `t` does to the variable, and to the role of `t`. -/
inductive CondMove (t : T) (v : CondVar T) : CondRole → CondVar T → CondRole → Prop
  /-- nothing, except that it may block the variable -/
  | quiet {v' : CondVar T} (hwaiters : v'.waiters = v.waiters)
      (hblocked : v.blocked → v'.blocked) : CondMove t v .away v' .away
  | park {v' : CondVar T} {r : CondRole} (hr : r ≠ .signalling)
      (hwaiters : v'.waiters = insert t v.waiters) (hblocked : v'.blocked) :
      CondMove t v r v' .parked
  /-- the thread is woken without a notification, and looks again -/
  | wake {v' : CondVar T} {r : CondRole} (hwaiters : v'.waiters = v.waiters.erase t)
      (hblocked : v.blocked → v'.blocked) (hr : r ≠ .signalling) : CondMove t v .parked v' r
  /-- a thread that has been notified leaves -/
  | leave {v' : CondVar T} (hgone : t ∉ v.waiters) (hwaiters : v'.waiters = v.waiters)
      (hblocked : v.blocked → v'.blocked) : CondMove t v .parked v' .away
  | unblock {v' : CondVar T} (hwaiters : v'.waiters = v.waiters) :
      CondMove t v .away v' .signalling
  | notifyAll {v' : CondVar T} (hwaiters : v'.waiters = ∅) :
      CondMove t v .signalling v' .away

namespace CondVar

variable {v v' : CondVar T} {roles : T → CondRole} {t u : T} {r' : CondRole}

/-- Only parked threads are waiting, and they are not waiting for nothing. -/
structure Inv (v : CondVar T) (roles : T → CondRole) : Prop where
  parked : ∀ t ∈ v.waiters, roles t = .parked
  covered : v.waiters.Nonempty → v.blocked ∨ ∃ u, roles u = .signalling

/-- A thread parks itself only. -/
theorem waiters_subset {r : CondRole} (h : CondMove t v r v' r') :
    v'.waiters ⊆ insert t v.waiters := by
  cases h with
  | quiet hwaiters | unblock hwaiters | leave _ hwaiters =>
      rw [hwaiters]
      exact Finset.subset_insert _ _
  | park _ hwaiters => rw [hwaiters]
  | wake hwaiters =>
      rw [hwaiters]
      exact (Finset.erase_subset _ _).trans (Finset.subset_insert _ _)
  | notifyAll hwaiters =>
      rw [hwaiters]
      exact Finset.empty_subset _

/-- A thread parks where it finds the variable blocked, or it was parked before. -/
theorem parked_cases {r : CondRole} (h : CondMove t v r v' .parked) : v'.blocked ∨ r = .parked := by
  cases h with
  | park _ _ hblocked => exact .inl hblocked
  | wake => exact .inr rfl

/-- Whoever is parked stands in its wait. -/
theorem Inv.step_parked (h : v.Inv roles) (hmove : CondMove t v (roles t) v' r') :
    ∀ u ∈ v'.waiters, Function.update roles t r' u = .parked := by
  intro u hu
  by_cases hut : u = t
  · subst hut
    rw [Function.update_self]
    generalize hr : roles u = r at hmove
    have haway : r ≠ .parked → u ∉ v.waiters := by
      intro hne hin
      exact hne (hr ▸ h.parked u hin)
    cases hmove with
    | quiet hwaiters | unblock hwaiters =>
        rw [hwaiters] at hu
        exact absurd hu (haway (by simp))
    | park => rfl
    | wake hwaiters =>
        rw [hwaiters] at hu
        exact absurd rfl (Finset.ne_of_mem_erase hu)
    | leave hgone hwaiters =>
        rw [hwaiters] at hu
        exact absurd hu hgone
    | notifyAll hwaiters =>
        rw [hwaiters] at hu
        cases hu
  · rw [Function.update_of_ne hut]
    have hin := Finset.mem_of_mem_insert_of_ne (waiters_subset hmove hu) hut
    exact h.parked u hin

/-- Whoever is parked is blocked, or will be notified. -/
theorem Inv.step_covered (h : v.Inv roles) (hmove : CondMove t v (roles t) v' r')
    (hwaiting : v'.waiters.Nonempty) :
    v'.blocked ∨ ∃ u, Function.update roles t r' u = .signalling := by
  -- a signaller other than the moving thread goes on to signal
  have hothers : roles t ≠ .signalling → (v.blocked → v'.blocked) → v.waiters.Nonempty →
      v'.blocked ∨ ∃ u, Function.update roles t r' u = .signalling := by
    intro hr hblocked hbefore
    obtain hcovered | ⟨u, hu⟩ := h.covered hbefore
    · exact .inl (hblocked hcovered)
    · have hut : u ≠ t := by
        intro hut
        exact hr (hut ▸ hu)
      exact .inr ⟨u, by rw [Function.update_of_ne hut, hu]⟩
  generalize hr : roles t = r at hmove
  rw [hr] at hothers
  cases hmove with
  | quiet hwaiters hblocked | leave _ hwaiters hblocked =>
      rw [hwaiters] at hwaiting
      exact hothers (by simp) hblocked hwaiting
  | park _ _ hblocked => exact .inl hblocked
  | wake hwaiters hblocked =>
      rw [hwaiters] at hwaiting
      exact hothers (by simp) hblocked (hwaiting.mono (Finset.erase_subset _ _))
  | unblock => exact .inr ⟨t, Function.update_self _ _ _⟩
  | notifyAll hwaiters =>
      rw [hwaiters] at hwaiting
      exact absurd rfl hwaiting.ne_empty

/-- **Step rule.** -/
theorem Inv.step (h : v.Inv roles) (hmove : CondMove t v (roles t) v' r') :
    v'.Inv (Function.update roles t r') :=
  ⟨h.step_parked hmove, h.step_covered hmove⟩

omit [DecidableEq T] in
/-- A parked thread that nothing blocks will be notified by another thread. -/
theorem Inv.signaller (h : v.Inv roles) (ht : t ∈ v.waiters) (hfree : ¬v.blocked) :
    ∃ u ≠ t, roles u = .signalling := by
  obtain hblocked | ⟨u, hu⟩ := h.covered ⟨t, ht⟩
  · exact absurd hblocked hfree
  · refine ⟨u, ?_, hu⟩
    intro hut
    rw [hut, h.parked t ht] at hu
    cases hu

end CondVar

end Transition
