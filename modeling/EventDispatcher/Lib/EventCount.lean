import EventDispatcher.Lib.Threads
import EventDispatcher.Lib.WaitSet

/-!
# Waiting on an epoch

A resource comes in units, and an epoch announces them.  A thread that finds no unit reads
the epoch, looks once more, and parks on the epoch if it still has the value that was read.
A thread that adds a unit bumps the epoch and then unparks one waiter.  The resource may
also be shut down for good, which is announced in the same way.

`EpochMove` lists the steps of this protocol, under two side conditions: a bump never
brings back a value that some thread still remembers, and the last notification of the
shutdown finds at most one waiter.  `Inv` is what they keep, and `Inv.rest` what it says once every
thread is at rest: nobody is left parked while there are units, or after the shutdown.
-/

namespace Transition

/-- An epoch with the threads parked on it, the units that it announces, and whether the
resource has been shut down. -/
structure EventCount (T : Type) where
  epoch : ℕ
  waiters : Finset T
  units : ℕ
  shut : Bool

/-- The part a thread plays at one epoch. -/
inductive EpochRole
  | idle
  /-- going to look for a unit -/
  | looking
  /-- has read the epoch and has found no unit since -/
  | looked (epoch : ℕ)
  /-- has found the resource not shut down after that -/
  | checked (epoch : ℕ)
  /-- parked, or about to compare and park -/
  | waiting (epoch : ℕ)
  /-- has added a unit; the bump comes next -/
  | primed
  /-- has bumped the epoch for its unit; the notification comes next -/
  | bumped
  /-- has shut the resource down; the bump is still to come -/
  | sealing
  /-- has bumped the epoch for the shutdown; its last notification is still to come -/
  | sealed
  deriving DecidableEq

namespace EpochRole

variable {T : Type}

/-- The epoch that the thread goes by. -/
def remembered : EpochRole → Option ℕ
  | .looked e => some e
  | .checked e => some e
  | .waiting e => some e
  | _ => none

/-- The same, once the thread has also seen that the resource was not shut down. -/
def vouched : EpochRole → Option ℕ
  | .checked e => some e
  | .waiting e => some e
  | _ => none

/-- An epoch that a thread vouches for is one that it remembers. -/
theorem remembered_of_vouched {r : EpochRole} {e : ℕ} (h : r.vouched = some e) :
    r.remembered = some e := by
  cases r <;> first | exact h | cases h

/-- The thread has a unit to announce. -/
def announces (r : EpochRole) : ℕ := if r = .primed then 1 else 0

/-- The thread is going to look for a unit, or to unpark another one for it. -/
def weight [DecidableEq T] (c : EventCount T) (t : T) : EpochRole → ℕ
  | .looking => 1
  | .primed => 1
  | .bumped => 1
  | .waiting e => if t ∉ c.waiters ∧ e ≠ c.epoch then 1 else 0
  | _ => 0

/-- An announcement counts for its own thread. -/
theorem announces_le_weight [DecidableEq T] (c : EventCount T) (t : T) (r : EpochRole) :
    r.announces ≤ r.weight c t := by
  cases r with
  | primed => exact le_rfl
  | _ => exact Nat.zero_le _

end EpochRole

namespace EventCount

variable {T : Type} [Fintype T] [DecidableEq T]

/-- The threads that are going to look for a unit, or to unpark another one for it. -/
def cover (c : EventCount T) (roles : T → EpochRole) : ℕ := ∑ t, (roles t).weight c t

/-- The units whose bump is still to come. -/
def unannounced (roles : T → EpochRole) : ℕ := tally EpochRole.announces roles

omit [Fintype T] in
/-- The steps of the protocol. -/
inductive EpochMove (roles : T → EpochRole) (t : T) (c : EventCount T) :
    EventCount T → EpochRole → Prop
  | stay : EpochMove roles t c c (roles t)
  | approach (hr : roles t = .idle) : EpochMove roles t c c .looking
  | refused (hr : roles t = .looking) (hshut : c.shut = true) : EpochMove roles t c c .idle
  | lookFirst (hr : roles t = .looking) (hnone : c.units = 0) : EpochMove roles t c c .idle
  | look (hr : roles t = .looking) (hnone : c.units = 0) (e : ℕ) :
      EpochMove roles t c c (.looked e)
  | pass {e : ℕ} (hr : roles t = .looked e) (hopen : c.shut = true → ∃ u, roles u = .sealing) :
      EpochMove roles t c c (.checked e)
  | giveUp {e : ℕ} (hr : roles t = .looked e ∨ roles t = .checked e) :
      EpochMove roles t c c .idle
  | settle {e : ℕ} (hr : roles t = .checked e) : EpochMove roles t c c (.waiting e)
  | retry {e : ℕ} (hr : roles t = .waiting e) (hawake : t ∉ c.waiters) (hnew : e ≠ c.epoch) :
      EpochMove roles t c c .looking
  | take {n : ℕ} {r' : EpochRole} (hr : ((roles t = .idle ∨ roles t = .looking) ∧ r' = .idle) ∨
      (roles t = .sealed ∧ r' = .sealed)) (hunits : c.units = n + 1) :
      EpochMove roles t c { c with units := n } r'
  | give (hr : roles t = .idle) : EpochMove roles t c { c with units := c.units + 1 } .primed
  | refund (hr : roles t = .sealed) (hshut : c.shut = true) :
      EpochMove roles t c { c with units := c.units + 1 } .sealed
  | bump {e : ℕ} {r' : EpochRole} (hr : (roles t = .primed ∧ r' = .bumped) ∨
      (roles t = .idle ∧ r' = .idle) ∨ (roles t = .sealing ∧ r' = .sealed) ∨
      (roles t = .sealed ∧ r' = .sealed))
      (hnew : ∀ u, (roles u).remembered ≠ some e) : EpochMove roles t c { c with epoch := e } r'
  | notifyOne {u : Option T} {left : Finset T} {r' : EpochRole}
      (hr : (roles t = .bumped ∧ r' = .idle) ∨ (roles t = .sealed ∧ r' = .sealed) ∨
        (roles t = .sealed ∧ r' = .idle ∧ c.waiters.card ≤ 1))
      (hleft : notifyOne c.waiters u = some left) :
      EpochMove roles t c { c with waiters := left } r'
  | notifyAll {r' : EpochRole} (hr : roles t = .idle) (hr' : r' = .idle ∨ r' = .looking) :
      EpochMove roles t c { c with waiters := ∅ } r'
  | park {e : ℕ} (hr : roles t = .waiting e) (hsame : c.epoch = e) :
      EpochMove roles t c { c with waiters := insert t c.waiters } (.waiting e)
  | wake {e : ℕ} (hr : roles t = .waiting e) :
      EpochMove roles t c { c with waiters := c.waiters.erase t } (.waiting e)
  | shut (hr : roles t = .idle) : EpochMove roles t c { c with shut := true } .sealing

/-- **Invariant of the protocol.** -/
structure Inv (c : EventCount T) (roles : T → EpochRole) : Prop where
  parked : ∀ t ∈ c.waiters, ∃ e, roles t = .waiting e
  /-- every unit will be looked for, or somebody will be unparked for it -/
  enough : c.waiters.Nonempty → c.shut = false → c.units ≤ c.cover roles
  /-- a unit that came after the last look has not been announced yet -/
  fresh : ∀ t, (roles t).remembered = some c.epoch → c.shut = false →
    c.units ≤ unannounced roles
  vouched : ∀ t, (roles t).vouched = some c.epoch → c.shut = true → ∃ u, roles u = .sealing
  announced : c.waiters.Nonempty → c.shut = true →
    ∃ u, roles u = .sealing ∨ roles u = .sealed

section Step

variable {c c' : EventCount T} {roles : T → EpochRole} {t : T} {r' : EpochRole}

/-- What has not been announced is covered by somebody. -/
theorem unannounced_le_cover (c : EventCount T) (roles : T → EpochRole) :
    unannounced roles ≤ c.cover roles :=
  Finset.sum_le_sum fun t _ => (roles t).announces_le_weight c t

/-- What a move does to the cover, if nobody else loses weight by it. -/
theorem cover_update (r' : EpochRole)
    (hothers : ∀ u, u ≠ t → (roles u).weight c u ≤ (roles u).weight c' u) :
    c.cover roles + r'.weight c' t ≤
      c'.cover (Function.update roles t r') + (roles t).weight c t := by
  unfold cover
  rw [← Finset.add_sum_erase _ _ (Finset.mem_univ t),
    ← Finset.add_sum_erase _ (fun u => (Function.update roles t r' u).weight c' u)
      (Finset.mem_univ t)]
  have hrest : ∑ u ∈ Finset.univ.erase t, (roles u).weight c u ≤
      ∑ u ∈ Finset.univ.erase t, (Function.update roles t r' u).weight c' u := by
    apply Finset.sum_le_sum
    intro u hu
    rw [Function.update_of_ne (Finset.ne_of_mem_erase hu)]
    exact hothers u (Finset.ne_of_mem_erase hu)
  rw [Function.update_self]
  omega

omit [Fintype T] in
/-- Nobody loses weight when others are unparked. -/
theorem weight_mono {waiters : Finset T} (hwaiters : waiters ⊆ c.waiters) (u : T)
    (r : EpochRole) : r.weight c u ≤ r.weight { c with waiters := waiters } u := by
  cases r with
  | waiting e =>
      simp only [EpochRole.weight]
      split
      · next hawake => rw [if_pos ⟨fun hu => hawake.1 (hwaiters hu), hawake.2⟩]
      · exact Nat.zero_le _
  | _ => exact le_rfl

omit [Fintype T] in
/-- A step parks the moving thread at most. -/
theorem EpochMove.waiters_subset (h : EpochMove roles t c c' r') :
    c'.waiters ⊆ insert t c.waiters := by
  cases h with
  | notifyOne hr hleft =>
      intro u hu
      exact Finset.mem_insert_of_mem (mem_of_mem_notifyOne hleft hu)
  | notifyAll => exact Finset.empty_subset _
  | park => exact subset_rfl
  | wake => exact (Finset.erase_subset _ _).trans (Finset.subset_insert _ _)
  | _ => exact Finset.subset_insert _ _

omit [Fintype T] in
/-- Only a waiting thread parks. -/
theorem EpochMove.waiters_subset_of_ne (h : EpochMove roles t c c' r')
    (hne : ∀ e, roles t ≠ .waiting e) : c'.waiters ⊆ c.waiters := by
  cases h with
  | notifyOne hr hleft => exact fun u hu => mem_of_mem_notifyOne hleft hu
  | notifyAll => exact Finset.empty_subset _
  | park hr => exact absurd hr (hne _)
  | wake => exact Finset.erase_subset _ _
  | _ => exact subset_rfl

omit [Fintype T] in
/-- A thread that stays parked goes on waiting. -/
theorem EpochMove.waiting (h : EpochMove roles t c c' r') (hin : t ∈ c'.waiters)
    (hself : t ∈ c.waiters → ∃ e, roles t = .waiting e) : ∃ e, r' = .waiting e := by
  cases h with
  | stay => exact hself hin
  | notifyOne hr hleft =>
      obtain ⟨e, he⟩ := hself (mem_of_mem_notifyOne hleft hin)
      rw [he] at hr
      rcases hr with ⟨hr, _⟩ | ⟨hr, _⟩ | ⟨hr, _⟩ <;> cases hr
  | retry hr hawake => exact absurd hin hawake
  | settle | park | wake => exact ⟨_, rfl⟩
  | notifyAll => simp at hin
  | approach hr | refused hr | lookFirst hr | look hr | pass hr | give hr | refund hr | shut hr =>
      obtain ⟨e, he⟩ := hself hin
      rw [he] at hr
      cases hr
  | giveUp hr =>
      obtain ⟨e, he⟩ := hself hin
      rw [he] at hr
      rcases hr with hr | hr <;> cases hr
  | take hr =>
      obtain ⟨e, he⟩ := hself hin
      rw [he] at hr
      rcases hr with ⟨hr | hr, _⟩ | ⟨hr, _⟩ <;> cases hr
  | bump hr =>
      obtain ⟨e, he⟩ := hself hin
      rw [he] at hr
      rcases hr with ⟨hr, _⟩ | ⟨hr, _⟩ | ⟨hr, _⟩ | ⟨hr, _⟩ <;> cases hr

/-- What a move that is not a bump does. -/
structure Unbumped (roles : T → EpochRole) (t : T) (c c' : EventCount T) (r' : EpochRole) :
    Prop where
  epoch : c'.epoch = c.epoch
  /-- units come with a thread that is going to announce them -/
  units : c'.shut = false → c'.units + (roles t).announces ≤ c.units + r'.announces
  sealing : roles t = .sealing → r' = .sealing

omit [Fintype T] [DecidableEq T] in
/-- A step that leaves the epoch alone and adds no units. -/
theorem Unbumped.quiet {r : EpochRole} (hepoch : c'.epoch = c.epoch) (hunits : c'.units ≤ c.units)
    (hr : roles t = r) (hprimed : r ≠ .primed) (hsealing : r ≠ .sealing) :
    Unbumped roles t c c' r' where
  epoch := hepoch
  units := by
    intro _
    rw [hr, EpochRole.announces, if_neg hprimed]
    omega
  sealing := by
    intro h
    exact absurd (hr.symm.trans h) hsealing

omit [Fintype T] in
/-- A bump leaves an epoch that nobody remembers. -/
theorem EpochMove.unbumped (h : EpochMove roles t c c' r') :
    Unbumped roles t c c' r' ∨
      ∀ u, (Function.update roles t r' u).remembered ≠ some c'.epoch := by
  cases h with
  | @bump e r' hr hnew =>
      right
      intro u
      by_cases hut : u = t
      · subst hut
        rw [Function.update_self]
        rcases hr with ⟨_, rfl⟩ | ⟨_, rfl⟩ | ⟨_, rfl⟩ | ⟨_, rfl⟩ <;> simp [EpochRole.remembered]
      · rw [Function.update_of_ne hut]
        exact hnew u
  | stay => exact .inl ⟨rfl, fun _ => le_rfl, id⟩
  | give hr => exact .inl ⟨rfl, fun _ => by rw [hr]; exact le_rfl, by simp [hr]⟩
  | refund hr hshut => exact .inl ⟨rfl, by simp [hshut], by simp [hr]⟩
  | shut hr => exact .inl ⟨rfl, by simp, fun _ => rfl⟩
  | take hr hunits =>
      left
      rcases hr with ⟨hr | hr, _⟩ | ⟨hr, _⟩ <;>
        exact .quiet rfl (by simp [hunits]) hr (by simp) (by simp)
  | notifyOne hr =>
      left
      rcases hr with ⟨hr, _⟩ | ⟨hr, _⟩ | ⟨hr, _⟩ <;> exact .quiet rfl le_rfl hr (by simp) (by simp)
  | giveUp hr =>
      left
      rcases hr with hr | hr <;> exact .quiet rfl le_rfl hr (by simp) (by simp)
  | approach hr | refused hr | lookFirst hr | look hr | pass hr | settle hr | retry hr
  | park hr | wake hr | notifyAll hr => exact .inl (.quiet rfl le_rfl hr (by simp) (by simp))

omit [Fintype T] in
/-- How a thread comes to go by an epoch. -/
theorem EpochMove.remembered (h : EpochMove roles t c c' r') {e : ℕ}
    (hr' : r'.remembered = some e) :
    (roles t).remembered = some e ∨ (c.units = 0 ∧ c' = c ∧ r'.vouched = none) := by
  cases h with
  | stay => exact .inl hr'
  | look hr hnone => exact .inr ⟨hnone, rfl, rfl⟩
  | pass hr | settle hr | park hr | wake hr =>
      left
      rw [hr]
      exact hr'
  | bump hr => rcases hr with ⟨_, rfl⟩ | ⟨_, rfl⟩ | ⟨_, rfl⟩ | ⟨_, rfl⟩ <;> cases hr'
  | take hr => rcases hr with ⟨_, rfl⟩ | ⟨_, rfl⟩ <;> cases hr'
  | notifyOne hr => rcases hr with ⟨_, rfl⟩ | ⟨_, rfl⟩ | ⟨_, rfl, _⟩ <;> cases hr'
  | notifyAll hr hnext => rcases hnext with rfl | rfl <;> cases hr'
  | _ => cases hr'

omit [Fintype T] in
/-- How a thread comes to have seen that the resource was not shut down. -/
theorem EpochMove.vouched (h : EpochMove roles t c c' r') {e : ℕ} (hr' : r'.vouched = some e) :
    (roles t).vouched = some e ∨ (c' = c ∧ (c.shut = true → ∃ u, roles u = .sealing)) := by
  cases h with
  | stay => exact .inl hr'
  | pass hr hopen => exact .inr ⟨rfl, hopen⟩
  | settle hr | park hr | wake hr =>
      left
      rw [hr]
      exact hr'
  | bump hr => rcases hr with ⟨_, rfl⟩ | ⟨_, rfl⟩ | ⟨_, rfl⟩ | ⟨_, rfl⟩ <;> cases hr'
  | take hr => rcases hr with ⟨_, rfl⟩ | ⟨_, rfl⟩ <;> cases hr'
  | notifyOne hr => rcases hr with ⟨_, rfl⟩ | ⟨_, rfl⟩ | ⟨_, rfl, _⟩ <;> cases hr'
  | notifyAll hr hnext => rcases hnext with rfl | rfl <;> cases hr'
  | _ => cases hr'

omit [Fintype T] in
/-- The resource is shut down by a thread that is going to announce it. -/
theorem EpochMove.shut_cases (h : EpochMove roles t c c' r') :
    c'.shut = c.shut ∨ (c'.shut = true ∧ r' = .sealing) := by
  cases h with
  | shut => exact .inr ⟨rfl, rfl⟩
  | _ => exact .inl rfl

/-- Whoever is among the waiters waits. -/
theorem Inv.step_parked (h : c.Inv roles) (hmove : EpochMove roles t c c' r') :
    ∀ u ∈ c'.waiters, ∃ e, Function.update roles t r' u = .waiting e := by
  intro u hu
  by_cases hut : u = t
  · subst hut
    rw [Function.update_self]
    exact hmove.waiting hu (h.parked u)
  · rw [Function.update_of_ne hut]
    exact h.parked u (Finset.mem_of_mem_insert_of_ne (hmove.waiters_subset hu) hut)

theorem unannounced_update (roles : T → EpochRole) (t : T) (r' : EpochRole) :
    unannounced (Function.update roles t r') + (roles t).announces =
      unannounced roles + r'.announces :=
  tally_update EpochRole.announces roles t r'

/-- Units that came behind a remembered epoch have not been announced. -/
theorem Inv.step_fresh (h : c.Inv roles) (hmove : EpochMove roles t c c' r') (u : T)
    (hu : (Function.update roles t r' u).remembered = some c'.epoch) (hshut : c'.shut = false) :
    c'.units ≤ unannounced (Function.update roles t r') := by
  rcases hmove.unbumped with hquiet | hforgot
  · have hopen : c.shut = false := by
      rcases hmove.shut_cases with heq | ⟨hclosed, _⟩
      · rw [← heq, hshut]
      · rw [hshut] at hclosed
        cases hclosed
    have hbefore : c.units ≤ unannounced roles := by
      by_cases hut : u = t
      · subst hut
        rw [Function.update_self, hquiet.epoch] at hu
        rcases hmove.remembered hu with hold | ⟨hnone, _⟩
        · exact h.fresh u hold hopen
        · omega
      · rw [Function.update_of_ne hut, hquiet.epoch] at hu
        exact h.fresh u hu hopen
    have htally := unannounced_update roles t r'
    have hunits := hquiet.units hshut
    omega
  · exact absurd hu (hforgot u)

omit [Fintype T] in
/-- A part that somebody plays, after a step of a thread that does not give it up. -/
theorem exists_update (P : EpochRole → Prop) (hkeep : P (roles t) → P r')
    (h : ∃ u, P (roles u)) : ∃ u, P (Function.update roles t r' u) := by
  obtain ⟨u, hu⟩ := h
  by_cases hut : u = t
  · subst hut
    exact ⟨u, by rw [Function.update_self]; exact hkeep hu⟩
  · exact ⟨u, by rw [Function.update_of_ne hut]; exact hu⟩

/-- Whoever vouches for an epoch behind the closing waits for its announcement. -/
theorem Inv.step_vouched (h : c.Inv roles) (hmove : EpochMove roles t c c' r') (u : T)
    (hu : (Function.update roles t r' u).vouched = some c'.epoch) (hshut : c'.shut = true) :
    ∃ v, Function.update roles t r' v = .sealing := by
  rcases hmove.unbumped with hquiet | hforgot
  · rcases hmove.shut_cases with heq | ⟨_, hsealing⟩
    · apply exists_update (· = .sealing) hquiet.sealing
      have hclosed : c.shut = true := by rw [← heq, hshut]
      by_cases hut : u = t
      · subst hut
        rw [Function.update_self, hquiet.epoch] at hu
        rcases hmove.vouched hu with hold | ⟨_, hopen⟩
        · exact h.vouched u hold hclosed
        · exact hopen hclosed
      · rw [Function.update_of_ne hut, hquiet.epoch] at hu
        exact h.vouched u hu hclosed
    · exact ⟨t, by rw [Function.update_self, hsealing]⟩
  · exact absurd (EpochRole.remembered_of_vouched hu) (hforgot u)

omit [Fintype T] in
/-- The announcement of the shutdown is given up only with nobody parked. -/
theorem EpochMove.sealed (h : EpochMove roles t c c' r') (hwaiters : c'.waiters.Nonempty)
    (hr : roles t = .sealing ∨ roles t = .sealed) : r' = .sealing ∨ r' = .sealed := by
  cases h with
  | stay => exact hr
  | bump hr' =>
      rcases hr' with ⟨hr', _⟩ | ⟨hr', _⟩ | ⟨_, rfl⟩ | ⟨_, rfl⟩
      · rw [hr'] at hr
        rcases hr with hr | hr <;> cases hr
      · rw [hr'] at hr
        rcases hr with hr | hr <;> cases hr
      · exact .inr rfl
      · exact .inr rfl
  | refund => exact .inr rfl
  | notifyOne hr' hleft =>
      rcases hr' with ⟨hr', _⟩ | ⟨_, rfl⟩ | ⟨_, _, hcard⟩
      · rw [hr'] at hr
        rcases hr with hr | hr <;> cases hr
      · exact .inr rfl
      · -- the one waiter is the one that has been unparked
        exfalso
        have hpos := Finset.card_pos.mpr hwaiters
        rcases notifyOne_cases hleft with ⟨_, rfl⟩ | ⟨v, _, _, heq⟩
        · simp at hwaiters
        · simp only at hpos
          omega
  | take hr' =>
      rcases hr' with ⟨hr' | hr', _⟩ | ⟨_, rfl⟩
      · rw [hr'] at hr
        rcases hr with hr | hr <;> cases hr
      · rw [hr'] at hr
        rcases hr with hr | hr <;> cases hr
      · exact .inr rfl
  | giveUp hr' =>
      rcases hr' with hr' | hr' <;> rw [hr'] at hr <;> rcases hr with hr | hr <;> cases hr
  | approach hr' | refused hr' | lookFirst hr' | look hr' | pass hr' | settle hr' | retry hr'
  | give hr' | park hr' | wake hr' | notifyAll hr' | shut hr' =>
      rw [hr'] at hr
      rcases hr with hr | hr <;> cases hr

/-- A waiter behind the closing will be told. -/
theorem Inv.step_announced (h : c.Inv roles) (hmove : EpochMove roles t c c' r')
    (hwaiters : c'.waiters.Nonempty) (hshut : c'.shut = true) :
    ∃ v, Function.update roles t r' v = .sealing ∨ Function.update roles t r' v = .sealed := by
  rcases hmove.shut_cases with heq | ⟨_, hsealing⟩
  · apply exists_update (fun r => r = .sealing ∨ r = .sealed) (hmove.sealed hwaiters)
    have hclosed : c.shut = true := by rw [← heq, hshut]
    by_cases hsome : c.waiters.Nonempty
    · exact h.announced hsome hclosed
    · -- the first waiter goes by an epoch that is still to be bumped
      rw [Finset.not_nonempty_iff_eq_empty] at hsome
      obtain ⟨u, hu⟩ := hwaiters
      have hut : u = t := by
        have hin := hmove.waiters_subset hu
        rw [hsome] at hin
        simpa using hin
      subst hut
      cases hmove with
      | park hr hsame =>
          obtain ⟨v, hv⟩ := h.vouched u (by rw [hr, hsame]; rfl) hclosed
          exact ⟨v, .inl hv⟩
      | notifyOne hr hleft =>
          have hin := mem_of_mem_notifyOne hleft hu
          simp [hsome] at hin
      | notifyAll | wake => simp [hsome] at hu
      | _ => simp [hsome] at hu
  · exact ⟨t, by rw [Function.update_self, hsealing]; exact .inl rfl⟩

/-- A unit that goes away may take the weight of its thread with it. -/
theorem Inv.enough_of_balance (h : c.Inv roles) (hwaiters : c.waiters.Nonempty)
    (hopen : c.shut = false)
    (hothers : ∀ u, u ≠ t → (roles u).weight c u ≤ (roles u).weight c' u)
    (hbalance : c'.units + (roles t).weight c t ≤ c.units + r'.weight c' t) :
    c'.units ≤ c'.cover (Function.update roles t r') := by
  have hcover := cover_update r' hothers
  have hbefore := h.enough hwaiters hopen
  omega

/-- The thread that a signaller unparks takes over its weight, unless all units are still to be
announced. -/
theorem Inv.enough_of_notify (h : c.Inv roles) (hopen : c.shut = false) {u : T}
    (hu : u ∈ c.waiters) (hr : (roles t).weight c t ≤ 1)
    (hself : ∀ e, roles t ≠ .waiting e) (hprimed : (roles t).announces = 0) (r' : EpochRole) :
    c.units ≤ cover { c with waiters := c.waiters.erase u } (Function.update roles t r') := by
  obtain ⟨e, he⟩ := h.parked u hu
  have hut : u ≠ t := by
    rintro rfl
    exact hself e he
  by_cases hsame : e = c.epoch
  · have hfresh := h.fresh u (by rw [he, hsame]; rfl) hopen
    have htally := unannounced_update roles t r'
    have hle := unannounced_le_cover { c with waiters := c.waiters.erase u }
      (Function.update roles t r')
    omega
  · refine (h.enough ⟨u, hu⟩ hopen).trans ?_
    unfold cover
    rw [← Equiv.sum_comp (Equiv.swap t u) fun v => (roles v).weight c v]
    refine Finset.sum_le_sum fun v _ => ?_
    by_cases hvt : v = t
    · subst hvt
      rw [Equiv.swap_apply_left, he]
      simp [EpochRole.weight, hu]
    · by_cases hvu : v = u
      · subst hvu
        rw [Equiv.swap_apply_right, Function.update_of_ne hvt, he]
        refine hr.trans ?_
        simp [EpochRole.weight, hsame]
      · rw [Equiv.swap_apply_of_ne_of_ne hvt hvu, Function.update_of_ne hvt]
        exact weight_mono (Finset.erase_subset _ _) v (roles v)

/-- There are threads enough to wake for all units. -/
theorem Inv.step_enough (h : c.Inv roles) (hmove : EpochMove roles t c c' r')
    (hwaiters : c'.waiters.Nonempty) (hopen : c'.shut = false) :
    c'.units ≤ c'.cover (Function.update roles t r') := by
  have hsame : ∀ u, u ≠ t → (roles u).weight c u ≤ (roles u).weight c u := fun _ _ => le_rfl
  cases hmove with
  | stay => exact h.enough_of_balance hwaiters hopen hsame le_rfl
  | approach hr | pass hr | settle hr =>
      refine h.enough_of_balance hwaiters hopen hsame ?_
      simp [hr, EpochRole.weight]
  | refused hr hshut | refund hr hshut =>
      rw [show c.shut = false from hopen] at hshut
      cases hshut
  | lookFirst hr hnone | look hr hnone =>
      rw [hnone]
      exact Nat.zero_le _
  | giveUp hr =>
      refine h.enough_of_balance hwaiters hopen hsame ?_
      rcases hr with hr | hr <;> simp [hr, EpochRole.weight]
  | retry hr hawake hnew =>
      refine h.enough_of_balance hwaiters hopen hsame ?_
      simp [hr, EpochRole.weight, hawake, hnew]
  | take hr hunits =>
      refine h.enough_of_balance hwaiters hopen (fun u _ => weight_mono subset_rfl u _) ?_
      rcases hr with ⟨hr | hr, rfl⟩ | ⟨hr, rfl⟩ <;> simp [hr, hunits, EpochRole.weight]
  | give hr =>
      refine h.enough_of_balance hwaiters hopen (fun u _ => weight_mono subset_rfl u _) ?_
      simp [hr, EpochRole.weight]
  | @bump e _ hr hnew =>
      refine h.enough_of_balance hwaiters hopen (fun u _ => ?_) ?_
      · -- a waiter that goes by an old epoch goes by an old one still
        have hold := hnew u
        cases hru : roles u with
        | waiting e' =>
            rw [hru] at hold
            have hne : e' ≠ e := fun heq => hold (by rw [heq]; rfl)
            simp only [EpochRole.weight]
            split
            · next hawake => rw [if_pos ⟨hawake.1, hne⟩]
            · exact Nat.zero_le _
        | _ => exact le_rfl
      · rcases hr with ⟨hr, rfl⟩ | ⟨hr, rfl⟩ | ⟨hr, rfl⟩ | ⟨hr, rfl⟩ <;>
          simp [hr, EpochRole.weight]
  | notifyOne hr hleft =>
      rcases notifyOne_cases hleft with ⟨_, rfl⟩ | ⟨u, hu, rfl, _⟩
      · simp at hwaiters
      · rcases hr with ⟨hr, _⟩ | ⟨hr, _⟩ | ⟨hr, _⟩ <;>
          exact h.enough_of_notify hopen hu (by simp [hr, EpochRole.weight]) (by simp [hr])
            (by simp [hr, EpochRole.announces]) _
  | notifyAll => simp at hwaiters
  | park hr hepoch =>
      have hfresh := h.fresh t (by rw [hr, hepoch]; rfl) hopen
      have hle := unannounced_le_cover { c with waiters := insert t c.waiters } roles
      rw [← hr, Function.update_eq_self]
      exact hfresh.trans hle
  | wake hr =>
      refine h.enough_of_balance (hwaiters.mono (Finset.erase_subset _ _)) hopen
        (fun u _ => weight_mono (Finset.erase_subset _ _) u _) ?_
      rw [hr]
      exact Nat.add_le_add_left (weight_mono (Finset.erase_subset _ _) t _) _
  | shut => cases hopen

/-- **Step lemma.** -/
theorem Inv.step (h : c.Inv roles) (hmove : EpochMove roles t c c' r') :
    c'.Inv (Function.update roles t r') where
  parked := h.step_parked hmove
  enough := h.step_enough hmove
  fresh := h.step_fresh hmove
  vouched := h.step_vouched hmove
  announced := h.step_announced hmove

/-- **Threads at rest.**  With everybody idle or parked, somebody is parked only while there is
no unit and the resource has not been shut down. -/
theorem Inv.rest (h : c.Inv roles)
    (hrest : ∀ u, roles u = .idle ∨ (u ∈ c.waiters ∧ ∃ e, roles u = .waiting e))
    (hwaiters : c.waiters.Nonempty) : c.units = 0 ∧ c.shut = false := by
  have hopen : c.shut = false := by
    by_contra hshut
    obtain ⟨u, hu⟩ := h.announced hwaiters (by simpa using hshut)
    rcases hrest u with hidle | ⟨_, e, he⟩
    · rw [hidle] at hu
      rcases hu with hu | hu <;> cases hu
    · rw [he] at hu
      rcases hu with hu | hu <;> cases hu
  refine ⟨?_, hopen⟩
  have hzero : c.cover roles = 0 := by
    refine Finset.sum_eq_zero fun u _ => ?_
    rcases hrest u with hidle | ⟨hin, e, he⟩
    · rw [hidle]
      rfl
    · rw [he]
      simp [EpochRole.weight, hin]
  have henough := h.enough hwaiters hopen
  omega

end Step

end EventCount

end Transition
