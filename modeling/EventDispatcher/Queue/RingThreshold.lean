import EventDispatcher.Queue.RingDistance

/-!
# The threshold of the index ring

`try_dequeue` gives up once `threshold_` has run out.  Each call of it that has drawn a head ticket
owes one decrement, and each head ticket short of an index costs another; so the threshold has to
cover both for as long as an index whose `enqueue` has returned waits in the ring
(`ThresholdInv.covered`).  The tail is never more than `2 * n` tickets ahead, so the
`3 * n - 1` that `enqueue` sets cover the decrements that `n` calls owe, and no more.
-/

namespace EventDispatcher

open Transition

/-- The decrement of `threshold_` that a call of `try_dequeue` owes. -/
def RingLoc.owes : RingLoc → ℕ
  | .tryDequeue _ .loadThreshold => 0
  | .tryDequeue _ .draw => 0
  | .tryDequeue _ _ => 1
  | _ => 0

/-- Whether a thread is in a call of `try_dequeue`. -/
def RingLoc.dequeuing : RingLoc → ℕ
  | .tryDequeue _ _ => 1
  | _ => 0

namespace RingThreads

variable {T : Type} {n : ℕ} {t : T} {m m' : RingMem T} {l l' : RingLoc}

/-- The last call of `enqueue(i)` has returned. -/
def Completed (m : RingMem T) (i : ℕ) : Prop :=
  ∃ p ∈ m.trace.completed, (m.trace.calls i).getLast? = some p.1

/-- The ticket of an index is that of a call of `try_dequeue` under way. -/
def Claimed (s : Config T (RingMem T) RingLoc) (ticket : ℕ) : Prop :=
  ∃ t, (s.loc t).headTicket = some ticket

/-- Every index whose `enqueue` has returned is claimed. -/
def AllClaimed (n : ℕ) (s : Config T (RingMem T) RingLoc) : Prop :=
  ∀ i f, Stored n s.mem i f → Completed s.mem i → Claimed s f

/-- A call of `try_dequeue` begins only while fewer than `n` of them are under way. -/
def FewDequeuers [Fintype T] (n : ℕ) (s : Config T (RingMem T) RingLoc) (a : T × RingChoice T) :
    Prop :=
  a.2 = .tryDequeue → tally RingLoc.dequeuing s.loc < n

instance [DecidableEq T] [Fintype T] (s : Config T (RingMem T) RingLoc) (a : T × RingChoice T) :
    Decidable (FewDequeuers n s a) :=
  inferInstanceAs (Decidable (_ → _))

section Steps

theorem RingLoc.owes_le_dequeuing : l.owes ≤ l.dequeuing := by
  cases l with
  | tryDequeue call phase => cases phase <;> simp [RingLoc.owes, RingLoc.dequeuing]
  | _ => exact le_rfl

/-- Only a call adds to those under way. -/
theorem RingStep.dequeuing_cases (hstep : RingStep n t m l m' l') :
    l'.dequeuing ≤ l.dequeuing ∨
      (∃ last, l = .outside last) ∧ l' = .tryDequeue m.trace.clock .loadThreshold := by
  cases hstep with
  | callDequeue last => exact .inr ⟨⟨last, rfl⟩, rfl⟩
  | _ => exact .inl (by simp [RingLoc.dequeuing])

/-- **Budget.**  Either the threshold is reset, or no call of `enqueue` returns and the step pays
for what it spends. -/
theorem RingStep.budget (hstep : RingStep n t m l m' l') :
    m'.threshold = initialThreshold n ∨ m'.trace.completed = m.trace.completed ∧
      (l'.owes : ℤ) - m'.head - m'.threshold ≤ l.owes - m.head - m.threshold := by
  cases hstep with
  | armed i call hthreshold => exact .inl hthreshold
  | arm => exact .inl rfl
  | drawHead | decrementOut | decrementOn | decrementLast =>
      right
      refine ⟨rfl, ?_⟩
      simp [RingLoc.owes]
  | found call ticket hreads | occupied call ticket attempts hreads
  | vacant call ticket attempts hreads | spin call ticket attempts hreads
  | leave call ticket hreads =>
      right
      refine ⟨rfl, ?_⟩
      cases hreads <;> simp [RingLoc.owes]
  | _ =>
      right
      refine ⟨rfl, ?_⟩
      simp [RingLoc.owes]

/-- A call under way calls no `enqueue`. -/
theorem RingStep.calls_eq (hstep : RingStep n t m l m' l') (hin : ∀ last, l ≠ .outside last) :
    m'.trace.calls = m.trace.calls := by
  cases hstep with
  | callEnqueue last => exact absurd rfl (hin last)
  | _ => rfl

/-- A head ticket is kept until it is done with. -/
theorem RingStep.headTicket_kept (hstep : RingStep n t m l m' l') {h : ℕ}
    (hh : l.headTicket = some h) : l'.headTicket = some h ∨ m'.trace.left h = true := by
  cases hstep with
  | found call ticket hreads | occupied call ticket attempts hreads
  | vacant call ticket attempts hreads | spin call ticket attempts hreads =>
      rw [headTicket_of_reads hreads] at hh
      exact .inl hh
  | leave call ticket hreads =>
      rw [headTicket_of_reads hreads] at hh
      cases hh
      exact .inr (Function.update_self ..)
  | replace | takeOut =>
      cases hh
      exact .inr (Function.update_self ..)
  | _ => cases hh

theorem RingStep.left_kept (hstep : RingStep n t m l m' l') {h : ℕ}
    (hh : m.trace.left h = true) : m'.trace.left h = true := by
  cases hstep with
  | leave call ticket | replace call ticket | takeOut call ticket =>
      by_cases heq : h = ticket
      · simp [heq]
      · simpa [heq] using hh
  | _ => exact hh

theorem RingStep.head_cases (hstep : RingStep n t m l m' l') {h : ℕ} (hh : h < m'.head) :
    h < m.head ∨ l'.headTicket = some h := by
  cases hstep with
  | drawHead call =>
      rcases Nat.lt_succ_iff_lt_or_eq.mp hh with hlt | rfl
      · exact .inl hlt
      · exact .inr rfl
  | _ => exact .inl hh

end Steps

section Run

variable [DecidableEq T] [Fintype T] {s : Config T (RingMem T) RingLoc}
  {ok : Config T (RingMem T) RingLoc → T × RingChoice T → Prop}

omit [Fintype T] in
/-- A head ticket is a running call's until it is done with. -/
theorem claimed_of_drawn : ∀ s, (system n (T := T)).Reach ok s →
    ∀ h < s.mem.head, s.mem.trace.left h = true ∨ Claimed s h := by
  refine interleave_invariant ?_ ?_
  · intro s hs h hh
    obtain ⟨holder, heq⟩ | heq := hs.1
    · rw [heq] at hh
      exact absurd hh (Nat.not_lt_zero _)
    · rw [heq] at hh
      exact absurd hh (Nat.not_lt_zero _)
  · intro s t c m l _ hinv _ hstep h hh
    have hshape := step_sound hstep
    have hmover : l.headTicket = some h → Claimed ⟨m, Function.update s.loc t l⟩ h := by
      intro hl
      refine ⟨t, ?_⟩
      simpa only [Function.update_self] using hl
    rcases hshape.head_cases hh with hlt | hnew
    · rcases hinv h hlt with hleft | ⟨u, hu⟩
      · exact .inl (hshape.left_kept hleft)
      · by_cases hut : u = t
        · subst hut
          rcases hshape.headTicket_kept hu with hkept | hleft
          · exact .inr (hmover hkept)
          · exact .inl hleft
        · right
          refine ⟨u, ?_⟩
          simpa only [Function.update_of_ne hut] using hu
    · exact .inr (hmover hnew)

omit [Fintype T] in
/-- An index whose ticket is drawn is claimed. -/
theorem claimed_of_stored (hn : PowerOfTwo n) (h : (system n (T := T)).Reach ok s) {i f : ℕ}
    (hstored : Stored n s.mem i f) (hf : f < s.mem.head) : Claimed s f := by
  refine (claimed_of_drawn s h f hf).resolve_left ?_
  rw [((ticketInv_reach hn s h).ring.stored i f hstored).2]
  exact Bool.false_ne_true

/-- At most `n` threads are inside `try_dequeue`. -/
theorem few_reach : ∀ s, (system n (T := T)).Reach (FewDequeuers n) s →
    tally RingLoc.dequeuing s.loc ≤ n := by
  refine interleave_invariant ?_ ?_
  · intro s hs
    rw [tally_eq_zero]
    · exact Nat.zero_le n
    · intro t
      rw [hs.2 t]
      rfl
  · intro s t c m l _ hinv hfew hstep
    have hsum := tally_update RingLoc.dequeuing s.loc t l
    rcases (step_sound hstep).dequeuing_cases with hle | ⟨⟨last, hout⟩, rfl⟩
    · simp only
      omega
    · have hcall : c = .tryDequeue := by
        rw [hout] at hstep
        cases c with
        | tryDequeue => rfl
        | enqueue i =>
            obtain ⟨_, heq⟩ := Option.ite_none_right_eq_some.mp hstep
            cases heq
        | hand i u =>
            obtain ⟨_, heq⟩ := Option.ite_none_right_eq_some.mp hstep
            cases heq
        | go flag => cases hstep
      have hlt := hfew hcall
      simp only [RingLoc.dequeuing] at hsum ⊢
      omega

/-- What the threshold has to cover. -/
structure ThresholdInv (n : ℕ) (s : Config T (RingMem T) RingLoc) : Prop where
  covered : ∀ i f, Stored n s.mem i f → Completed s.mem i → s.mem.head ≤ f →
    ((tally RingLoc.owes s.loc : ℕ) : ℤ) + (f - s.mem.head) ≤ s.mem.threshold

omit [DecidableEq T] in
/-- The threshold that `enqueue` sets is enough. -/
theorem thresholdInv_of_reset (hnear : DistanceInv n s) (htickets : TicketInv n s)
    (hfew : tally RingLoc.dequeuing s.loc ≤ n) (hreset : s.mem.threshold = initialThreshold n) :
    ThresholdInv n s := by
  refine ⟨?_⟩
  intro i f hstored _ hhead
  have htail := (htickets.ring.stored i f hstored).1
  have hdistance := hnear.near
  have howes : tally RingLoc.owes s.loc ≤ tally RingLoc.dequeuing s.loc :=
    Finset.sum_le_sum fun _ _ => RingLoc.owes_le_dequeuing
  rw [hreset, initialThreshold]
  unfold ringSize at *
  omega

omit [DecidableEq T] in
/-- An index that is stored and whose call has returned was so before the step, unless a call
returns. -/
theorem completed_before (hn : PowerOfTwo n) (hstep : RingStep n t s.mem (s.loc t) m l)
    (htickets : TicketInv n s) (hplaces : PlaceInv n s) (hhistory : HistoryInv n s)
    (hcompleted : m.trace.completed = s.mem.trace.completed) {i f : ℕ} (hstored : Stored n m i f)
    (hdone : Completed m i) : Stored n s.mem i f ∧ Completed s.mem i := by
  obtain ⟨p, hp, hlast⟩ := hdone
  rw [hcompleted] at hp
  rcases hstep.stored_cases hn (htickets.locs t) hstored with hbefore | ⟨call, entry, heq⟩
  · obtain ⟨hheld, hcarried, _⟩ := hplaces.alone hn hbefore
    have hle := le_tally (RingLoc.carries i) s.loc t
    have hsame := (hstep.untouched hheld (by omega)).1
    rw [hsame] at hlast
    exact ⟨hbefore, p, hp, hlast⟩
  · -- the call that stores it is still under way
    have hcalls := hstep.calls_eq (by rw [heq]; nofun)
    rw [hcalls] at hlast
    have hcarries : (s.loc t).carries i ≠ 0 := by
      rw [heq]
      simp [RingLoc.carries, EnqueuePhase.carrying]
    have hone := (hplaces.alone_of_carried hcarries).2.1
    have hlength := hplaces.called i
    rw [List.getLast?_eq_getElem?, hlength, hone, Nat.add_sub_cancel] at hlast
    obtain ⟨g, hg, _⟩ := hhistory.history.early p hp i _ hlast
    have hlt := (List.getElem?_eq_some_iff.mp hg).1
    exact absurd hlt (lt_irrefl _)

/-- **Run lemma.** -/
theorem thresholdInv_reach (hn : PowerOfTwo n) :
    ∀ s, (system n (T := T)).Reach (FewDequeuers n) s → ThresholdInv n s := by
  refine interleave_invariant ?_ ?_
  · intro s hs
    refine ⟨?_⟩
    intro i f hstored _ _
    obtain ⟨holder, heq⟩ | heq := hs.1
    · rw [heq] at hstored
      cases hstored.2
    · have hreach : (system n (T := T)).Reach (FewDequeuers n) s := .init hs
      have hinv := thresholdInv_of_reset (distanceInv_reach hn s hreach)
        (ticketInv_reach hn s hreach) (few_reach s hreach) (by rw [heq]; rfl)
      exact hinv.covered i f hstored ‹_› ‹_›
  · intro s t c m l hs hinv hfew hstep
    have hshape := step_sound hstep
    have hreach : (system n (T := T)).Reach (FewDequeuers n) ⟨m, Function.update s.loc t l⟩ := by
      refine .step hs hfew (a := (t, c)) ?_
      simp [system, interleave, Config.step, hstep]
    rcases hshape.budget with hreset | ⟨hcompleted, hbudget⟩
    · exact thresholdInv_of_reset (distanceInv_reach hn _ hreach) (ticketInv_reach hn _ hreach)
        (few_reach _ hreach) hreset
    · refine ⟨?_⟩
      intro i f hstored hdone hhead
      obtain ⟨hbefore, hdone⟩ := completed_before hn hshape (ticketInv_reach hn s hs)
        (placeInv_reach hn s hs) (historyInv_reach hn s hs) hcompleted hstored hdone
      have hcovered := hinv.covered i f hbefore hdone (hshape.head_le.trans hhead)
      have hsum := tally_update RingLoc.owes s.loc t l
      simp only at hhead ⊢
      omega

end Run

end RingThreads

end EventDispatcher
