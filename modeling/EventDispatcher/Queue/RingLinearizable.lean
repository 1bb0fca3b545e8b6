import EventDispatcher.Queue.RingThreshold

/-!
# The index ring as a FIFO of its indices

What the record of a run says: the calls and returns of an index alternate, an index that was
enqueued is returned, inside or on its way in, and what was enqueued earlier is not returned by a
later call (`Linearized`).  This holds of every run.

That `try_dequeue` finds an index whose `enqueue` has returned is a matter of the threshold
(`ThresholdInv`), and holds as long as no more than `n` calls of it are under way.
-/

namespace EventDispatcher

open Transition

namespace RingThreads

variable {T : Type} {n : ℕ} {t : T} {m m' : RingMem T} {l l' : RingLoc}

/-- The ring has behaved as a FIFO so far.  The `k`-th return of an index belongs to its `k`-th
call of `enqueue`; calls and returns have times. -/
structure Linearized [DecidableEq T] (n : ℕ) (s : Config T (RingMem T) RingLoc) : Prop where
  /-- what is returned was enqueued -/
  enqueued : ∀ (i k : ℕ) r, (s.mem.trace.returns i)[k]? = some r →
    ∃ c, (s.mem.trace.calls i)[k]? = some c ∧ c < r.2
  /-- and not returned since -/
  once : ∀ (i k c : ℕ), (s.mem.trace.calls i)[k + 1]? = some c →
    ∃ r, (s.mem.trace.returns i)[k]? = some r ∧ r.2 < c
  /-- an index that has not been returned is in a call of `enqueue`, or waits in the ring, or is
  claimed by a call of `try_dequeue` -/
  kept : ∀ i, (s.mem.trace.calls i).length ≠ (s.mem.trace.returns i).length →
    (∃ t call phase, s.loc t = .enqueue i call phase ∧ phase.carrying = true) ∨
      ∃ f, Stored n s.mem i f ∧ (s.mem.head ≤ f ∨ Claimed s f)
  /-- a call that has claimed an index returns it -/
  claimed : ∀ t i f c s', (s.loc t).headTicket = some f → Stored n s.mem i f →
    Config.step (step n) s (t, c) = some s' →
    s'.loc t = .outside (some (.dequeued (some i))) ∨
      Stored n s'.mem i f ∧ ∃ call entry, s'.loc t = .tryDequeue call (.claim f entry)
  /-- if `enqueue(a)` returns before `enqueue(b)` is called, then the call that returns `a` begins
  before the one that returns `b` is over -/
  fifo : ∀ (a b p q : ℕ) call ret later start done start' done',
    (s.mem.trace.calls a)[p]? = some call → (call, ret) ∈ s.mem.trace.completed →
    (s.mem.trace.calls b)[q]? = some later → ret < later →
    (s.mem.trace.returns a)[p]? = some (start, done) →
    (s.mem.trace.returns b)[q]? = some (start', done') → start < done'

/-- Whether, at some instant of the call of `try_dequeue` that a thread is in, every index whose
`enqueue` had returned was claimed. -/
def observe (n : ℕ) (_ : Config T (RingMem T) RingLoc) (a : T × RingChoice T)
    (s' : Config T (RingMem T) RingLoc) (empty : T → Prop) : T → Prop :=
  fun t => AllClaimed n s' ∨ a ≠ (t, .tryDequeue) ∧ empty t

/-- The threads, with what they could observe. -/
def watched (n : ℕ) [DecidableEq T] :
    System (Config T (RingMem T) RingLoc × (T → Prop)) (T × RingChoice T) :=
  (system n).watch (observe n)

/-- The phases of `try_dequeue` after it has seen the tail behind. -/
def DequeuePhase.late : DequeuePhase → Bool
  | .catchUp _ _ => true
  | .catchHead => true
  | .catchTail _ => true
  | .decrementLast => true
  | _ => false

section Steps

/-- A call with the ticket of a stored index claims it or returns it. -/
theorem RingStep.claim (hstep : RingStep n t m l m' l') (hl : LocOk n m l)
    {i f : ℕ} (hticket : l.headTicket = some f) (hstored : Stored n m i f) :
    l' = .outside (some (.dequeued (some i))) ∨
      Stored n m' i f ∧ ∃ call entry, l' = .tryDequeue call (.claim f entry) := by
  cases hstep with
  | found call ticket hreads hcycle =>
      rw [headTicket_of_reads hreads] at hticket
      cases hticket
      exact .inr ⟨hstored, call, _, rfl⟩
  | occupied call ticket attempts hreads hcycle | vacant call ticket attempts hreads hcycle =>
      rw [headTicket_of_reads hreads] at hticket
      cases hticket
      exact absurd hstored.1 hcycle.ne
  | leave call ticket hreads hother | spin call ticket attempts hreads hother =>
      rw [headTicket_of_reads hreads] at hticket
      cases hticket
      exact absurd hstored.1 hother
  | replace call ticket attempts entry replacement hsame =>
      cases hticket
      obtain ⟨_, hcycle, _⟩ := hl
      rw [← hsame] at hcycle
      exact absurd hstored.1 hcycle.ne
  | takeOut call ticket entry =>
      cases hticket
      obtain ⟨_, j, hindex, hclaimed⟩ := hl
      have hij : j = i := by
        have heq := hclaimed.2
        rw [hstored.2] at heq
        exact (Option.some.inj heq).symm
      left
      rw [hindex, hij]
      rfl
  | _ => cases hticket

/-- Only a call that has seen the tail behind is late. -/
theorem RingStep.late_cases (hstep : RingStep n t m l m' l') {call : ℕ} {phase : DequeuePhase}
    (hl' : l' = .tryDequeue call phase) (hlate : DequeuePhase.late phase = true) :
    (∃ phase', l = .tryDequeue call phase' ∧ DequeuePhase.late phase' = true) ∨
      ∃ ticket, l = .tryDequeue call (.loadTail ticket) ∧ m.tail ≤ ticket + 1 := by
  cases hstep with
  | tailBehind call' ticket htail =>
      cases hl'
      exact .inr ⟨ticket, rfl, htail⟩
  | caughtUp | catchAgain | catchHead | catchTail | catchDone =>
      cases hl'
      exact .inl ⟨_, rfl, rfl⟩
  | callEnqueue | hand | drawTail | giveUp | reuseSafe | reuseUnsafe | headBehind | headAhead
  | place | disarmed | armed | arm | exhausted | takeOut | decrementOut | decrementLast => cases hl'
  | _ =>
      cases hl'
      cases hlate

/-- Where `try_dequeue` returns nothing. -/
theorem RingStep.none_cases (hstep : RingStep n t m l m' l') {call : ℕ} {phase : DequeuePhase}
    (hl : l = .tryDequeue call phase) (hl' : l' = .outside (some (.dequeued none))) :
    (phase = .loadThreshold ∧ m.threshold < 0) ∨ (phase = .decrement ∧ m.threshold ≤ 0) ∨
      DequeuePhase.late phase = true := by
  cases hstep with
  | exhausted call' hthreshold =>
      cases hl
      exact .inl ⟨rfl, hthreshold⟩
  | decrementOut call' hthreshold =>
      cases hl
      exact .inr (.inl ⟨rfl, hthreshold⟩)
  | decrementLast call' =>
      cases hl
      exact .inr (.inr rfl)
  | callEnqueue | callDequeue | hand | armed | arm => cases hl
  | _ => cases hl'

end Steps

section Run

variable [DecidableEq T] [Fintype T] {s : Config T (RingMem T) RingLoc} {empty : T → Prop}
  {ok : Config T (RingMem T) RingLoc → T × RingChoice T → Prop}

omit [DecidableEq T] in
/-- An index that has not been returned is somewhere. -/
theorem PlaceInv.somewhere (hplaces : PlaceInv n s) (htickets : TicketInv n s) {i : ℕ}
    (hopen : (s.mem.trace.calls i).length ≠ (s.mem.trace.returns i).length) :
    (∃ t, (s.loc t).carries i ≠ 0) ∨ ∃ f, Stored n s.mem i f := by
  have hcalled := hplaces.called i
  have hreturned := hplaces.returned i
  by_cases hcarried : tally (RingLoc.carries i) s.loc = 0
  · right
    have hcopies : copies n s.mem i ≠ 0 := by omega
    obtain ⟨j, _, hj⟩ := Finset.exists_ne_zero_of_sum_ne_zero hcopies
    have hindex : (s.mem.entries j).index = some i := by
      by_contra hne
      simp [holds, hne] at hj
    obtain ⟨f, _, hstored⟩ := htickets.ring.ticketed j i hindex
    exact ⟨f, hstored⟩
  · left
    by_contra hnone
    refine hcarried (tally_eq_zero ?_)
    intro t
    by_contra ht
    exact hnone ⟨t, ht⟩

omit [DecidableEq T] [Fintype T] in
/-- Indices leave in the order of their tickets. -/
theorem HistoryOk.fifo (hm : HistoryOk n m) {a b p q call ret later start done start' done' : ℕ}
    (hcall : (m.trace.calls a)[p]? = some call) (hret : (call, ret) ∈ m.trace.completed)
    (hlater : (m.trace.calls b)[q]? = some later) (hlt : ret < later)
    (ha : (m.trace.returns a)[p]? = some (start, done))
    (hb : (m.trace.returns b)[q]? = some (start', done')) : start < done' := by
  obtain ⟨f, hf, _, hstart, _⟩ := hm.drawn a p _ ha
  obtain ⟨g, hg, _, _, hearlier⟩ := hm.drawn b q _ hb
  obtain ⟨f', hf', _, hbefore⟩ := hm.early _ hret a p hcall
  obtain rfl : f' = f := Option.some.inj (hf'.symm.trans hf)
  -- the tail when `enqueue(b)` was called lies between the two tickets
  have hlength : q < (m.trace.tails b).length := by
    rw [hm.tails_length]
    exact (List.getElem?_eq_some_iff.mp hlater).1
  have htail := List.getElem?_eq_getElem hlength
  have hfirst := hbefore b q later _ hlater htail hlt
  have hsecond := hm.late b q _ g htail hg
  have hstarts := hearlier f' (by omega)
  simp only at hstart hstarts
  omega

/-- **Run lemma.** -/
theorem linearized_reach (hn : PowerOfTwo n) (h : (system n (T := T)).Reach ok s) :
    Linearized n s := by
  have htickets := ticketInv_reach hn s h
  have hplaces := placeInv_reach hn s h
  have hhistory := (historyInv_reach hn s h).history
  refine ⟨hhistory.before, hhistory.after, ?_, ?_, ?_⟩
  · intro i hopen
    rcases hplaces.somewhere htickets hopen with ⟨t, ht⟩ | ⟨f, hf⟩
    · left
      cases hl : s.loc t with
      | enqueue j call phase =>
          rw [hl] at ht
          by_cases hji : j = i ∧ phase.carrying = true
          · exact ⟨t, call, phase, by rw [hl, hji.1], hji.2⟩
          · simp [RingLoc.carries, hji] at ht
      | _ =>
          rw [hl] at ht
          exact absurd rfl ht
    · right
      refine ⟨f, hf, ?_⟩
      rcases Nat.lt_or_ge f s.mem.head with hlt | hge
      · exact .inr (claimed_of_stored hn h hf hlt)
      · exact .inl hge
  · intro t i f c s' hticket hstored hstep
    obtain ⟨m, l, hprog, rfl⟩ := Config.step_eq_some hstep
    simp only [Function.update_self]
    exact (step_sound hprog).claim (htickets.locs t) hticket hstored
  · intro a b p q call ret later start done start' done' hcall hret hlater hlt ha hb
    exact hhistory.fifo hcall hret hlater hlt ha hb

/-- If the threshold does not cover an index ahead of the head, every index is claimed. -/
theorem ThresholdInv.allClaimed (hn : PowerOfTwo n) (h : (system n (T := T)).Reach ok s)
    (hinv : ThresholdInv n s)
    (hlow : s.mem.threshold < (tally RingLoc.owes s.loc : ℕ)) : AllClaimed n s := by
  intro i f hstored hdone
  refine claimed_of_stored hn h hstored ?_
  by_contra hge
  have hcovered := hinv.covered i f hstored hdone (not_lt.mp hge)
  omega

/-- What a call of `try_dequeue` has observed. -/
structure ObserveInv (n : ℕ) (s : Config T (RingMem T) RingLoc) (empty : T → Prop) : Prop where
  now : ∀ t call phase, s.loc t = .tryDequeue call phase → AllClaimed n s → empty t
  late : ∀ t call phase, s.loc t = .tryDequeue call phase → DequeuePhase.late phase = true → empty t

omit [Fintype T] in
/-- **Run lemma** for what is observed. -/
theorem observeInv_reach (hn : PowerOfTwo n) : ∀ p : Config T (RingMem T) RingLoc × (T → Prop),
    (watched n).Reach (fun p a => ok p.1 a) p → ObserveInv n p.1 p.2 := by
  refine System.Reach.invariant ?_ ?_
  · intro p hp
    have hout := hp.2
    refine ⟨?_, ?_⟩
    · intro t call phase hl
      rw [hout t] at hl
      cases hl
    · intro t call phase hl
      rw [hout t] at hl
      cases hl
  · intro p a p' hreach hinv _ hstep
    have hreach := System.Reach.of_watched hreach
    obtain ⟨s', hs', rfl⟩ := Option.map_eq_some_iff.mp hstep
    obtain ⟨t, c⟩ := a
    obtain ⟨m, l, hprog, rfl⟩ := Config.step_eq_some hs'
    have hshape := step_sound hprog
    -- a thread in a call does not call
    have hsame : ∀ {call phase}, p.1.loc t = .tryDequeue call phase → c ≠ .tryDequeue := by
      rintro call phase hl rfl
      rw [hl] at hprog
      cases hprog
    refine ⟨?_, ?_⟩
    · intro u call phase _ hall
      exact .inl hall
    · intro u call phase hu hlate
      right
      by_cases hut : u = t
      · subst hut
        simp only [Function.update_self] at hu
        rcases hshape.late_cases hu hlate with ⟨phase', hl, hlate'⟩ | ⟨ticket, hl, htail⟩
        · refine ⟨?_, hinv.late u call phase' hl hlate'⟩
          intro heq
          exact hsame hl (congrArg Prod.snd heq)
        · refine ⟨?_, hinv.now u call _ hl ?_⟩
          · intro heq
            exact hsame hl (congrArg Prod.snd heq)
          · -- the tail is not ahead of the head
            intro i f hstored _
            refine claimed_of_stored hn hreach hstored ?_
            have hdrawn := ((ticketInv_reach hn _ hreach).ring.stored i f hstored).1
            have hticket := (ticketInv_reach hn _ hreach).locs u
            rw [hl] at hticket
            have hticket : ticket < p.1.mem.head := hticket
            omega
      · simp only [Function.update_of_ne hut] at hu
        refine ⟨?_, hinv.late u call phase hu hlate⟩
        intro heq
        exact hut (congrArg Prod.fst heq).symm

/-- **The ring is a FIFO of its indices** as long as no more than `n` calls of `try_dequeue` are
under way: such a call returns nothing only if at some instant of it every index whose `enqueue`
had returned was claimed. -/
theorem linearizable_of_few (hn : PowerOfTwo n)
    (h : (watched n (T := T)).Reach (fun p a => FewDequeuers n p.1 a) (s, empty)) :
    Linearized n s ∧ ∀ t c s' call phase, s.loc t = .tryDequeue call phase →
      (system n).step s (t, c) = some s' → s'.loc t = .outside (some (.dequeued none)) →
      empty t := by
  have hreach : (system n).Reach (FewDequeuers n) s := System.Reach.of_watched h
  have hobserved : ObserveInv n s empty := observeInv_reach hn _ h
  have hcovered := thresholdInv_reach hn s hreach
  refine ⟨linearized_reach hn hreach, ?_⟩
  intro t c s' call phase hl hstep hnone
  obtain ⟨m, l, hprog, rfl⟩ := Config.step_eq_some hstep
  simp only [Function.update_self] at hnone
  rcases (step_sound hprog).none_cases hl hnone with ⟨_, hlow⟩ | ⟨rfl, hlow⟩ | hlate
  · refine hobserved.now t call phase hl (hcovered.allClaimed hn hreach ?_)
    omega
  · refine hobserved.now t call _ hl (hcovered.allClaimed hn hreach ?_)
    have howes := le_tally RingLoc.owes s.loc t
    rw [hl] at howes
    simp only [RingLoc.owes] at howes
    omega
  · exact hobserved.late t call phase hl hlate

omit [DecidableEq T] [Fintype T] in
/-- A schedule that lets `t` take `k` plain steps. -/
def advance (t : T) (k : ℕ) : List (T × RingChoice T) := List.replicate k (t, .go false)

/-- Two indices are enqueued, and the call that returns the second is over first, but the other
has begun; and a call returns nothing while an `enqueue` has stored its index and not returned. -/
theorem linearizable_of_few_of_two :
    (∃ (s : Config (Fin 2) (RingMem (Fin 2)) RingLoc) (empty : Fin 2 → Prop),
      (watched 2).Reach (fun p a => FewDequeuers 2 p.1 a) (s, empty) ∧
      s.mem.trace.returns 0 = [(5, 8)] ∧ s.mem.trace.returns 1 = [(6, 7)] ∧ Linearized 2 s) ∧
    ∃ (s : Config (Fin 2) (RingMem (Fin 2)) RingLoc) (empty : Fin 2 → Prop),
      (watched 2).Reach (fun p a => FewDequeuers 2 p.1 a) (s, empty) ∧
      (s.mem.entries 0).index = some 0 ∧ empty 1 := by
  refine ⟨?_, ?_⟩
  · obtain ⟨⟨s, empty⟩, hs, hp⟩ := System.exists_reach_of_run (watched 2 (T := Fin 2))
      (fun p a => FewDequeuers 2 p.1 a) (fun p a => decide (FewDequeuers 2 p.1 a))
      (s := (⟨initializeEmpty fun _ => 0, fun _ => .outside none⟩, fun _ => True))
      ⟨.inl ⟨_, rfl⟩, fun _ => rfl⟩
      ((0, .enqueue 0) :: advance 0 5 ++ (0, .enqueue 1) :: advance 0 4 ++
        (1, .tryDequeue) :: advance 1 2 ++ (0, .tryDequeue) :: advance 0 4 ++ advance 1 2)
      (fun p => decide (p.1.mem.trace.returns 0 = [(5, 8)] ∧ p.1.mem.trace.returns 1 = [(6, 7)]))
      (fun _ _ _ h => of_decide_eq_true h) (by decide +kernel)
    obtain ⟨hzero, hone⟩ := of_decide_eq_true hp
    exact ⟨s, empty, hs, hzero, hone, (linearizable_of_few ⟨0, rfl⟩ hs).1⟩
  · obtain ⟨⟨s, empty⟩, hs, hp⟩ := System.exists_reach_of_run (watched 2 (T := Fin 2))
      (fun p a => FewDequeuers 2 p.1 a) (fun p a => decide (FewDequeuers 2 p.1 a))
      (s := (⟨initializeEmpty fun _ => 0, fun _ => .outside none⟩, fun _ => True))
      ⟨.inl ⟨_, rfl⟩, fun _ => rfl⟩
      ((0, .enqueue 0) :: advance 0 3 ++ [(1, .tryDequeue)])
      (fun p => decide (p.1.loc 1 = .tryDequeue 2 .loadThreshold ∧ p.1.mem.threshold < 0 ∧
        (p.1.mem.entries 0).index = some 0))
      (fun _ _ _ h => of_decide_eq_true h) (by decide +kernel)
    obtain ⟨hl, hlow, hindex⟩ := of_decide_eq_true hp
    refine ⟨s, empty, hs, hindex, ?_⟩
    refine (linearizable_of_few ⟨0, rfl⟩ hs).2 1 (.go false)
      ⟨s.mem.tick, Function.update s.loc 1 (.outside (some (.dequeued none)))⟩ 2 .loadThreshold hl
      ?_ ?_
    · have hlow : s.mem.threshold < 0 := hlow
      have hl : s.loc 1 = .tryDequeue 2 .loadThreshold := hl
      simp [system, interleave, Config.step, step, stepDequeue, hl, hlow]
    · simp

end Run

section Stall

variable [DecidableEq T]

/-- `try_dequeue` loads a vacant entry until it may not any more; any other step is a step. -/
def leap (n : ℕ) (s : Config T (RingMem T) RingLoc) (a : T × RingChoice T) :
    Option (Config T (RingMem T) RingLoc) :=
  match s.loc a.1 with
  | .tryDequeue call (.load ticket 0) =>
      if (s.mem.entries (slot n ticket)).cycle < cycle n ticket ∧
          (s.mem.entries (slot n ticket)).index = none then
        some ⟨s.mem, Function.update s.loc a.1
          (.tryDequeue call (.load ticket IndexRing.catchupAttempts))⟩
      else Config.step (step n) s a
  | _ => Config.step (step n) s a

/-- The loads of a vacant entry. -/
theorem spin_steps {s : Config T (RingMem T) RingLoc} {call ticket : ℕ}
    (hl : s.loc t = .tryDequeue call (.load ticket 0))
    (hcycle : (s.mem.entries (slot n ticket)).cycle < cycle n ticket)
    (hindex : (s.mem.entries (slot n ticket)).index = none) :
    ∀ k ≤ IndexRing.catchupAttempts, (system n).Steps (fun _ _ => True) s
      ⟨s.mem, Function.update s.loc t (.tryDequeue call (.load ticket k))⟩ := by
  intro k
  induction k with
  | zero =>
      intro _
      rw [← hl, Function.update_eq_self]
      exact .refl
  | succ k ih =>
      intro hk
      refine .tail (ih (by omega)) trivial (a := (t, .go false)) ?_
      have hexamine : examine n ticket k (s.mem.entries (slot n ticket)) = .load ticket (k + 1) := by
        simp [examine, hcycle.ne, hindex, hk]
      simp [system, interleave, Config.step, step, stepDequeue, tryClaim, hexamine]

theorem leap_steps {s s' : Config T (RingMem T) RingLoc} {a : T × RingChoice T}
    (h : leap n s a = some s') : (system n).Steps (fun _ _ => True) s s' := by
  unfold leap at h
  split at h
  · next call ticket hl =>
      split at h
      · next hvacant =>
          cases h
          exact spin_steps hl hvacant.1 hvacant.2 _ le_rfl
      · exact .tail .refl trivial h
  · exact .tail .refl trivial h

/-- The threads, where loading a vacant entry is one step. -/
def leaps (n : ℕ) : System (Config T (RingMem T) RingLoc) (T × RingChoice T) where
  init := (system n).init
  step := leap n

/-- Thread `t` has called `try_dequeue`. -/
def dequeueCalled (s : Config T (RingMem T) RingLoc) (t : T) : Config T (RingMem T) RingLoc :=
  ⟨s.mem.tick, Function.update s.loc t (.tryDequeue s.mem.trace.clock .loadThreshold)⟩

/-- If the threshold has run out, a call returns nothing whatever waits in the ring. -/
theorem false_empty (hn : PowerOfTwo n) {s : Config T (RingMem T) RingLoc}
    (h : (system n).Reachable s) {last : Option RingReturn} (hl : s.loc t = .outside last)
    (hlow : s.mem.threshold < 0) {i f : ℕ} (hstored : Stored n s.mem i f)
    (hdone : Completed s.mem i) (hhead : s.mem.head ≤ f) :
    ∃ p : Config T (RingMem T) RingLoc × (T → Prop), (watched n).Reachable p ∧
      ∃ s' call phase, p.1.loc t = .tryDequeue call phase ∧
        (system n).step p.1 (t, .go false) = some s' ∧
        s'.loc t = .outside (some (.dequeued none)) ∧ ¬ p.2 t := by
  obtain ⟨empty, hwatched⟩ := h.exists_watched (ρ := T → Prop) (observe n)
  have hcall : (system n).step s (t, .tryDequeue) = some (dequeueCalled s t) := by
    simp [system, interleave, Config.step, step, hl, dequeueCalled]
  have hreach : (system n).Reachable (dequeueCalled s t) := .step h trivial hcall
  refine ⟨(dequeueCalled s t, observe n s (t, .tryDequeue) (dequeueCalled s t) empty),
    .step hwatched trivial (a := (t, .tryDequeue)) ?_,
    ⟨s.mem.tick.tick, Function.update (dequeueCalled s t).loc t (.outside (some (.dequeued none)))⟩,
    s.mem.trace.clock, .loadThreshold, ?_, ?_, ?_, ?_⟩
  · simp [watched, System.watch, hcall]
  · simp [dequeueCalled]
  · simp [system, interleave, Config.step, step, stepDequeue, hlow, dequeueCalled]
  · simp
  · rintro (hall | ⟨hne, _⟩)
    · obtain ⟨u, hu⟩ := hall i f hstored hdone
      have hdrawn := (((ticketInv_reach hn _ hreach).locs u).head hu).1
      have hdrawn : f < s.mem.head := hdrawn
      omega
    · exact hne rfl

/-- The six threads that stop in the middle of `try_dequeue`. -/
def dequeuers : List (Fin 7) := [0, 1, 2, 3, 4, 5]

/-- Six calls of `try_dequeue` pass the test of the threshold, find nothing and stop before their
last decrement; then an index is enqueued, and their decrements use up the threshold. -/
theorem try_dequeue_misses_index :
    ∃ p : Config (Fin 7) (RingMem (Fin 7)) RingLoc × (Fin 7 → Prop), (watched 2).Reachable p ∧
      ∃ s' call phase, p.1.loc 6 = .tryDequeue call phase ∧
        (system 2).step p.1 (6, .go false) = some s' ∧
        s'.loc 6 = .outside (some (.dequeued none)) ∧ ¬ p.2 6 := by
  obtain ⟨s, hs, hp⟩ := System.exists_reach_of_run (leaps 2 (T := Fin 7)) (fun _ _ => True)
    (fun _ _ => true) (s := ⟨initializeEmpty fun _ => 6, fun _ => .outside none⟩)
    ⟨.inl ⟨_, rfl⟩, fun _ => rfl⟩
    ((6, .enqueue 0) :: advance 6 5 ++ dequeuers.flatMap (fun t => (t, .tryDequeue) :: advance t 1) ++
      (6, .tryDequeue) :: advance 6 4 ++ dequeuers.flatMap (advance · 6) ++
      (6, .enqueue 1) :: advance 6 4 ++ dequeuers.flatMap (advance · 1))
    (fun s => decide (s.loc 6 = .outside (some .enqueued) ∧ s.mem.threshold < 0 ∧
      s.mem.entries (slot 2 7) = ⟨cycle 2 7, true, some 1⟩ ∧ s.mem.head ≤ 7 ∧
      ∃ p ∈ s.mem.trace.completed, (s.mem.trace.calls 1).getLast? = some p.1))
    (fun _ _ _ _ => trivial) (by decide +kernel)
  obtain ⟨hl, hlow, hentry, hhead, hdone⟩ := of_decide_eq_true hp
  have hreach : (system 2).Reachable s :=
    System.Reach.of_leaps hs (fun _ h => h) fun _ _ _ h => leap_steps h
  have hstored : Stored 2 s.mem 1 7 := by rw [Stored, hentry]; exact ⟨rfl, rfl⟩
  exact false_empty ⟨0, rfl⟩ hreach hl hlow hstored hdone hhead

end Stall

section Always

variable [DecidableEq T] [Fintype T]

/-- **Safety at any load.**  However many calls are under way: what `try_dequeue` returns is in
order; an index below `n` is with one client, or in one call of `enqueue`, or in one entry, and
nothing else is in an entry; and `tail` is never more than the size of the ring ahead of `head`.
Only that `try_dequeue` finds something is a matter of the threshold. -/
theorem safe_at_any_load (hn : PowerOfTwo n) {s : Config T (RingMem T) RingLoc}
    (h : (system n).Reachable s) :
    Linearized n s ∧
      (∀ i < n, held s.mem i + tally (RingLoc.carries i) s.loc + copies n s.mem i = 1) ∧
      (∀ i ticket, Stored n s.mem i ticket → i < n) ∧ s.mem.tail ≤ s.mem.head + ringSize n := by
  have hplaces := placeInv_reach hn s h
  exact ⟨linearized_reach hn h, hplaces.one, hplaces.stored, (distanceInv_reach hn s h).near⟩

/-- Three calls of `try_dequeue` have drawn tickets of a ring for two indices, and the first one
has returned an index. -/
theorem safe_at_any_load_of_three :
    ∃ s : Config (Fin 4) (RingMem (Fin 4)) RingLoc, s.mem.head = 3 ∧
      s.mem.trace.returns 0 = [(3, 6)] ∧ Linearized 2 s ∧ s.mem.tail ≤ s.mem.head + ringSize 2 := by
  obtain ⟨s, hs, hp⟩ := System.exists_reach_of_run (system 2 (T := Fin 4)) (fun _ _ => True)
    (fun _ _ => true) (s := ⟨initializeEmpty fun _ => 0, fun _ => .outside none⟩)
    ⟨.inl ⟨_, rfl⟩, fun _ => rfl⟩
    ((0, .enqueue 0) :: advance 0 5 ++ (1, .tryDequeue) :: advance 1 2 ++ (2, .tryDequeue) :: advance 2 2 ++
      (3, .tryDequeue) :: advance 3 2 ++ advance 1 2)
    (fun s => decide (s.mem.head = 3 ∧ s.mem.trace.returns 0 = [(3, 6)]))
    (fun _ _ _ _ => trivial) (by decide +kernel)
  obtain ⟨hhead, hreturns⟩ := of_decide_eq_true hp
  obtain ⟨hordered, _, _, hnear⟩ := safe_at_any_load ⟨0, rfl⟩ hs
  exact ⟨s, hhead, hreturns, hordered, hnear⟩

end Always

end RingThreads

end EventDispatcher
