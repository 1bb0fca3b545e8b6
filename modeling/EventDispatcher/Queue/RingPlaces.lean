import EventDispatcher.Queue.RingTickets

/-!
# Where the indices are

An index is in one place: a client holds it, a call of `enqueue` has not stored it yet, or one
entry of the ring has it (`places`).  So an index is returned once for every time that it is
enqueued, and not before (`HistoryOk`).
-/

namespace EventDispatcher

open Transition

/-- The call of `enqueue` has not stored its index. -/
def EnqueuePhase.carrying : EnqueuePhase → Bool
  | .loadThreshold => false
  | .storeThreshold => false
  | _ => true

/-- Whether the thread carries index `i`, as a number. -/
def RingLoc.carries (i : ℕ) : RingLoc → ℕ
  | .enqueue j _ phase => if j = i ∧ phase.carrying = true then 1 else 0
  | _ => 0

namespace RingThreads

variable {T : Type} {n : ℕ} {t : T} {m m' : RingMem T} {l l' : RingLoc}

/-- Whether an entry has index `i`, as a number. -/
def holds (i : ℕ) (entry : RingEntry) : ℕ := if entry.index = some i then 1 else 0

theorem holds_of_none {i : ℕ} {entry : RingEntry} (h : entry.index = none) : holds i entry = 0 := by
  simp [holds, h]

/-- The number of entries with index `i`. -/
def copies (n : ℕ) (m : RingMem T) (i : ℕ) : ℕ :=
  ∑ j ∈ Finset.range (ringSize n), holds i (m.entries j)

/-- Whether a client holds index `i`, as a number. -/
def held (m : RingMem T) (i : ℕ) : ℕ := if (m.holder i).isSome then 1 else 0

theorem sum_update_add {A : Type} {S : Finset ℕ} (g : ℕ → A) (f : A → ℕ) {j : ℕ} (hj : j ∈ S)
    (a : A) : ∑ x ∈ S, f (Function.update g j a x) + f (g j) = ∑ x ∈ S, f (g x) + f a := by
  rw [← Finset.add_sum_erase _ _ hj, ← Finset.add_sum_erase _ (fun x => f (g x)) hj]
  have hrest : ∑ x ∈ S.erase j, f (Function.update g j a x) = ∑ x ∈ S.erase j, f (g x) := by
    apply Finset.sum_congr rfl
    intro x hx
    rw [Function.update_of_ne (Finset.ne_of_mem_erase hx)]
  rw [hrest, Function.update_self]
  ring

/-- What overwriting an entry does to the number of copies. -/
theorem copies_setEntry (hn : PowerOfTwo n) (ticket : ℕ) (entry : RingEntry) (i : ℕ) :
    copies n (m.setEntry (slot n ticket) entry) i + holds i (m.entries (slot n ticket)) =
      copies n m i + holds i entry :=
  sum_update_add m.entries (holds i) (Finset.mem_range.mpr (slot_lt hn ticket)) entry

theorem copies_congr (h : m'.entries = m.entries) (i : ℕ) : copies n m' i = copies n m i := by
  unfold copies
  rw [h]

theorem held_congr (h : m'.holder = m.holder) (i : ℕ) : held m' i = held m i := by
  unfold held
  rw [h]

/-- What a step moves from one place to the next. -/
structure Moved (n i : ℕ) (m m' : RingMem T) (l l' : RingLoc) : Prop where
  place : held m' i + l'.carries i + copies n m' i = held m i + l.carries i + copies n m i
  called : (m'.trace.calls i).length + (m.trace.placed i).length + l.carries i =
    (m.trace.calls i).length + (m'.trace.placed i).length + l'.carries i
  returned : (m'.trace.placed i).length + (m.trace.returns i).length + copies n m i =
    (m.trace.placed i).length + (m'.trace.returns i).length + copies n m' i

theorem Moved.quiet {i : ℕ} (hentries : m'.entries = m.entries) (hholder : m'.holder = m.holder)
    (hcalls : m'.trace.calls = m.trace.calls) (hplaced : m'.trace.placed = m.trace.placed)
    (hreturns : m'.trace.returns = m.trace.returns) (hcarries : l'.carries i = l.carries i) :
    Moved n i m m' l l' := by
  refine ⟨?_, ?_, ?_⟩
  · rw [held_congr hholder, copies_congr hentries, hcarries]
  · rw [hcalls, hplaced, hcarries]
  · rw [hplaced, hreturns, copies_congr hentries]

/-- Index `j` leaves the ring and thread `t` gets it. -/
theorem Moved.takeOut {i j d : ℕ} {entry : RingEntry} {call : ℕ}
    (hcopies : copies n m' i + holds i entry = copies n m i + 0) (hindex : entry.index = some j)
    (hholder : m'.holder = Function.update m.holder j (some t))
    (hcalls : m'.trace.calls = m.trace.calls) (hplaced : m'.trace.placed = m.trace.placed)
    (hreturns : m'.trace.returns =
      Function.update m.trace.returns j (m.trace.returns j ++ [(call, d)]))
    (hfree : held m j = 0) (hl : l.carries i = 0) (hl' : l'.carries i = 0) :
    Moved n i m m' l l' := by
  rw [add_zero] at hcopies
  by_cases hi : j = i
  · subst hi
    have hone : holds j entry = 1 := by simp [holds, hindex]
    have hnow : held m' j = 1 := by simp [held, hholder]
    have hmore : (m'.trace.returns j).length = (m.trace.returns j).length + 1 := by simp [hreturns]
    refine ⟨by omega, by rw [hcalls, hplaced, hl, hl'], ?_⟩
    rw [hplaced, hmore]
    omega
  · have hzero : holds i entry = 0 := by simp [holds, hindex, hi]
    have hsame : held m' i = held m i := by simp [held, hholder, Ne.symm hi]
    have hmore : m'.trace.returns i = m.trace.returns i := by simp [hreturns, Ne.symm hi]
    refine ⟨by omega, by rw [hcalls, hplaced, hl, hl'], ?_⟩
    rw [hplaced, hmore]
    omega

theorem carries_of_reads {i j call ticket : ℕ} {phase phase' : EnqueuePhase}
    (h : phase.Reads ticket) (h' : phase'.carrying = true) :
    (RingLoc.enqueue j call phase').carries i = (RingLoc.enqueue j call phase).carries i := by
  have hphase : phase.carrying = true := by cases h <;> rfl
  simp [RingLoc.carries, hphase, h']

/-- **Step lemma** for the places of an index. -/
theorem RingStep.moved (hn : PowerOfTwo n) (hstep : RingStep n t m l m' l') (hl : LocOk n m l)
    (hfree : ∀ i ticket, Stored n m i ticket → held m i = 0) (i : ℕ) : Moved n i m m' l l' := by
  cases hstep with
  | callEnqueue last j hheld hj =>
      by_cases hi : j = i
      · subst hi
        refine ⟨?_, ?_, ?_⟩
        · simp [held, hheld, RingLoc.carries, EnqueuePhase.carrying, copies]
        · simp [RingLoc.carries, EnqueuePhase.carrying]
          omega
        · simp [copies]
      · refine ⟨?_, ?_, ?_⟩
        · simp [held, RingLoc.carries, copies, hi, Ne.symm hi]
        · simp [RingLoc.carries, hi, Ne.symm hi]
        · simp [copies]
  | hand last j u hheld =>
      refine ⟨?_, rfl, rfl⟩
      by_cases hi : j = i
      · subst hi
        simp [held, hheld, copies]
      · simp [held, copies, Ne.symm hi]
  | place j call ticket entry hsame =>
      obtain ⟨_, _, hnone, _⟩ := hl
      have hcopies := copies_setEntry (m := m) hn ticket ⟨cycle n ticket, true, some j⟩ i
      rw [hsame, holds_of_none hnone] at hcopies
      have hsame' : copies n ((m.setEntry (slot n ticket) ⟨cycle n ticket, true, some j⟩).recordPlaced
          j ticket) i = copies n (m.setEntry (slot n ticket) ⟨cycle n ticket, true, some j⟩) i := rfl
      by_cases hi : j = i
      · subst hi
        simp only [holds, if_true] at hcopies
        refine ⟨?_, ?_, ?_⟩
        · rw [hsame']
          simp [held, RingLoc.carries, EnqueuePhase.carrying]
          omega
        · simp [RingLoc.carries, EnqueuePhase.carrying]
          omega
        · rw [hsame']
          simp
          omega
      · have hne : some j ≠ some i := fun heq => hi (Option.some.inj heq)
        simp only [holds, hne, if_false] at hcopies
        refine ⟨?_, ?_, ?_⟩
        · rw [hsame']
          simp [held, RingLoc.carries, hi]
          omega
        · simp [RingLoc.carries, Ne.symm hi, hi]
        · rw [hsame']
          simp [Ne.symm hi]
          omega
  | replace call ticket attempts entry replacement hsame =>
      have hcopies := copies_setEntry (m := m) hn ticket replacement i
      have hsame' : holds i replacement = holds i (m.entries (slot n ticket)) := by
        obtain ⟨_, _, ⟨_, rfl⟩ | ⟨hnone, rfl⟩⟩ := hl
        · rw [hsame]
          rfl
        · rw [hsame, holds_of_none hnone]
          rfl
      have hkept : copies n ((m.setEntry (slot n ticket) replacement).leave ticket) i =
          copies n m i := by
        change copies n (m.setEntry (slot n ticket) replacement) i = _
        omega
      refine ⟨?_, rfl, ?_⟩
      · rw [hkept]
        rfl
      · rw [hkept]
        rfl
  | takeOut call ticket entry =>
      obtain ⟨_, j, hentry, hstored⟩ := hl
      have hcopies := copies_setEntry (m := m) hn ticket
        { m.entries (slot n ticket) with index := none } i
      have hnone : holds i { m.entries (slot n ticket) with index := none } = 0 := holds_of_none rfl
      rw [hnone] at hcopies
      rw [hentry]
      exact .takeOut hcopies hstored.2 rfl rfl rfl rfl (hfree j ticket hstored) rfl rfl
  | disarmed | armed | arm =>
      exact .quiet rfl rfl rfl rfl rfl (by simp [RingLoc.carries, EnqueuePhase.carrying])
  | giveUp j call ticket hreads | reuseSafe j call ticket hreads
  | reuseUnsafe j call ticket hreads =>
      exact .quiet rfl rfl rfl rfl rfl (carries_of_reads hreads rfl)
  | _ => exact .quiet rfl rfl rfl rfl rfl rfl

/-- Only an exchange of `enqueue` stores an index. -/
theorem RingStep.stored_cases (hn : PowerOfTwo n) (hstep : RingStep n t m l m' l')
    (hl : LocOk n m l) {i f : ℕ} (h : Stored n m' i f) :
    Stored n m i f ∨ ∃ call entry, l = .enqueue i call (.exchange f entry) := by
  cases hstep with
  | place j call ticket entry hsame =>
      by_cases hslot : slot n f = slot n ticket
      · right
        have hcycle : cycle n ticket = cycle n f := by simpa [hslot] using h.1
        have hindex : j = i := by simpa [hslot] using h.2
        rw [ticket_eq hn hslot hcycle.symm, hindex]
        exact ⟨call, entry, rfl⟩
      · left
        simpa [Stored, hslot] using h
  | replace call ticket attempts entry replacement hsame =>
      left
      by_cases hslot : slot n f = slot n ticket
      · obtain ⟨_, _, ⟨_, rfl⟩ | ⟨_, rfl⟩⟩ := hl
        · simpa [Stored, hslot, hsame] using h
        · simp [Stored, hslot] at h
      · simpa [Stored, hslot] using h
  | takeOut call ticket entry =>
      left
      by_cases hslot : slot n f = slot n ticket
      · simp [Stored, hslot] at h
      · simpa [Stored, hslot] using h
  | _ => exact .inl h

/-- Only `fetch_or` takes an index out. -/
theorem RingStep.stored_kept (hn : PowerOfTwo n) (hstep : RingStep n t m l m' l')
    (hl : LocOk n m l) {i f : ℕ} (h : Stored n m i f) :
    Stored n m' i f ∨ ∃ call entry, l = .tryDequeue call (.claim f entry) := by
  cases hstep with
  | place j call ticket entry hsame =>
      left
      by_cases hslot : slot n f = slot n ticket
      · obtain ⟨_, _, hnone, _⟩ := hl
        rw [Stored, hslot, hsame, hnone] at h
        cases h.2
      · simpa [Stored, hslot] using h
  | replace call ticket attempts entry replacement hsame =>
      left
      by_cases hslot : slot n f = slot n ticket
      · obtain ⟨_, _, ⟨_, rfl⟩ | ⟨hnone, rfl⟩⟩ := hl
        · simpa [Stored, hslot, hsame] using h
        · rw [Stored, hslot, hsame, hnone] at h
          cases h.2
      · simpa [Stored, hslot] using h
  | takeOut call ticket entry =>
      by_cases hslot : slot n f = slot n ticket
      · obtain ⟨_, j, _, hstored⟩ := hl
        rw [h.unique_ticket hn hstored hslot]
        exact .inr ⟨call, entry, rfl⟩
      · left
        simpa [Stored, hslot] using h
  | _ => exact .inl h

/-- Only a call picks an index up. -/
theorem RingStep.carries_cases (hstep : RingStep n t m l m' l') {i : ℕ} (h : l'.carries i ≠ 0) :
    l.carries i ≠ 0 ∨ i < n := by
  cases hstep with
  | callEnqueue last j hheld hj =>
      right
      have hi : j = i := by
        by_contra hne
        simp [RingLoc.carries, hne] at h
      rw [← hi]
      exact hj
  | giveUp j call ticket hreads | reuseSafe j call ticket hreads
  | reuseUnsafe j call ticket hreads =>
      left
      rwa [carries_of_reads hreads rfl] at h
  | drawTail | headBehind | headAhead => exact .inl h
  | _ => simp [RingLoc.carries, EnqueuePhase.carrying] at h

section Run

variable [DecidableEq T] [Fintype T] {s : Config T (RingMem T) RingLoc}
  {ok : Config T (RingMem T) RingLoc → T × RingChoice T → Prop}

/-- **Every index is in one place**, and the record agrees. -/
structure PlaceInv (n : ℕ) (s : Config T (RingMem T) RingLoc) : Prop where
  one : ∀ i < n, held s.mem i + tally (RingLoc.carries i) s.loc + copies n s.mem i = 1
  stored : ∀ i ticket, Stored n s.mem i ticket → i < n
  carried : ∀ t i, (s.loc t).carries i ≠ 0 → i < n
  called : ∀ i, (s.mem.trace.calls i).length =
    (s.mem.trace.placed i).length + tally (RingLoc.carries i) s.loc
  returned : ∀ i, (s.mem.trace.placed i).length =
    (s.mem.trace.returns i).length + copies n s.mem i

omit [DecidableEq T] [Fintype T] in
/-- An index in an entry is counted. -/
theorem Stored.copies_pos (hn : PowerOfTwo n) {i ticket : ℕ} (h : Stored n m i ticket) :
    1 ≤ copies n m i := by
  have hone : holds i (m.entries (slot n ticket)) = 1 := by simp [holds, h.2]
  rw [← hone]
  exact Finset.single_le_sum (f := fun j => holds i (m.entries j)) (fun _ _ => Nat.zero_le _)
    (Finset.mem_range.mpr (slot_lt hn ticket))

omit [DecidableEq T] in
/-- An index in an entry is nowhere else. -/
theorem PlaceInv.alone (hinv : PlaceInv n s) (hn : PowerOfTwo n) {i ticket : ℕ}
    (h : Stored n s.mem i ticket) : held s.mem i = 0 ∧ tally (RingLoc.carries i) s.loc = 0 ∧
      copies n s.mem i = 1 := by
  have hone := hinv.one i (hinv.stored i ticket h)
  have hpos := h.copies_pos hn
  omega

omit [DecidableEq T] in
/-- A carried index is nowhere else. -/
theorem PlaceInv.alone_of_carried (hinv : PlaceInv n s) {t : T} {i : ℕ}
    (h : (s.loc t).carries i ≠ 0) : held s.mem i = 0 ∧ tally (RingLoc.carries i) s.loc = 1 ∧
      copies n s.mem i = 0 := by
  have hone := hinv.one i (hinv.carried t i h)
  have hle := le_tally (RingLoc.carries i) s.loc t
  omega

/-- An index has one carrier. -/
theorem PlaceInv.one_carrier (hinv : PlaceInv n s) {t u : T} {i : ℕ}
    (ht : (s.loc t).carries i ≠ 0) (hu : (s.loc u).carries i ≠ 0) : t = u := by
  by_contra hne
  have hone := (hinv.alone_of_carried ht).2.1
  have htwo : ({t, u} : Finset T).card ≤ tally (RingLoc.carries i) s.loc := by
    refine card_le_tally fun v hv => ?_
    rcases Finset.mem_insert.mp hv with rfl | hv
    · exact Nat.one_le_iff_ne_zero.mpr ht
    · rw [Finset.mem_singleton.mp hv]
      exact Nat.one_le_iff_ne_zero.mpr hu
  rw [Finset.card_pair hne, hone] at htwo
  omega

omit [DecidableEq T] in
theorem PlaceInv.unique_slot (hinv : PlaceInv n s) (hn : PowerOfTwo n) {i a b : ℕ}
    (ha : Stored n s.mem i a) (hb : Stored n s.mem i b) : a = b := by
  refine ha.unique_ticket hn hb ?_
  by_contra hne
  have hone := (hinv.alone hn ha).2.2
  have hsub : ({slot n a, slot n b} : Finset ℕ) ⊆ Finset.range (ringSize n) := by
    intro j hj
    rcases Finset.mem_insert.mp hj with rfl | hj
    · exact Finset.mem_range.mpr (slot_lt hn a)
    · rw [Finset.mem_singleton.mp hj]
      exact Finset.mem_range.mpr (slot_lt hn b)
  have htwo : ∑ j ∈ {slot n a, slot n b}, holds i (s.mem.entries j) = 2 := by
    rw [Finset.sum_pair hne]
    simp [holds, ha.2, hb.2]
  have hle := Finset.sum_le_sum_of_subset (f := fun j => holds i (s.mem.entries j)) hsub
  unfold copies at hone
  omega

omit [DecidableEq T] in
theorem fresh_placeInv (hn : PowerOfTwo n) (hm : Fresh n s.mem) (hl : ∀ t, s.loc t = .outside none) :
    PlaceInv n s := by
  have hnone : ∀ i, tally (RingLoc.carries i) s.loc = 0 := by
    intro i
    refine tally_eq_zero fun t => ?_
    rw [hl t]
    rfl
  have hcarried : ∀ t i, (s.loc t).carries i ≠ 0 → i < n := by
    intro t i hi
    rw [hl t] at hi
    exact absurd rfl hi
  obtain ⟨holder, heq⟩ | heq := hm
  · have hcopies : ∀ i, copies n s.mem i = 0 := by
      intro i
      rw [heq]
      exact Finset.sum_eq_zero fun j _ => rfl
    refine ⟨?_, ?_, hcarried, ?_, ?_⟩
    · intro i _
      rw [hnone, hcopies, heq]
      rfl
    · intro i ticket hi
      rw [heq] at hi
      cases hi.2
    · intro i
      rw [hnone, heq]
      rfl
    · intro i
      rw [hcopies, heq]
      rfl
  · have hcopies : ∀ i, copies n s.mem i = if i < n then 1 else 0 := by
      intro i
      rw [heq]
      have hterm : ∀ j, holds i ((initializeFull n : RingMem T).entries j) =
          if j = i then (if i < n then 1 else 0) else 0 := by
        intro j
        by_cases hj : j < n
        · by_cases hi : j = i
          · subst hi
            simp [holds, initializeFull, hj]
          · simp [holds, initializeFull, hj, hi]
        · by_cases hi : j = i
          · subst hi
            simp [holds, initializeFull, hj]
          · simp [holds, initializeFull, hj, hi]
      unfold copies
      simp only [hterm, Finset.sum_ite_eq', Finset.mem_range]
      by_cases hi : i < n
      · have hlt : i < ringSize n := by
          unfold ringSize
          omega
        simp [hi, hlt]
      · simp [hi]
    refine ⟨?_, ?_, hcarried, ?_, ?_⟩
    · intro i hi
      rw [hnone, hcopies, if_pos hi, heq]
      rfl
    · intro i ticket hi
      by_contra hle
      have hpos := hi.copies_pos hn
      rw [hcopies, if_neg hle] at hpos
      omega
    · intro i
      rw [hnone, heq]
      by_cases hi : i < n <;> simp [initializeFull, hi]
    · intro i
      rw [hcopies, heq]
      by_cases hi : i < n <;> simp [initializeFull, hi]

/-- **Run lemma.** -/
theorem placeInv_reach (hn : PowerOfTwo n) :
    ∀ s, (system n (T := T)).Reach ok s → PlaceInv n s := by
  refine interleave_invariant ?_ ?_
  · intro s hs
    exact fresh_placeInv hn hs.1 hs.2
  · intro s t c m l hs hinv _ hstep
    have hshape := step_sound hstep
    have htickets := ticketInv_reach hn s hs
    have hmoved := hshape.moved hn (htickets.locs t) fun i ticket hi => (hinv.alone hn hi).1
    have htally := fun i => tally_update (RingLoc.carries i) s.loc t l
    refine ⟨?_, ?_, ?_, ?_, ?_⟩
    · intro i hi
      have hone := hinv.one i hi
      have hplace := (hmoved i).place
      have hsum := htally i
      simp only
      omega
    · intro i ticket hi
      rcases hshape.stored_cases hn (htickets.locs t) hi with hbefore | ⟨call, entry, heq⟩
      · exact hinv.stored i ticket hbefore
      · refine hinv.carried t i ?_
        rw [heq]
        simp [RingLoc.carries, EnqueuePhase.carrying]
    · intro u i hu
      by_cases hut : u = t
      · subst hut
        simp only [Function.update_self] at hu
        rcases hshape.carries_cases hu with hbefore | hi
        · exact hinv.carried u i hbefore
        · exact hi
      · simp only [Function.update_of_ne hut] at hu
        exact hinv.carried u i hu
    · intro i
      have hcalled := (hmoved i).called
      have hbefore := hinv.called i
      have hsum := htally i
      simp only
      omega
    · intro i
      have hreturned := (hmoved i).returned
      have hbefore := hinv.returned i
      simp only
      omega

end Run

end RingThreads

end EventDispatcher
