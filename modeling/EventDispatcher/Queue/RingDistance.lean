import EventDispatcher.Queue.RingOrder

/-!
# How far the tail runs ahead of the head

Of the tail tickets that no `try_dequeue` has reached, some have an index, in an entry or in the
hands of a call of `enqueue`, and the others were given up because an index of an earlier turn was
still in their way.  An index that moves on gets a ticket behind these, so it is to blame for one
of them at most.  There are `n` indices; hence the tail is never more than `2 * n` tickets ahead
(`DistanceInv.near`).
-/

namespace EventDispatcher

open Transition

namespace RingThreads

variable {T : Type} {n : ℕ} {t : T} {m m' : RingMem T} {l l' : RingLoc}

theorem exists_ticket (hn : PowerOfTwo n) {j : ℕ} (hj : j < ringSize n) {c : ℤ} (hc : 0 ≤ c) :
    ∃ ticket, slot n ticket = j ∧ cycle n ticket = c := by
  obtain ⟨k, rfl⟩ := Int.eq_ofNat_of_zero_le hc
  refine ⟨ringSize n * k + j, ?_, ?_⟩
  · rw [slot_eq hn, Nat.mul_add_mod, Nat.mod_eq_of_lt hj]
  · rw [cycle, Nat.mul_add_div (ringSize_pos hn), Nat.div_eq_of_lt hj, add_zero]

/-- Index `i` has a tail ticket: it is stored with it, or a call of `enqueue` tries to. -/
def Occupied (n : ℕ) (s : Config T (RingMem T) RingLoc) (i f : ℕ) : Prop :=
  (∃ t, (s.loc t).tailTicket = some f ∧ (s.loc t).carries i ≠ 0) ∨ Stored n s.mem i f

/-- The tail tickets that no `try_dequeue` has drawn. -/
def undrawn (s : Config T (RingMem T) RingLoc) : Finset ℕ := Finset.Ico s.mem.head s.mem.tail

/-- Each of these tickets has an index or was given up, and then an index is to blame. -/
structure DistanceInv (n : ℕ) (s : Config T (RingMem T) RingLoc) : Prop where
  near : s.mem.tail ≤ s.mem.head + ringSize n
  blamed : ∀ f i, s.mem.trace.blame f = some i → f < s.mem.tail ∧ i < n
  fate : ∀ f, s.mem.head ≤ f → f < s.mem.tail →
    (∃ i, Occupied n s i f) ∨ ∃ i, s.mem.trace.blame f = some i
  once : ∀ f g i, s.mem.head ≤ f → s.mem.head ≤ g → s.mem.trace.blame f = some i →
    s.mem.trace.blame g = some i → f = g
  /-- the index to blame is still in the way, or has a ticket behind -/
  behind : ∀ f i, s.mem.head ≤ f → s.mem.trace.blame f = some i → ∀ g, Occupied n s i g →
    g < f ∧ slot n g = slot n f ∧ Stored n s.mem i g ∨ f < g

section Count

variable [Fintype T] [DecidableEq T] {s : Config T (RingMem T) RingLoc}

theorem Occupied.unique (hn : PowerOfTwo n) (hplaces : PlaceInv n s) {i f g : ℕ}
    (hf : Occupied n s i f) (hg : Occupied n s i g) : f = g := by
  rcases hf with ⟨t, htf, hti⟩ | hf <;> rcases hg with ⟨u, hug, hui⟩ | hg
  · obtain rfl := hplaces.one_carrier hti hui
    rw [htf] at hug
    exact Option.some.inj hug
  · have hcopies := (hplaces.alone_of_carried hti).2.2
    have hpos := hg.copies_pos hn
    omega
  · have hcopies := (hplaces.alone_of_carried hui).2.2
    have hpos := hf.copies_pos hn
    omega
  · exact hplaces.unique_slot hn hf hg

omit [DecidableEq T] in
theorem Occupied.lt (hplaces : PlaceInv n s) {i f : ℕ} (hf : Occupied n s i f) : i < n := by
  rcases hf with ⟨t, _, hti⟩ | hf
  · exact hplaces.carried t i hti
  · exact hplaces.stored i f hf

omit [Fintype T] [DecidableEq T] in
/-- Each ticket with an index has one that stands for it. -/
theorem exists_index (n : ℕ) (s : Config T (RingMem T) RingLoc) :
    ∃ index : ℕ → ℕ, ∀ f, (∃ j, Occupied n s j f) → Occupied n s (index f) f := by
  have hchoice : ∀ f, ∃ j, (∃ j', Occupied n s j' f) → Occupied n s j f := by
    intro f
    by_cases h : ∃ j, Occupied n s j f
    · obtain ⟨j, hj⟩ := h
      exact ⟨j, fun _ => hj⟩
    · exact ⟨0, fun h' => absurd h' h⟩
  choose index hindex using hchoice
  exact ⟨index, hindex⟩

open Classical in
/-- The tickets with an index are fewer than the indices while one of these waits for a ticket. -/
theorem PlaceInv.occupied_card (hn : PowerOfTwo n) (hplaces : PlaceInv n s) {i : ℕ}
    (hi : (s.loc t).carries i ≠ 0) (hticket : (s.loc t).tailTicket = none) :
    ((undrawn s).filter fun f => ∃ j, Occupied n s j f).card ≤ n - 1 := by
  obtain ⟨index, hindex⟩ := exists_index n s
  have hin := Finset.mem_range.mpr (hplaces.carried t i hi)
  have hle : ((undrawn s).filter fun f => ∃ j, Occupied n s j f).card ≤
      ((Finset.range n).erase i).card := by
    refine Finset.card_le_card_of_injOn index ?_ ?_
    · intro f hf
      have hf := hindex f (Finset.mem_filter.mp hf).2
      refine Finset.mem_coe.mpr (Finset.mem_erase.mpr ⟨?_, Finset.mem_range.mpr (hf.lt hplaces)⟩)
      intro heq
      rw [heq] at hf
      rcases hf with ⟨u, huf, hui⟩ | hstored
      · rw [hplaces.one_carrier hui hi, hticket] at huf
        cases huf
      · have hcopies := (hplaces.alone_of_carried hi).2.2
        have hpos := hstored.copies_pos hn
        omega
    · intro f hf g hg heq
      have hf := hindex f (Finset.mem_filter.mp hf).2
      have hg := hindex g (Finset.mem_filter.mp hg).2
      rw [heq] at hf
      exact hf.unique hn hplaces hg
  rwa [Finset.card_erase_of_mem hin, Finset.card_range] at hle

omit [Fintype T] [DecidableEq T] in
open Classical in
/-- Each ticket that was given up has its own index to blame. -/
theorem DistanceInv.given_up_card (hinv : DistanceInv n s) :
    ((undrawn s).filter fun f => ¬ ∃ j, Occupied n s j f).card ≤ n := by
  have hblame : ∀ f ∈ (undrawn s).filter (fun f => ¬ ∃ j, Occupied n s j f),
      s.mem.head ≤ f ∧ ∃ j, s.mem.trace.blame f = some j := by
    intro f hf
    obtain ⟨hin, hfree⟩ := Finset.mem_filter.mp hf
    obtain ⟨hhead, htail⟩ := Finset.mem_Ico.mp hin
    exact ⟨hhead, (hinv.fate f hhead htail).resolve_left hfree⟩
  have hle := Finset.card_le_card_of_injOn
    (s := (undrawn s).filter fun f => ¬ ∃ j, Occupied n s j f)
    (t := Finset.range n) (fun f => (s.mem.trace.blame f).getD 0) ?_ ?_
  · rwa [Finset.card_range] at hle
  · intro f hf
    obtain ⟨_, j, hj⟩ := hblame f hf
    simp only [hj, Option.getD_some]
    exact Finset.mem_coe.mpr (Finset.mem_range.mpr (hinv.blamed f j hj).2)
  · intro f hf g hg heq
    obtain ⟨hheadf, j, hj⟩ := hblame f hf
    obtain ⟨hheadg, j', hj'⟩ := hblame g hg
    simp only [hj, hj', Option.getD_some] at heq
    subst heq
    exact hinv.once f g j hheadf hheadg hj hj'

/-- **Counting.**  A call of `enqueue` that is about to draw a ticket finds the tail close. -/
theorem DistanceInv.room (hn : PowerOfTwo n) (hinv : DistanceInv n s) (hplaces : PlaceInv n s)
    {i : ℕ} (hi : (s.loc t).carries i ≠ 0) (hticket : (s.loc t).tailTicket = none) :
    s.mem.tail < s.mem.head + ringSize n := by
  classical
  have hin := hplaces.carried t i hi
  have hoccupied := hplaces.occupied_card hn hi hticket
  have hgivenUp := hinv.given_up_card
  have hsum : ((undrawn s).filter fun f => ∃ j, Occupied n s j f).card +
      ((undrawn s).filter fun f => ¬ ∃ j, Occupied n s j f).card = (undrawn s).card :=
    Finset.card_filter_add_card_filter_not _
  have hcard : (undrawn s).card = s.mem.tail - s.mem.head := Nat.card_Ico _ _
  unfold ringSize
  omega

end Count

section Steps

variable {i f : ℕ}

theorem RingStep.head_le (hstep : RingStep n t m l m' l') : m.head ≤ m'.head := by
  cases hstep with
  | drawHead => exact Nat.le_succ _
  | _ => exact le_rfl

/-- A ticket that a call of `enqueue` has is kept, used or given up. -/
theorem RingStep.tailTicket_kept (hstep : RingStep n t m l m' l')
    (hf : l.tailTicket = some f) (hi : l.carries i ≠ 0) (hhead : m.head ≤ f) :
    (l'.tailTicket = some f ∧ l'.carries i ≠ 0) ∨ Stored n m' i f ∨
      m' = m.giveUp f (m.entries (slot n f)) ∧
        ((m.entries (slot n f)).index = none → cycle n f ≤ (m.entries (slot n f)).cycle) := by
  cases hstep with
  | giveUp j call ticket hreads hnot =>
      rw [tailTicket_of_reads hreads] at hf
      cases hf
      exact .inr (.inr ⟨rfl, hnot⟩)
  | reuseSafe j call ticket hreads | reuseUnsafe j call ticket hreads =>
      rw [tailTicket_of_reads hreads] at hf
      cases hf
      refine .inl ⟨rfl, ?_⟩
      rwa [carries_of_reads hreads rfl]
  | headBehind j call ticket entry => exact .inl ⟨hf, hi⟩
  | headAhead j call ticket entry hahead =>
      cases hf
      omega
  | place j call ticket entry hsame =>
      cases hf
      obtain rfl : j = i := by
        by_contra hne
        simp [RingLoc.carries, hne] at hi
      right
      left
      simp [Stored]
  | _ => cases hf

/-- What a new ticket of a carried index is. -/
theorem RingStep.tailTicket_new (hstep : RingStep n t m l m' l') (hf : l'.tailTicket = some f)
    (hi : l'.carries i ≠ 0) : (l.tailTicket = some f ∧ l.carries i ≠ 0) ∨ f = m.tail := by
  cases hstep with
  | drawTail =>
      cases hf
      exact .inr rfl
  | reuseSafe j call ticket hreads | reuseUnsafe j call ticket hreads =>
      cases hf
      rw [carries_of_reads hreads rfl] at hi
      exact .inl ⟨tailTicket_of_reads hreads, hi⟩
  | headBehind j call ticket entry => exact .inl ⟨hf, hi⟩
  | _ => cases hf

/-- The blame is laid where a ticket is given up. -/
theorem RingStep.blame_eq (hstep : RingStep n t m l m' l') :
    m'.trace.blame = m.trace.blame ∨ ∃ f, l.tailTicket = some f ∧
      m' = m.giveUp f (m.entries (slot n f)) ∧
        ((m.entries (slot n f)).index = none → cycle n f ≤ (m.entries (slot n f)).cycle) := by
  cases hstep with
  | giveUp j call ticket hreads hnot =>
      exact .inr ⟨ticket, tailTicket_of_reads hreads, rfl, hnot⟩
  | _ => exact .inl rfl

/-- Why a ticket that no `try_dequeue` has reached is given up: an index of an earlier turn is in
the way. -/
theorem index_in_way (hn : PowerOfTwo n) (hm : RingOk n m) (hl : LocOk n m l)
    (hf : l.tailTicket = some f) (hhead : m.head ≤ f) (hnear : m.tail ≤ m.head + ringSize n)
    (hnot : (m.entries (slot n f)).index = none → cycle n f ≤ (m.entries (slot n f)).cycle) :
    ∃ j g, (m.entries (slot n f)).index = some j ∧ Stored n m j g ∧ slot n g = slot n f ∧ g < f := by
  cases hindex : (m.entries (slot n f)).index with
  | none =>
      have hle := hnot hindex
      obtain ⟨g, hslot, hcycle⟩ := exists_ticket hn (slot_lt hn f)
        ((cycle_nonneg (n := n) f).trans hle)
      have hdone := hm.vacated g (by rw [hslot, hcycle]) (by rw [hslot, hindex])
      have hlt := hm.drawn g hdone
      have hge : f ≤ g := by
        by_contra hgf
        have hcycles := cycle_lt_of_lt hn hslot (not_le.mp hgf)
        rw [hcycle] at hcycles
        exact absurd hle (not_le.mpr hcycles)
      omega
  | some j =>
      obtain ⟨g, hslot, hstored⟩ := hm.ticketed (slot n f) j hindex
      refine ⟨j, g, rfl, hstored, hslot, ?_⟩
      have hne : g ≠ f := by
        rintro rfl
        exact (hl.tail hf).2 j hstored
      by_contra hge
      have hlt : f < g := lt_of_le_of_ne (not_lt.mp hge) hne.symm
      have hfar := add_le_of_lt hn hslot.symm hlt
      have htail := (hm.stored j g hstored).1
      omega

/-- When the tail moves. -/
theorem RingStep.tail_cases (hstep : RingStep n t m l m' l') (hl : LocOk n m l) :
    m'.tail = m.tail ∨
      (m'.tail = m.tail + 1 ∧ l.tailTicket = none ∧ l'.tailTicket = some m.tail ∧
        ∃ i, l.carries i ≠ 0 ∧ l'.carries i ≠ 0) ∨
      m'.tail ≤ m.head := by
  cases hstep with
  | drawTail i call =>
      refine .inr (.inl ⟨rfl, rfl, rfl, i, ?_⟩)
      simp [RingLoc.carries, EnqueuePhase.carrying]
  | caughtUp call tail head htail => exact .inr (.inr hl.2)
  | _ => exact .inl rfl

end Steps

section Run

variable [DecidableEq T] [Fintype T] {s : Config T (RingMem T) RingLoc}
  {ok : Config T (RingMem T) RingLoc → T × RingChoice T → Prop}

omit [Fintype T] in
/-- After a step the tickets with an index are those of before, or it is the one just drawn. -/
theorem Occupied.before (hn : PowerOfTwo n) (hstep : RingStep n t s.mem (s.loc t) m l)
    (hl : LocOk n s.mem (s.loc t)) {i g : ℕ}
    (h : Occupied n ⟨m, Function.update s.loc t l⟩ i g) :
    Occupied n s i g ∨ g = s.mem.tail := by
  obtain ⟨u, hticket, hcarries⟩ | hstored := h
  · by_cases hu : u = t
    · subst hu
      simp only [Function.update_self] at hticket hcarries
      rcases hstep.tailTicket_new hticket hcarries with ⟨hticket, hcarries⟩ | hnew
      · exact .inl (.inl ⟨u, hticket, hcarries⟩)
      · exact .inr hnew
    · simp only [Function.update_of_ne hu] at hticket hcarries
      exact .inl (.inl ⟨u, hticket, hcarries⟩)
  · rcases hstep.stored_cases hn hl hstored with hstored | ⟨call, entry, heq⟩
    · exact .inl (.inr hstored)
    · refine .inl (.inl ⟨t, ?_, ?_⟩)
      · rw [heq]
        rfl
      · rw [heq]
        simp [RingLoc.carries, EnqueuePhase.carrying]

omit [DecidableEq T] [Fintype T] in
/-- A ticket given up is to blame on an index of an earlier turn. -/
theorem DistanceInv.given_up (hn : PowerOfTwo n) (hinv : DistanceInv n s) (htickets : TicketInv n s)
    {f : ℕ} (hf : (s.loc t).tailTicket = some f) (hhead : s.mem.head ≤ f)
    (hnot : (s.mem.entries (slot n f)).index = none →
      cycle n f ≤ (s.mem.entries (slot n f)).cycle) :
    ∃ j g, (s.mem.entries (slot n f)).index = some j ∧ Stored n s.mem j g ∧
      slot n g = slot n f ∧ g < s.mem.head ∧ g < f ∧ f < s.mem.tail := by
  have hl := htickets.locs t
  have hnear := hinv.near
  have htail := (hl.tail hf).1
  obtain ⟨j, g, hindex, hstored, hslot, hlt⟩ :=
    index_in_way hn htickets.ring hl hf hhead hnear hnot
  have hfar := add_le_of_lt hn hslot hlt
  exact ⟨j, g, hindex, hstored, hslot, by omega, hlt, htail⟩

/-- **Step lemma.** -/
theorem DistanceInv.step (hn : PowerOfTwo n) (hinv : DistanceInv n s) (htickets : TicketInv n s)
    (hplaces : PlaceInv n s) (hstep : RingStep n t s.mem (s.loc t) m l) :
    DistanceInv n ⟨m, Function.update s.loc t l⟩ := by
  have hl := htickets.locs t
  have hhead := hstep.head_le
  have htail := hstep.tail_le hl
  have hnear := hinv.near
  -- the index blamed for a ticket ahead has no ticket before it but one of the same slot
  have hbehind : ∀ {f i g}, s.mem.head ≤ f → s.mem.trace.blame f = some i →
      Occupied n ⟨m, Function.update s.loc t l⟩ i g →
      g < f ∧ slot n g = slot n f ∧ Stored n m i g ∨ f < g := by
    intro f i g hf hblame hnow
    rcases hnow.before hn hstep hl with hbefore | rfl
    · rcases hinv.behind f i hf hblame g hbefore with ⟨hlt, hslot, hstored⟩ | hlt
      · obtain ⟨u, hticket, hcarries⟩ | hnow := hnow
        · -- an index in an entry is not carried after the step
          have hnone := (hplaces.alone hn hstored).2.1
          by_cases hu : u = t
          · subst hu
            simp only [Function.update_self] at hticket hcarries
            rcases hstep.tailTicket_new hticket hcarries with ⟨_, hcarried⟩ | heq
            · have hle := le_tally (RingLoc.carries i) s.loc u
              omega
            · have hdrawn := (htickets.ring.stored i g hstored).1
              omega
          · simp only [Function.update_of_ne hu] at hcarries
            have hle := le_tally (RingLoc.carries i) s.loc u
            omega
        · exact .inl ⟨hlt, hslot, hnow⟩
      · exact .inr hlt
    · exact .inr (hinv.blamed f i hblame).1
  refine ⟨?_, ?_, ?_, ?_, ?_⟩
  · -- near
    rcases hstep.tail_cases hl with hsame | ⟨hnext, hnone, _, i, hcarries, _⟩ | hle
    · simp only
      omega
    · have hroom := hinv.room hn hplaces hcarries hnone
      simp only
      omega
    · simp only
      omega
  · -- blamed
    intro f i hblame
    rcases hstep.blame_eq with hsame | ⟨F, hF, rfl, hnot⟩
    · rw [hsame] at hblame
      obtain ⟨hlt, hi⟩ := hinv.blamed f i hblame
      exact ⟨hlt.trans_le htail, hi⟩
    · by_cases hf : f = F
      · subst hf
        simp only [RingMem.giveUp_trace_blame, Function.update_self] at hblame
        obtain ⟨g, _, hstored⟩ := htickets.ring.ticketed _ i hblame
        exact ⟨(hl.tail hF).1, hplaces.stored i g hstored⟩
      · simp only [RingMem.giveUp_trace_blame, Function.update_of_ne hf] at hblame
        exact hinv.blamed f i hblame
  · -- fate
    intro f hf hlt
    have hf' : s.mem.head ≤ f := hhead.trans hf
    by_cases hold : f < s.mem.tail
    · rcases hinv.fate f hf' hold with ⟨i, ⟨u, hticket, hcarries⟩ | hstored⟩ | ⟨i, hblame⟩
      · by_cases hu : u = t
        · subst hu
          rcases hstep.tailTicket_kept hticket hcarries hf' with hkept | hstored | ⟨rfl, hnot⟩
          · left
            refine ⟨i, .inl ⟨u, ?_⟩⟩
            simpa only [Function.update_self] using hkept
          · exact .inl ⟨i, .inr hstored⟩
          · obtain ⟨j, g, hindex, _⟩ := hinv.given_up hn htickets hticket hf' hnot
            right
            refine ⟨j, ?_⟩
            simpa using hindex
        · left
          refine ⟨i, .inl ⟨u, ?_⟩⟩
          simpa only [Function.update_of_ne hu] using ⟨hticket, hcarries⟩
      · rcases hstep.stored_kept hn hl hstored with hkept | ⟨call, entry, heq⟩
        · exact .inl ⟨i, .inr hkept⟩
        · rw [heq] at hl
          exact absurd hl.1.1 (not_lt.mpr hf')
      · right
        rcases hstep.blame_eq with hsame | ⟨F, hF, rfl, hnot⟩
        · exact ⟨i, by rw [hsame]; exact hblame⟩
        · by_cases heq : f = F
          · subst heq
            obtain ⟨j, g, hindex, _⟩ := hinv.given_up hn htickets hF hf' hnot
            refine ⟨j, ?_⟩
            simpa using hindex
          · refine ⟨i, ?_⟩
            simpa [heq] using hblame
    · rcases hstep.tail_cases hl with hsame | ⟨hnext, _, hticket, i, _, hcarries⟩ | hle
      · simp only at hlt
        omega
      · obtain rfl : f = s.mem.tail := by
          simp only at hlt
          omega
        left
        refine ⟨i, .inl ⟨t, ?_⟩⟩
        simpa only [Function.update_self] using ⟨hticket, hcarries⟩
      · simp only at hlt
        omega
  · -- once
    intro f g i hf hg hblame hblame'
    have hf : s.mem.head ≤ f := hhead.trans hf
    have hg : s.mem.head ≤ g := hhead.trans hg
    rcases hstep.blame_eq with hsame | ⟨F, hF, rfl, hnot⟩
    · rw [hsame] at hblame hblame'
      exact hinv.once f g i hf hg hblame hblame'
    · -- two tickets ahead of the head blamed on one index have one slot
      have hnew : ∀ {f}, s.mem.head ≤ F → s.mem.head ≤ f → s.mem.trace.blame f = some i →
          (s.mem.entries (slot n F)).index = some i → f = F := by
        intro f hF' hf hblame hindex
        obtain ⟨j, g, hj, hstored, hslot, hpast, _, hlast⟩ :=
          hinv.given_up hn htickets hF hF' hnot
        obtain rfl : j = i := Option.some.inj (hj.symm.trans hindex)
        have hdrawn := (hinv.blamed f j hblame).1
        rcases hinv.behind f j hf hblame g (.inr hstored) with ⟨_, hslot', _⟩ | hlt
        · have hslots : slot n f = slot n F := hslot'.symm.trans hslot
          rcases Nat.lt_trichotomy f F with hlt | heq | hlt
          · have hfar := add_le_of_lt hn hslots hlt
            omega
          · exact heq
          · have hfar := add_le_of_lt hn hslots.symm hlt
            omega
        · omega
      simp only [RingMem.giveUp_trace_blame] at hblame hblame'
      by_cases hfF : f = F
      · by_cases hgF : g = F
        · rw [hfF, hgF]
        · subst hfF
          rw [Function.update_self] at hblame
          rw [Function.update_of_ne hgF] at hblame'
          exact (hnew hf hg hblame' hblame).symm
      · rw [Function.update_of_ne hfF] at hblame
        by_cases hgF : g = F
        · subst hgF
          rw [Function.update_self] at hblame'
          exact hnew hg hf hblame hblame'
        · rw [Function.update_of_ne hgF] at hblame'
          exact hinv.once f g i hf hg hblame hblame'
  · -- behind
    intro f i hf hblame g hnow
    have hf : s.mem.head ≤ f := hhead.trans hf
    rcases hstep.blame_eq with hsame | ⟨F, hF, rfl, hnot⟩
    · rw [hsame] at hblame
      exact hbehind hf hblame hnow
    · by_cases hfF : f = F
      · subst hfF
        simp only [RingMem.giveUp_trace_blame, Function.update_self] at hblame
        obtain ⟨j, g', hj, hstored, hslot, _, hlt, hlast⟩ :=
          hinv.given_up hn htickets hF hf hnot
        obtain rfl : j = i := Option.some.inj (hj.symm.trans hblame)
        rcases hnow.before hn hstep hl with hbefore | rfl
        · obtain rfl := hbefore.unique hn hplaces (.inr hstored)
          exact .inl ⟨hlt, hslot, hstored⟩
        · exact .inr hlast
      · simp only [RingMem.giveUp_trace_blame, Function.update_of_ne hfF] at hblame
        exact hbehind hf hblame hnow

omit [DecidableEq T] [Fintype T] in
theorem fresh_distanceInv (hn : PowerOfTwo n) (hm : Fresh n s.mem) : DistanceInv n s := by
  have hblame : ∀ f, s.mem.trace.blame f = none := by
    intro f
    obtain ⟨holder, heq⟩ | heq := hm <;> rw [heq] <;> rfl
  refine ⟨?_, ?_, ?_, ?_, ?_⟩
  · obtain ⟨holder, heq⟩ | heq := hm
    · rw [heq]
      exact Nat.zero_le _
    · rw [heq]
      simp only [initializeFull, ringSize]
      omega
  · intro f i hi
    rw [hblame] at hi
    cases hi
  · intro f _ hf
    obtain ⟨holder, heq⟩ | heq := hm
    · rw [heq] at hf
      exact absurd hf (Nat.not_lt_zero _)
    · rw [heq] at hf
      have hf : f < n := hf
      have hsize : f < ringSize n := by
        unfold ringSize
        omega
      left
      refine ⟨f, .inr ?_⟩
      rw [heq]
      have hslot : slot n f = f := by rw [slot_eq hn, Nat.mod_eq_of_lt hsize]
      simp [Stored, initializeFull, hslot, hf, cycle, Nat.div_eq_of_lt hsize]
  · intro f g i _ _ hi
    rw [hblame] at hi
    cases hi
  · intro f i _ hi
    rw [hblame] at hi
    cases hi

/-- **Run lemma.** -/
theorem distanceInv_reach (hn : PowerOfTwo n) :
    ∀ s, (system n (T := T)).Reach ok s → DistanceInv n s := by
  refine interleave_invariant ?_ ?_
  · intro s hs
    exact fresh_distanceInv hn hs.1
  · intro s t c m l hs hinv _ hstep
    exact hinv.step hn (ticketInv_reach hn s hs) (placeInv_reach hn s hs) (step_sound hstep)

end Run

end RingThreads

end EventDispatcher
