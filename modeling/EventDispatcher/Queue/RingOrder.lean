import EventDispatcher.Queue.RingPlaces

/-!
# The order in which the ring returns its indices

The `k`-th call of `enqueue(i)` belongs to the `k`-th return of `i`.  Both have one ticket
(`HistoryInv.drawn`), and tickets are drawn in order; so what was enqueued earlier is not returned
by a call of `try_dequeue` that begins later.
-/

namespace EventDispatcher

open Transition

namespace RingThreads

variable {T : Type} {n : ℕ} {t : T} {m m' : RingMem T} {l l' : RingLoc}

theorem getElem?_concat_eq_some {A : Type} {xs : List A} {a b : A} {k : ℕ} :
    (xs ++ [a])[k]? = some b ↔ xs[k]? = some b ∨ k = xs.length ∧ a = b := by
  rcases Nat.lt_trichotomy k xs.length with hlt | rfl | hgt
  · rw [List.getElem?_append_left hlt]
    constructor
    · exact .inl
    · rintro (h | ⟨rfl, _⟩)
      · exact h
      · exact absurd hlt (lt_irrefl _)
  · simp
  · have hnone : (xs ++ [a])[k]? = none := by
      rw [List.getElem?_eq_none_iff, List.length_append, List.length_singleton]
      omega
    have hnone' : xs[k]? = none := by
      rw [List.getElem?_eq_none_iff]
      omega
    rw [hnone, hnone']
    simp [hgt.ne']

/-- A list of the record, after one entry for index `i`. -/
theorem getElem?_update_concat {A : Type} {g : ℕ → List A} {i j k : ℕ} {a b : A} :
    (Function.update g i (g i ++ [a]) j)[k]? = some b ↔
      (g j)[k]? = some b ∨ j = i ∧ k = (g i).length ∧ a = b := by
  by_cases hj : j = i
  · subst hj
    rw [Function.update_self, getElem?_concat_eq_some]
    simp
  · rw [Function.update_of_ne hj]
    simp [hj]

/-- What the record says about the calls, their tickets and their times. -/
structure HistoryOk (n : ℕ) (m : RingMem T) : Prop where
  clock_pos : 0 < m.trace.clock
  completed_lt : ∀ p ∈ m.trace.completed, p.1 < m.trace.clock
  calls_lt : ∀ (i k c : ℕ), (m.trace.calls i)[k]? = some c → c < m.trace.clock
  returns_lt : ∀ (i k : ℕ) r, (m.trace.returns i)[k]? = some r → r.2 < m.trace.clock
  starts_lt : ∀ h < m.head, m.trace.starts h < m.trace.clock
  unique : ∀ (i j k k' c : ℕ), 0 < c → (m.trace.calls i)[k]? = some c →
    (m.trace.calls j)[k']? = some c → i = j ∧ k = k'
  tails_length : ∀ i, (m.trace.tails i).length = (m.trace.calls i).length
  tails_le : ∀ (i k τ : ℕ), (m.trace.tails i)[k]? = some τ → τ ≤ m.tail
  /-- an index is returned after it was enqueued -/
  before : ∀ (i k : ℕ) r, (m.trace.returns i)[k]? = some r → ∃ c, (m.trace.calls i)[k]? = some c ∧ c < r.2
  /-- and enqueued again after it was returned -/
  after : ∀ (i k c : ℕ), (m.trace.calls i)[k + 1]? = some c →
    ∃ r, (m.trace.returns i)[k]? = some r ∧ r.2 < c
  /-- the ticket of an index that is inside -/
  inside : ∀ i f, Stored n m i f → (m.trace.placed i)[(m.trace.returns i).length]? = some f
  /-- the ticket of an index that was returned -/
  drawn : ∀ (i k : ℕ) r, (m.trace.returns i)[k]? = some r → ∃ h, (m.trace.placed i)[k]? = some h ∧
    h < m.head ∧ m.trace.starts h = r.1 ∧ ∀ g ≤ h, m.trace.starts g < r.2
  /-- a ticket is drawn after the call -/
  late : ∀ (i k τ f : ℕ), (m.trace.tails i)[k]? = some τ → (m.trace.placed i)[k]? = some f → τ ≤ f
  /-- and before the return -/
  early : ∀ p ∈ m.trace.completed, ∀ (i k : ℕ), (m.trace.calls i)[k]? = some p.1 →
    ∃ f, (m.trace.placed i)[k]? = some f ∧ f < m.tail ∧
      ∀ (j k' c τ : ℕ), (m.trace.calls j)[k']? = some c → (m.trace.tails j)[k']? = some τ → p.2 < c → f < τ

/-- What a thread has on record. -/
def Recorded (m : RingMem T) : RingLoc → Prop
  | .outside _ => True
  | .enqueue i call phase =>
      0 < call ∧ (phase.carrying = true →
        (m.trace.calls i)[(m.trace.placed i).length]? = some call ∧
          ∀ f, (RingLoc.enqueue i call phase).tailTicket = some f →
            ∀ τ, (m.trace.tails i)[(m.trace.placed i).length]? = some τ → τ ≤ f) ∧
      (phase.carrying = false → ∃ (k f : ℕ), (m.trace.calls i)[k]? = some call ∧
        (m.trace.placed i)[k]? = some f ∧ f < m.tail)
  | .tryDequeue call phase =>
      call < m.trace.clock ∧ ∀ h, (RingLoc.tryDequeue call phase).headTicket = some h →
        m.trace.starts h = call

/-- A step that adds nothing to the record. -/
theorem HistoryOk.mono (hm : HistoryOk n m) (hcalls : m'.trace.calls = m.trace.calls)
    (htails : m'.trace.tails = m.trace.tails) (hplaced : m'.trace.placed = m.trace.placed)
    (hreturns : m'.trace.returns = m.trace.returns)
    (hcompleted : m'.trace.completed = m.trace.completed)
    (hstarts : m'.trace.starts = m.trace.starts) (hhead : m'.head = m.head)
    (htail : m.tail ≤ m'.tail) (hclock : m.trace.clock ≤ m'.trace.clock)
    (hstored : ∀ i f, Stored n m' i f → Stored n m i f) : HistoryOk n m' := by
  refine ⟨hm.clock_pos.trans_le hclock, ?_, ?_, ?_, ?_, ?_, ?_, ?_, ?_, ?_, ?_, ?_, ?_, ?_⟩
  · rw [hcompleted]
    exact fun p hp => (hm.completed_lt p hp).trans_le hclock
  · rw [hcalls]
    exact fun i k c hc => (hm.calls_lt i k c hc).trans_le hclock
  · rw [hreturns]
    exact fun i k r hr => (hm.returns_lt i k r hr).trans_le hclock
  · rw [hhead, hstarts]
    exact fun h hh => (hm.starts_lt h hh).trans_le hclock
  · rw [hcalls]
    exact hm.unique
  · rw [hcalls, htails]
    exact hm.tails_length
  · rw [htails]
    exact fun i k τ hτ => (hm.tails_le i k τ hτ).trans htail
  · rw [hcalls, hreturns]
    exact hm.before
  · rw [hcalls, hreturns]
    exact hm.after
  · rw [hplaced, hreturns]
    exact fun i f hf => hm.inside i f (hstored i f hf)
  · rw [hplaced, hreturns, hhead, hstarts]
    exact hm.drawn
  · rw [hplaced, htails]
    exact hm.late
  · rw [hplaced, htails, hcalls, hcompleted]
    intro p hp i k hk
    obtain ⟨f, hf, hlt, hlater⟩ := hm.early p hp i k hk
    exact ⟨f, hf, hlt.trans_le htail, hlater⟩

section Record

variable {i call f h : ℕ}

/-- The holder of `i` calls `enqueue`. -/
theorem HistoryOk.callEnqueue (hm : HistoryOk n m)
    (hall : (m.trace.calls i).length = (m.trace.returns i).length)
    (hout : (m.trace.placed i).length = (m.trace.returns i).length) :
    HistoryOk n (m.callEnqueue i) := by
  refine ⟨Nat.succ_pos _, ?_, ?_, ?_, ?_, ?_, ?_, ?_, ?_, ?_, hm.inside, hm.drawn, ?_, ?_⟩
  · exact fun p hp => (hm.completed_lt p hp).trans (Nat.lt_succ_self _)
  · intro j k c hc
    rcases getElem?_update_concat.mp hc with hold | ⟨_, _, rfl⟩
    · exact (hm.calls_lt j k c hold).trans (Nat.lt_succ_self _)
    · exact Nat.lt_succ_self _
  · exact fun j k r hr => (hm.returns_lt j k r hr).trans (Nat.lt_succ_self _)
  · exact fun g hg => (hm.starts_lt g hg).trans (Nat.lt_succ_self _)
  · intro j j' k k' c hpos hc hc'
    rcases getElem?_update_concat.mp hc with hold | ⟨rfl, rfl, rfl⟩ <;>
      rcases getElem?_update_concat.mp hc' with hold' | ⟨rfl, rfl, hnow⟩
    · exact hm.unique j j' k k' c hpos hold hold'
    · rw [← hnow] at hold
      exact absurd (hm.calls_lt j k _ hold) (lt_irrefl _)
    · exact absurd (hm.calls_lt j' k' _ hold') (lt_irrefl _)
    · exact ⟨rfl, rfl⟩
  · intro j
    by_cases hj : j = i
    · subst hj
      simp [hm.tails_length]
    · simp [hj, hm.tails_length]
  · intro j k τ hτ
    rcases getElem?_update_concat.mp hτ with hold | ⟨_, _, rfl⟩
    · exact hm.tails_le j k τ hold
    · exact le_rfl
  · intro j k r hr
    obtain ⟨c, hc, hlt⟩ := hm.before j k r hr
    exact ⟨c, getElem?_update_concat.mpr (.inl hc), hlt⟩
  · intro j k c hc
    rcases getElem?_update_concat.mp hc with hold | ⟨rfl, hlast, rfl⟩
    · exact hm.after j k c hold
    · -- the call before has been answered
      have hlt : k < (m.trace.returns j).length := by omega
      refine ⟨_, List.getElem?_eq_getElem hlt, ?_⟩
      exact hm.returns_lt j k _ (List.getElem?_eq_getElem hlt)
  · intro j k τ f hτ hf
    rcases getElem?_update_concat.mp hτ with hold | ⟨rfl, hlast, _⟩
    · exact hm.late j k τ f hold hf
    · have hlt := (List.getElem?_eq_some_iff.mp hf).1
      have hlength := hm.tails_length j
      simp only [RingMem.callEnqueue_trace_placed] at hlt
      omega
  · intro p hp j k hk
    rcases getElem?_update_concat.mp hk with hold | ⟨rfl, hlast, hnow⟩
    · obtain ⟨f, hf, hlt, hlater⟩ := hm.early p hp j k hold
      refine ⟨f, hf, hlt, ?_⟩
      intro j' k' c τ hc hτ hcp
      rcases getElem?_update_concat.mp hτ with hbefore | ⟨rfl, hk', rfl⟩
      · rcases getElem?_update_concat.mp hc with hc | ⟨rfl, hk', _⟩
        · exact hlater j' k' c τ hc hbefore hcp
        · have hlength := (List.getElem?_eq_some_iff.mp hbefore).1
          rw [hm.tails_length] at hlength
          omega
      · exact hlt
    · exact absurd hnow (hm.completed_lt p hp).ne'

/-- `i` is stored with ticket `f`. -/
theorem HistoryOk.place (hm : HistoryOk n m) {entry : RingEntry}
    (hlate : ∀ τ, (m.trace.tails i)[(m.trace.placed i).length]? = some τ → τ ≤ f)
    (hout : (m.trace.placed i).length = (m.trace.returns i).length)
    (hstored : ∀ j g, Stored n (m.setEntry (slot n f) entry) j g →
      j ≠ i ∧ Stored n m j g ∨ j = i ∧ g = f) :
    HistoryOk n ((m.setEntry (slot n f) entry).recordPlaced i f) := by
  refine ⟨hm.clock_pos, hm.completed_lt, hm.calls_lt, hm.returns_lt, hm.starts_lt, hm.unique,
    hm.tails_length, hm.tails_le, hm.before, hm.after, ?_, ?_, ?_, ?_⟩
  · intro j g hg
    rcases hstored j g hg with ⟨hne, hbefore⟩ | ⟨rfl, rfl⟩
    · exact getElem?_update_concat.mpr (.inl (hm.inside j g hbefore))
    · exact getElem?_update_concat.mpr (.inr ⟨rfl, hout.symm, rfl⟩)
  · intro j k r hr
    obtain ⟨h, hh, hrest⟩ := hm.drawn j k r hr
    exact ⟨h, getElem?_update_concat.mpr (.inl hh), hrest⟩
  · intro j k τ g hτ hg
    rcases getElem?_update_concat.mp hg with hold | ⟨rfl, rfl, rfl⟩
    · exact hm.late j k τ g hτ hold
    · exact hlate τ hτ
  · intro p hp j k hk
    obtain ⟨g, hg, hrest⟩ := hm.early p hp j k hk
    exact ⟨g, getElem?_update_concat.mpr (.inl hg), hrest⟩

/-- A call of `enqueue` that has stored its index returns. -/
theorem HistoryOk.complete (hm : HistoryOk n m) {k : ℕ} (hpos : 0 < call)
    (hcall : (m.trace.calls i)[k]? = some call) (hplaced : (m.trace.placed i)[k]? = some f)
    (htail : f < m.tail) : HistoryOk n (m.complete call) := by
  have hclock : m.trace.clock < m.trace.clock + 1 := Nat.lt_succ_self _
  refine ⟨Nat.succ_pos _, ?_, ?_, ?_, ?_, hm.unique, hm.tails_length, hm.tails_le, hm.before,
    hm.after, hm.inside, hm.drawn, hm.late, ?_⟩
  · intro p hp
    rcases List.mem_append.mp hp with hold | hnew
    · exact (hm.completed_lt p hold).trans hclock
    · rw [List.mem_singleton.mp hnew]
      exact (hm.calls_lt i k call hcall).trans hclock
  · exact fun j k c hc => (hm.calls_lt j k c hc).trans hclock
  · exact fun j k r hr => (hm.returns_lt j k r hr).trans hclock
  · exact fun g hg => (hm.starts_lt g hg).trans hclock
  · intro p hp j k' hk'
    rcases List.mem_append.mp hp with hold | hnew
    · exact hm.early p hold j k' hk'
    · rw [List.mem_singleton.mp hnew] at hk' ⊢
      obtain ⟨rfl, rfl⟩ := hm.unique i j k k' call hpos hcall hk'
      refine ⟨f, hplaced, htail, ?_⟩
      intro j' k'' c τ hc _ hlt
      exact absurd hlt (hm.calls_lt j' k'' c hc).not_gt

/-- A call of `try_dequeue` draws the next head ticket. -/
theorem HistoryOk.drawHead (hm : HistoryOk n m) (hcall : call < m.trace.clock) :
    HistoryOk n (m.drawHead call) := by
  refine ⟨hm.clock_pos, hm.completed_lt, hm.calls_lt, hm.returns_lt, ?_, hm.unique,
    hm.tails_length, hm.tails_le, hm.before, hm.after, hm.inside, ?_, hm.late, hm.early⟩
  · intro g hg
    by_cases hnew : g = m.head
    · simpa [hnew] using hcall
    · have hlt : g < m.head := lt_of_le_of_ne (Nat.lt_succ_iff.mp hg) hnew
      simpa [hnew] using hm.starts_lt g hlt
  · intro j k r hr
    obtain ⟨h, hh, hlt, hstart, hbefore⟩ := hm.drawn j k r hr
    refine ⟨h, hh, hlt.trans (Nat.lt_succ_self _), ?_, ?_⟩
    · simpa [hlt.ne] using hstart
    · intro g hg
      simpa [(hg.trans_lt hlt).ne] using hbefore g hg

/-- Head ticket `h` takes `i` out. -/
theorem HistoryOk.takeOut (hm : HistoryOk n m) {entry : RingEntry} (hstored : Stored n m i h)
    (hdrawn : h < m.head) (hstart : m.trace.starts h = call)
    (hall : (m.trace.calls i).length = (m.trace.returns i).length + 1)
    (hother : ∀ j g, Stored n (m.setEntry (slot n h) entry) j g → j ≠ i ∧ Stored n m j g) :
    HistoryOk n (((m.setEntry (slot n h) entry).leave h).give call i t) := by
  have hclock : m.trace.clock < m.trace.clock + 1 := Nat.lt_succ_self _
  refine ⟨Nat.succ_pos _, ?_, ?_, ?_, ?_, hm.unique, hm.tails_length, hm.tails_le, ?_, ?_, ?_, ?_,
    hm.late, hm.early⟩
  · exact fun p hp => (hm.completed_lt p hp).trans hclock
  · exact fun j k c hc => (hm.calls_lt j k c hc).trans hclock
  · intro j k r hr
    rcases getElem?_update_concat.mp hr with hold | ⟨_, _, rfl⟩
    · exact (hm.returns_lt j k r hold).trans hclock
    · exact hclock
  · exact fun g hg => (hm.starts_lt g hg).trans hclock
  · intro j k r hr
    rcases getElem?_update_concat.mp hr with hold | ⟨rfl, rfl, rfl⟩
    · exact hm.before j k r hold
    · have hlt : (m.trace.returns j).length < (m.trace.calls j).length := by omega
      refine ⟨_, List.getElem?_eq_getElem hlt, ?_⟩
      exact hm.calls_lt j _ _ (List.getElem?_eq_getElem hlt)
  · intro j k c hc
    obtain ⟨r, hr, hlt⟩ := hm.after j k c hc
    exact ⟨r, getElem?_update_concat.mpr (.inl hr), hlt⟩
  · intro j g hg
    obtain ⟨hne, hbefore⟩ := hother j g hg
    simpa [hne] using hm.inside j g hbefore
  · intro j k r hr
    rcases getElem?_update_concat.mp hr with hold | ⟨rfl, rfl, rfl⟩
    · exact hm.drawn j k r hold
    · refine ⟨h, hm.inside j h hstored, hdrawn, hstart, ?_⟩
      intro g hg
      exact hm.starts_lt g (hg.trans_lt hdrawn)

end Record

section Steps

variable {i k : ℕ}

theorem RingStep.tail_le (hstep : RingStep n t m l m' l') (hl : LocOk n m l) : m.tail ≤ m'.tail := by
  cases hstep with
  | drawTail => exact Nat.le_succ _
  | caughtUp call tail head htail => exact htail.trans_le hl.1
  | _ => exact le_rfl

theorem RingStep.clock_le (hstep : RingStep n t m l m' l') : m.trace.clock ≤ m'.trace.clock := by
  cases hstep with
  | callEnqueue | callDequeue | armed | arm | exhausted | takeOut | decrementOut | decrementLast =>
      exact Nat.le_succ _
  | _ => exact le_rfl

theorem RingStep.calls_kept (hstep : RingStep n t m l m' l') {c : ℕ}
    (h : (m.trace.calls i)[k]? = some c) : (m'.trace.calls i)[k]? = some c := by
  cases hstep with
  | callEnqueue => exact getElem?_update_concat.mpr (.inl h)
  | _ => exact h

theorem RingStep.placed_kept (hstep : RingStep n t m l m' l') {f : ℕ}
    (h : (m.trace.placed i)[k]? = some f) : (m'.trace.placed i)[k]? = some f := by
  cases hstep with
  | place => exact getElem?_update_concat.mpr (.inl h)
  | _ => exact h

theorem RingStep.starts_kept (hstep : RingStep n t m l m' l') {h : ℕ} (hh : h < m.head) :
    m'.trace.starts h = m.trace.starts h := by
  cases hstep with
  | drawHead => exact Function.update_of_ne hh.ne _ _
  | _ => rfl

/-- Only who holds or carries an index writes to its record. -/
theorem RingStep.untouched (hstep : RingStep n t m l m' l') (hheld : held m i = 0)
    (hcarries : l.carries i = 0) : m'.trace.calls i = m.trace.calls i ∧
      m'.trace.tails i = m.trace.tails i ∧ m'.trace.placed i = m.trace.placed i := by
  cases hstep with
  | callEnqueue last j hj =>
      have hne : i ≠ j := by
        rintro rfl
        simp [held, hj] at hheld
      simp [hne]
  | place j call ticket entry hsame =>
      have hne : i ≠ j := by
        rintro rfl
        simp [RingLoc.carries, EnqueuePhase.carrying] at hcarries
      simp [hne]
  | _ => exact ⟨rfl, rfl, rfl⟩

/-- **Step lemma** for the record of another thread. -/
theorem Recorded.other {k : RingLoc} (hk : Recorded m k) (hstep : RingStep n t m l m' l')
    (hl : LocOk n m l) (hok : LocOk n m k)
    (hcarried : ∀ i, k.carries i ≠ 0 → held m i = 0 ∧ l.carries i = 0) : Recorded m' k := by
  cases k with
  | outside last => trivial
  | enqueue i call phase =>
      obtain ⟨hpos, hcarrying, hplaced⟩ := hk
      refine ⟨hpos, ?_, ?_⟩
      · intro hphase
        obtain ⟨hheld, hother⟩ := hcarried i (by simp [RingLoc.carries, hphase])
        obtain ⟨hcalls, htails, hsame⟩ := hstep.untouched hheld hother
        rw [hcalls, htails, hsame]
        exact hcarrying hphase
      · intro hphase
        obtain ⟨k, f, hcall, hf, htail⟩ := hplaced hphase
        exact ⟨k, f, hstep.calls_kept hcall, hstep.placed_kept hf,
          htail.trans_le (hstep.tail_le hl)⟩
  | tryDequeue call phase =>
      obtain ⟨hcall, hstart⟩ := hk
      refine ⟨hcall.trans_le hstep.clock_le, ?_⟩
      intro h hh
      rw [hstep.starts_kept (hok.head hh).1]
      exact hstart h hh

/-- **Step lemma** for the record of the thread that moves. -/
theorem RingStep.recorded (hstep : RingStep n t m l m' l') (hm : HistoryOk n m) (hl : LocOk n m l)
    (hrecorded : Recorded m l)
    (hcalled : ∀ i < n, m.holder i = some t →
      (m.trace.calls i).length = (m.trace.placed i).length) :
    Recorded m' l' := by
  cases hstep with
  | callEnqueue last i hheld hi =>
      refine ⟨hm.clock_pos, ?_, nofun⟩
      intro _
      refine ⟨getElem?_update_concat.mpr (.inr ⟨rfl, (hcalled i hi hheld).symm, rfl⟩), ?_⟩
      intro f hf
      cases hf
  | callDequeue last =>
      refine ⟨Nat.lt_succ_self _, ?_⟩
      intro h hh
      cases hh
  | hand => trivial
  | drawTail i call =>
      obtain ⟨hpos, hcarrying, _⟩ := hrecorded
      refine ⟨hpos, fun _ => ⟨(hcarrying rfl).1, ?_⟩, nofun⟩
      intro f hf τ hτ
      cases hf
      exact hm.tails_le i _ τ hτ
  | giveUp i call ticket hreads | reuseSafe i call ticket hreads
  | reuseUnsafe i call ticket hreads =>
      obtain ⟨hpos, hcarrying, _⟩ := hrecorded
      obtain ⟨hcall, hlate⟩ := hcarrying (by cases hreads <;> rfl)
      refine ⟨hpos, fun _ => ⟨hcall, ?_⟩, nofun⟩
      intro f hf τ hτ
      cases hf
      all_goals exact hlate ticket (tailTicket_of_reads hreads) τ hτ
  | headBehind i call ticket entry | headAhead i call ticket entry =>
      obtain ⟨hpos, hcarrying, _⟩ := hrecorded
      obtain ⟨hcall, hlate⟩ := hcarrying rfl
      refine ⟨hpos, fun _ => ⟨hcall, ?_⟩, nofun⟩
      intro f hf τ hτ
      cases hf
      all_goals exact hlate ticket rfl τ hτ
  | place i call ticket entry hsame =>
      obtain ⟨hpos, hcarrying, _⟩ := hrecorded
      refine ⟨hpos, nofun, ?_⟩
      intro _
      exact ⟨_, ticket, (hcarrying rfl).1, getElem?_update_concat.mpr (.inr ⟨rfl, rfl, rfl⟩),
        hl.1.1⟩
  | disarmed i call => exact hrecorded
  | armed | arm => trivial
  | exhausted => trivial
  | takeOut => trivial
  | decrementOut | decrementLast => trivial
  | drawHead call =>
      refine ⟨hrecorded.1, ?_⟩
      intro h hh
      cases hh
      exact Function.update_self ..
  | found call ticket hreads | occupied call ticket attempts hreads
  | vacant call ticket attempts hreads | spin call ticket attempts hreads =>
      refine ⟨hrecorded.1, ?_⟩
      intro h hh
      cases hh
      exact hrecorded.2 ticket (headTicket_of_reads hreads)
  | _ =>
      refine ⟨hrecorded.1, ?_⟩
      intro h hh
      cases hh

end Steps

section Run

variable [DecidableEq T] [Fintype T] {s : Config T (RingMem T) RingLoc}
  {ok : Config T (RingMem T) RingLoc → T × RingChoice T → Prop}

/-- The record is right about the calls that have been made and about those under way. -/
structure HistoryInv (n : ℕ) (s : Config T (RingMem T) RingLoc) : Prop where
  history : HistoryOk n s.mem
  recorded : ∀ t, Recorded s.mem (s.loc t)

omit [DecidableEq T] in
/-- The calls for an index in somebody's hands have all returned. -/
theorem PlaceInv.of_held (hinv : PlaceInv n s) {i : ℕ} {t : T} (hheld : s.mem.holder i = some t)
    (hi : i < n) : (s.mem.trace.calls i).length = (s.mem.trace.returns i).length ∧
      (s.mem.trace.placed i).length = (s.mem.trace.returns i).length := by
  have hone := hinv.one i hi
  have hcalled := hinv.called i
  have hreturned := hinv.returned i
  have hheld : held s.mem i = 1 := by simp [held, hheld]
  omega

omit [DecidableEq T] in
/-- **Step lemma** for the record. -/
theorem history_step (hn : PowerOfTwo n) (hstep : RingStep n t s.mem (s.loc t) m' l')
    (htickets : TicketInv n s) (hplaces : PlaceInv n s) (hinv : HistoryInv n s) :
    HistoryOk n m' := by
  have hm := hinv.history
  have hl := htickets.locs t
  have hrecorded := hinv.recorded t
  have hcarries : ∀ i, (s.loc t).carries i ≠ 0 → held s.mem i = 0 ∧
      tally (RingLoc.carries i) s.loc = 1 ∧ copies n s.mem i = 0 :=
    fun i hi => hplaces.alone_of_carried hi
  have hstored : ∀ j g, Stored n m' j g →
      Stored n s.mem j g ∨ ∃ call entry, s.loc t = .enqueue j call (.exchange g entry) :=
    fun j g hg => hstep.stored_cases hn hl hg
  generalize hloc : s.loc t = l at hstep hl hrecorded hcarries hstored
  cases hstep with
  | callEnqueue last i hheld hi =>
      obtain ⟨hall, hout⟩ := hplaces.of_held hheld hi
      exact hm.callEnqueue hall hout
  | place i call ticket entry hsame =>
      have hcarried := hcarries i (by simp [RingLoc.carries, EnqueuePhase.carrying])
      have hreturned := hplaces.returned i
      refine hm.place ((hrecorded.2.1 rfl).2 ticket rfl) (by omega) ?_
      intro j g hg
      rcases hstored j g hg with hbefore | ⟨call', entry', heq⟩
      · left
        refine ⟨?_, hbefore⟩
        rintro rfl
        have hpos := hbefore.copies_pos hn
        omega
      · cases heq
        exact .inr ⟨rfl, rfl⟩
  | armed i call hthreshold =>
      obtain ⟨k, f, hcall, hf, htail⟩ := hrecorded.2.2 rfl
      exact hm.complete hrecorded.1 hcall hf htail
  | arm i call =>
      obtain ⟨k, f, hcall, hf, htail⟩ := hrecorded.2.2 rfl
      have hset : HistoryOk n (s.mem.setThreshold (initialThreshold n)) :=
        hm.mono rfl rfl rfl rfl rfl rfl rfl le_rfl le_rfl fun _ _ h => h
      exact hset.complete hrecorded.1 hcall hf htail
  | drawHead call => exact hm.drawHead hrecorded.1
  | takeOut call ticket entry =>
      obtain ⟨⟨hdrawn, _⟩, i, hindex, hi⟩ := hl
      rw [hindex, Option.getD_some]
      have hcopies := (hplaces.alone hn hi).2
      have hcalled := hplaces.called i
      have hreturned := hplaces.returned i
      refine hm.takeOut hi hdrawn (hrecorded.2 ticket rfl) (by omega) ?_
      intro j g hg
      rcases hstored j g hg with hbefore | ⟨call', entry', heq⟩
      · refine ⟨?_, hbefore⟩
        rintro rfl
        rw [hplaces.unique_slot hn hbefore hi] at hg
        have hnone := hg.2
        simp at hnone
      · cases heq
  | drawTail => exact hm.mono rfl rfl rfl rfl rfl rfl rfl (Nat.le_succ _) le_rfl fun _ _ h => h
  | caughtUp call tail head htail =>
      exact hm.mono rfl rfl rfl rfl rfl rfl rfl (htail.trans_le hl.1) le_rfl fun _ _ h => h
  | replace call ticket attempts entry replacement hsame =>
      refine hm.mono rfl rfl rfl rfl rfl rfl rfl le_rfl le_rfl ?_
      intro j g hg
      rcases hstored j g hg with hbefore | ⟨call', entry', heq⟩
      · exact hbefore
      · cases heq
  | callDequeue | exhausted | decrementOut | decrementLast =>
      exact hm.mono rfl rfl rfl rfl rfl rfl rfl le_rfl (Nat.le_succ _) fun _ _ h => h
  | _ => exact hm.mono rfl rfl rfl rfl rfl rfl rfl le_rfl le_rfl fun _ _ h => h

omit [DecidableEq T] [Fintype T] in
theorem fresh_historyOk (hn : PowerOfTwo n) (h : Fresh n m) : HistoryOk n m := by
  have hring := fresh_ringOk hn h
  obtain ⟨holder, rfl⟩ | rfl := h
  · exact
      { clock_pos := Nat.one_pos
        completed_lt := nofun
        calls_lt := nofun
        returns_lt := nofun
        starts_lt := nofun
        unique := nofun
        tails_length := fun _ => rfl
        tails_le := nofun
        before := nofun
        after := nofun
        inside := nofun
        drawn := nofun
        late := nofun
        early := nofun }
  · have hone : ∀ {i k a x : ℕ}, (if i < n then [a] else [])[k]? = some x → i < n ∧ k = 0 ∧ x = a := by
      intro i k a x hx
      by_cases hi : i < n
      · rw [if_pos hi] at hx
        obtain ⟨hk, hx⟩ := List.getElem?_eq_some_iff.mp hx
        obtain rfl : k = 0 := by simpa using hk
        exact ⟨hi, rfl, hx.symm⟩
      · simp [hi] at hx
    exact
      { clock_pos := Nat.one_pos
        completed_lt := by
          intro p hp
          rw [List.mem_singleton.mp hp]
          exact Nat.one_pos
        calls_lt := by
          intro i k c hc
          rw [(hone hc).2.2]
          exact Nat.one_pos
        returns_lt := nofun
        starts_lt := nofun
        unique := by
          intro i j k k' c hpos hc
          rw [(hone hc).2.2] at hpos
          exact absurd hpos (lt_irrefl _)
        tails_length := fun _ => rfl
        tails_le := by
          intro i k τ hτ
          rw [(hone hτ).2.2]
          exact Nat.zero_le _
        before := nofun
        after := by
          intro i k c hc
          exact absurd (hone hc).2.1 (Nat.succ_ne_zero k)
        inside := by
          intro i f hf
          have hlt : f < n := (hring.stored i f hf).1
          have hslot : slot n f = f := by
            rw [slot_eq hn, Nat.mod_eq_of_lt]
            unfold ringSize
            omega
          have hindex := hf.2
          rw [hslot] at hindex
          obtain rfl : f = i := by simpa [initializeFull, hlt] using hindex
          simp [initializeFull, hlt]
        drawn := nofun
        late := by
          intro i k τ f hτ _
          rw [(hone hτ).2.2]
          exact Nat.zero_le _
        early := by
          intro p hp i k hk
          obtain ⟨hi, rfl, _⟩ := hone hk
          refine ⟨i, by simp [initializeFull, hi], hi, ?_⟩
          intro j k' c τ hc _ hlt
          rw [(hone hc).2.2] at hlt
          exact absurd hlt (Nat.not_lt_zero _) }

/-- **Run lemma.** -/
theorem historyInv_reach (hn : PowerOfTwo n) :
    ∀ s, (system n (T := T)).Reach ok s → HistoryInv n s := by
  refine interleave_invariant ?_ ?_
  · intro s hs
    refine ⟨fresh_historyOk hn hs.1, ?_⟩
    intro t
    rw [hs.2 t]
    trivial
  · intro s t c m l hs hinv _ hstep
    have hshape := step_sound hstep
    have htickets := ticketInv_reach hn s hs
    have hplaces := placeInv_reach hn s hs
    refine ⟨history_step hn hshape htickets hplaces hinv, ?_⟩
    intro u
    by_cases hu : u = t
    · subst hu
      simp only [Function.update_self]
      refine hshape.recorded hinv.history (htickets.locs u) (hinv.recorded u) ?_
      intro i hi hheld
      obtain ⟨hall, hout⟩ := hplaces.of_held hheld hi
      rw [hall, hout]
    · simp only [Function.update_of_ne hu]
      refine (hinv.recorded u).other hshape (htickets.locs t) (htickets.locs u) ?_
      intro i hi
      refine ⟨(hplaces.alone_of_carried hi).1, ?_⟩
      by_contra hother
      exact hu (hplaces.one_carrier hi hother)

end Run

end RingThreads

end EventDispatcher
