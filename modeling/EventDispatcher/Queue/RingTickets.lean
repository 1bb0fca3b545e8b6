import EventDispatcher.Queue.RingThreads

/-!
# Tickets and entries of the index ring

The entry of a slot belongs to the ticket that its cycle and its slot make up.  An entry with an
index belongs to a tail ticket whose head ticket is not done with (`RingOk.stored`), and a head
ticket that is done with leaves an entry behind that no `enqueue` with the same or an earlier
ticket can reuse (`RingOk.passed`).  What a thread has read before it exchanges an entry is
`LocOk`.
-/

namespace EventDispatcher

open Transition

namespace RingThreads

variable {T : Type} {n : ℕ}

section Arithmetic

variable {a b : ℕ}

/-- `capacity` is a power of two and at least two. -/
def PowerOfTwo (n : ℕ) : Prop := ∃ k, n = 2 ^ (k + 1)

/-- A ring has entries. -/
theorem ringSize_pos (hn : PowerOfTwo n) : 0 < ringSize n := by
  obtain ⟨k, rfl⟩ := hn
  unfold ringSize
  positivity

/-- The slot of a ticket. -/
theorem slot_eq (hn : PowerOfTwo n) (ticket : ℕ) : slot n ticket = ticket % ringSize n := by
  obtain ⟨k, rfl⟩ := hn
  rw [slot, ringSize, ← pow_succ, Nat.and_two_pow_sub_one_eq_mod]

/-- A ticket is mapped into the ring. -/
theorem slot_lt (hn : PowerOfTwo n) (ticket : ℕ) : slot n ticket < ringSize n := by
  rw [slot_eq hn]
  exact Nat.mod_lt _ (ringSize_pos hn)

/-- A ticket is its slot and its cycle. -/
theorem ticket_eq (hn : PowerOfTwo n) (hslot : slot n a = slot n b) (hcycle : cycle n a = cycle n b) :
    a = b := by
  rw [slot_eq hn, slot_eq hn] at hslot
  have hdiv : a / ringSize n = b / ringSize n := by
    unfold cycle at hcycle
    exact_mod_cast hcycle
  rw [← Nat.div_add_mod a (ringSize n), ← Nat.div_add_mod b (ringSize n), hslot, hdiv]

/-- Two tickets of one slot are a whole turn of the ring apart. -/
theorem add_le_of_lt (hn : PowerOfTwo n) (hslot : slot n a = slot n b) (hlt : a < b) :
    a + ringSize n ≤ b := by
  rw [slot_eq hn, slot_eq hn] at hslot
  have hdvd : ringSize n ∣ b - a := (Nat.modEq_iff_dvd' hlt.le).mp hslot
  have hle := Nat.le_of_dvd (by omega) hdvd
  omega

/-- A later cycle has later tickets. -/
theorem lt_of_cycle_lt (hcycle : cycle n a < cycle n b) : a < b := by
  by_contra hle
  have hdiv : b / ringSize n ≤ a / ringSize n := Nat.div_le_div_right (not_lt.mp hle)
  unfold cycle at hcycle
  omega

/-- Tickets for one slot are of different cycles. -/
theorem cycle_lt_of_lt (hn : PowerOfTwo n) (hslot : slot n a = slot n b) (hlt : a < b) :
    cycle n a < cycle n b := by
  have hle : cycle n a ≤ cycle n b := by
    unfold cycle
    exact_mod_cast Nat.div_le_div_right hlt.le
  refine lt_of_le_of_ne hle fun heq => ?_
  exact hlt.ne (ticket_eq hn hslot heq)

/-- The first cycle is number zero. -/
theorem cycle_nonneg (ticket : ℕ) : 0 ≤ cycle n ticket := by
  unfold cycle
  positivity

end Arithmetic

end RingThreads

/-- The tail ticket of a call of `enqueue` that has not stored its index. -/
def RingLoc.tailTicket : RingLoc → Option ℕ
  | .enqueue _ _ (.load ticket) => some ticket
  | .enqueue _ _ (.checkHead ticket _) => some ticket
  | .enqueue _ _ (.exchange ticket _) => some ticket
  | _ => none

/-- The head ticket of a call of `try_dequeue` that is not done with it. -/
def RingLoc.headTicket : RingLoc → Option ℕ
  | .tryDequeue _ (.load ticket _) => some ticket
  | .tryDequeue _ (.exchange ticket _ _ _) => some ticket
  | .tryDequeue _ (.claim ticket _) => some ticket
  | _ => none

namespace RingThreads

variable {T : Type} {n : ℕ} {t : T} {m m' : RingMem T} {l l' : RingLoc}

/-- The ring holds index `i` in the entry of a ticket. -/
def Stored (n : ℕ) (m : RingMem T) (i ticket : ℕ) : Prop :=
  (m.entries (slot n ticket)).cycle = cycle n ticket ∧
    (m.entries (slot n ticket)).index = some i

/-- What the entries say about the tickets. -/
structure RingOk (n : ℕ) (m : RingMem T) : Prop where
  /-- an entry with an index has the cycle of a ticket -/
  ticketed : ∀ j i, (m.entries j).index = some i → ∃ ticket, slot n ticket = j ∧ Stored n m i ticket
  stored : ∀ i ticket, Stored n m i ticket → ticket < m.tail ∧ m.trace.left ticket = false
  vacated : ∀ ticket, (m.entries (slot n ticket)).cycle = cycle n ticket →
    (m.entries (slot n ticket)).index = none → m.trace.left ticket = true
  passed : ∀ ticket, m.trace.left ticket = true →
    cycle n ticket ≤ (m.entries (slot n ticket)).cycle ∨
      (m.entries (slot n ticket)).safe = false
  drawn : ∀ ticket, m.trace.left ticket = true → ticket < m.head

/-- `entry`, which has no index, has been read from the slot of `ticket`, and the entry there is
not older. -/
def Older (n : ℕ) (m : RingMem T) (ticket : ℕ) (entry : RingEntry) : Prop :=
  entry.cycle < (m.entries (slot n ticket)).cycle ∨
    entry.cycle = (m.entries (slot n ticket)).cycle ∧ (m.entries (slot n ticket)).index = none

/-- What a thread knows. -/
def LocOk (n : ℕ) (m : RingMem T) : RingLoc → Prop
  | .enqueue _ _ (.load ticket) => ticket < m.tail ∧ ∀ i, ¬ Stored n m i ticket
  | .enqueue _ _ (.checkHead ticket entry) =>
      (ticket < m.tail ∧ ∀ i, ¬ Stored n m i ticket) ∧ entry.cycle < cycle n ticket ∧
        entry.index = none ∧ Older n m ticket entry
  | .enqueue _ _ (.exchange ticket entry) =>
      (ticket < m.tail ∧ ∀ i, ¬ Stored n m i ticket) ∧ entry.cycle < cycle n ticket ∧
        entry.index = none ∧ Older n m ticket entry ∧
        (m.entries (slot n ticket) = entry →
          ∀ h, m.trace.left h = true → slot n h = slot n ticket → h < ticket)
  | .tryDequeue _ (.load ticket _) => ticket < m.head ∧ m.trace.left ticket = false
  | .tryDequeue _ (.exchange ticket _ entry replacement) =>
      (ticket < m.head ∧ m.trace.left ticket = false) ∧ entry.cycle < cycle n ticket ∧
        (entry.index ≠ none ∧ replacement = { entry with safe := false } ∨
          entry.index = none ∧ replacement = ⟨cycle n ticket, entry.safe, none⟩)
  | .tryDequeue _ (.claim ticket entry) =>
      (ticket < m.head ∧ m.trace.left ticket = false) ∧
        ∃ i, entry.index = some i ∧ Stored n m i ticket
  | .tryDequeue _ (.loadTail ticket) => ticket < m.head
  | .tryDequeue _ (.catchUp tail head) => tail ≤ head ∧ head ≤ m.head
  | .tryDequeue _ (.catchTail head) => head ≤ m.head
  | _ => True

section Basics

/-- A slot stores for one ticket at a time. -/
theorem Stored.unique_ticket (hn : PowerOfTwo n) {i j a b : ℕ} (ha : Stored n m i a)
    (hb : Stored n m j b) (hslot : slot n a = slot n b) : a = b := by
  refine ticket_eq hn hslot ?_
  rw [← ha.1, ← hb.1, hslot]

/-- A thread with a tail ticket knows that it has not been used. -/
theorem LocOk.tail (h : LocOk n m l) {ticket : ℕ} (hl : l.tailTicket = some ticket) :
    ticket < m.tail ∧ ∀ i, ¬ Stored n m i ticket := by
  unfold RingLoc.tailTicket at hl
  split at hl
  · cases hl
    exact h
  · cases hl
    exact h.1
  · cases hl
    exact h.1
  · cases hl

/-- A thread with a head ticket is not done with it. -/
theorem LocOk.head (h : LocOk n m l) {ticket : ℕ} (hl : l.headTicket = some ticket) :
    ticket < m.head ∧ m.trace.left ticket = false := by
  unfold RingLoc.headTicket at hl
  split at hl
  · cases hl
    exact h
  · cases hl
    exact h.1
  · cases hl
    exact h.1
  · cases hl

/-- A call of `enqueue` that reads an entry has a ticket. -/
theorem tailTicket_of_reads {i call ticket : ℕ} {phase : EnqueuePhase}
    (h : phase.Reads ticket) : (RingLoc.enqueue i call phase).tailTicket = some ticket := by
  cases h <;> rfl

/-- A call of `try_dequeue` that reads an entry has a ticket. -/
theorem headTicket_of_reads {call ticket : ℕ} {phase : DequeuePhase}
    (h : phase.Reads ticket) : (RingLoc.tryDequeue call phase).headTicket = some ticket := by
  cases h <;> rfl

/-- What a thread knows depends on the entries and on the head tickets done with; the counters
only grow. -/
theorem LocOk.mono (h : LocOk n m l) (hentries : m'.entries = m.entries)
    (hleft : m'.trace.left = m.trace.left) (hhead : m.head ≤ m'.head) (htail : m.tail ≤ m'.tail) :
    LocOk n m' l := by
  unfold LocOk Stored Older at *
  rw [hentries, hleft]
  split <;> grind

/-- A step that keeps the entries keeps the ring in order. -/
theorem RingOk.mono (h : RingOk n m) (hentries : m'.entries = m.entries)
    (hleft : m'.trace.left = m.trace.left) (hhead : m.head ≤ m'.head) (htail : m.tail ≤ m'.tail) :
    RingOk n m' := by
  have hstored : ∀ {i ticket}, Stored n m' i ticket ↔ Stored n m i ticket := by
    unfold Stored
    rw [hentries]
  refine ⟨?_, ?_, ?_, ?_, ?_⟩
  · simp only [hstored, hentries]
    exact h.ticketed
  · intro i ticket hi
    obtain ⟨hlt, hnot⟩ := h.stored i ticket (hstored.mp hi)
    exact ⟨hlt.trans_le htail, by rw [hleft]; exact hnot⟩
  · rw [hentries, hleft]
    exact h.vacated
  · rw [hentries, hleft]
    exact h.passed
  · rw [hleft]
    intro ticket hdone
    exact (h.drawn ticket hdone).trans_le hhead

end Basics

section Entries

variable {h f i : ℕ} {entry : RingEntry}

/-- A head ticket is given up. -/
theorem RingOk.leave (hm : RingOk n m) (hdrawn : h < m.head)
    (hother : (m.entries (slot n h)).cycle ≠ cycle n h)
    (hwhy : (m.entries (slot n h)).safe = false ∨ cycle n h ≤ (m.entries (slot n h)).cycle) :
    RingOk n (m.leave h) := by
  obtain ⟨hticketed, hstored, hvacated, hpassed, hhead⟩ := hm
  refine ⟨hticketed, ?_, ?_, ?_, ?_⟩
  · intro j ticket hj
    refine ⟨(hstored j ticket hj).1, ?_⟩
    have hne : ticket ≠ h := by
      rintro rfl
      exact hother hj.1
    simpa [hne] using (hstored j ticket hj).2
  · intro ticket hcycle hindex
    by_cases hne : ticket = h
    · simp [hne]
    · simpa [hne] using hvacated ticket hcycle hindex
  · intro ticket hdone
    by_cases hne : ticket = h
    · subst hne
      exact hwhy.symm
    · exact hpassed ticket (by simpa [hne] using hdone)
  · intro ticket hdone
    by_cases hne : ticket = h
    · subst hne
      exact hdrawn
    · exact hhead ticket (by simpa [hne] using hdone)

/-- An index is stored with tail ticket `f`. -/
theorem RingOk.place (hn : PowerOfTwo n) (hm : RingOk n m) (hdrawn : f < m.tail)
    (hbehind : ∀ h, m.trace.left h = true → slot n h = slot n f → h < f) :
    RingOk n (m.setEntry (slot n f) ⟨cycle n f, true, some i⟩) := by
  obtain ⟨hticketed, hstored, hvacated, hpassed, hhead⟩ := hm
  -- at the slot the only ticket is `f`, elsewhere nothing changes
  have hother : ∀ {j ticket}, slot n ticket ≠ slot n f →
      (Stored n (m.setEntry (slot n f) ⟨cycle n f, true, some i⟩) j ticket ↔
        Stored n m j ticket) := by
    intro j ticket hne
    simp [Stored, hne]
  refine ⟨?_, ?_, ?_, ?_, hhead⟩
  · intro j k hj
    by_cases hslot : j = slot n f
    · subst hslot
      refine ⟨f, rfl, ?_⟩
      simpa [Stored] using hj
    · simp only [RingMem.setEntry_entries, Function.update_of_ne hslot] at hj
      obtain ⟨ticket, rfl, hticket⟩ := hticketed j k hj
      exact ⟨ticket, rfl, (hother hslot).mpr hticket⟩
  · intro j ticket hj
    by_cases hslot : slot n ticket = slot n f
    · have hcycle : cycle n f = cycle n ticket := by simpa [hslot] using hj.1
      obtain rfl := ticket_eq hn hslot hcycle.symm
      refine ⟨hdrawn, ?_⟩
      by_contra hleft
      exact lt_irrefl _ (hbehind ticket (by simpa using hleft) rfl)
    · exact hstored j ticket ((hother hslot).mp hj)
  · intro ticket hcycle hindex
    by_cases hslot : slot n ticket = slot n f
    · simp [hslot] at hindex
    · simp only [RingMem.setEntry_entries, Function.update_of_ne hslot] at hcycle hindex
      exact hvacated ticket hcycle hindex
  · intro ticket hdone
    by_cases hslot : slot n ticket = slot n f
    · left
      simpa [hslot] using (cycle_lt_of_lt hn hslot (hbehind ticket hdone hslot)).le
    · simpa [hslot] using hpassed ticket hdone

/-- The safe bit of the entry is cleared. -/
theorem RingOk.distrust (hm : RingOk n m) :
    RingOk n (m.setEntry (slot n f) { m.entries (slot n f) with safe := false }) := by
  obtain ⟨hticketed, hstored, hvacated, hpassed, hhead⟩ := hm
  have hentry : ∀ j, ((m.setEntry (slot n f) { m.entries (slot n f) with safe := false }).entries
      j).cycle = (m.entries j).cycle ∧
      ((m.setEntry (slot n f) { m.entries (slot n f) with safe := false }).entries j).index =
        (m.entries j).index := by
    intro j
    by_cases hslot : j = slot n f
    · subst hslot
      simp
    · simp [hslot]
  have hsame : ∀ {j ticket}, Stored n (m.setEntry (slot n f)
      { m.entries (slot n f) with safe := false }) j ticket ↔ Stored n m j ticket := by
    intro j ticket
    simp only [Stored, (hentry _).1, (hentry _).2]
  refine ⟨?_, ?_, ?_, ?_, hhead⟩
  · simp only [(hentry _).2, hsame]
    exact hticketed
  · simp only [hsame]
    exact hstored
  · simp only [(hentry _).1, (hentry _).2]
    exact hvacated
  · intro ticket hdone
    by_cases hslot : slot n ticket = slot n f
    · right
      simp [hslot]
    · simpa [hslot] using hpassed ticket hdone

/-- Head ticket `h` leaves an entry of its own without an index. -/
theorem RingOk.vacate (hn : PowerOfTwo n) (hm : RingOk n m) (hdrawn : h < m.head)
    (hcycle : (m.entries (slot n h)).cycle ≤ cycle n h) :
    RingOk n ((m.setEntry (slot n h) ⟨cycle n h, (m.entries (slot n h)).safe, none⟩).leave h) := by
  obtain ⟨hticketed, hstored, hvacated, hpassed, hhead⟩ := hm
  refine ⟨?_, ?_, ?_, ?_, ?_⟩
  · intro j k hj
    by_cases hslot : j = slot n h
    · simp [hslot] at hj
    · simp only [RingMem.leave_entries, RingMem.setEntry_entries, Function.update_of_ne hslot] at hj
      obtain ⟨ticket, rfl, hticket⟩ := hticketed j k hj
      exact ⟨ticket, rfl, by simpa [Stored, hslot] using hticket⟩
  · intro j ticket hj
    by_cases hslot : slot n ticket = slot n h
    · have hindex := hj.2
      simp [hslot] at hindex
    · have hne : ticket ≠ h := fun heq => hslot (by rw [heq])
      have hold : Stored n m j ticket := by simpa [Stored, hslot] using hj
      simpa [hne] using hstored j ticket hold
  · intro ticket hsame hindex
    by_cases hslot : slot n ticket = slot n h
    · have heq : cycle n h = cycle n ticket := by simpa [hslot] using hsame
      obtain rfl := ticket_eq hn hslot heq.symm
      simp
    · have hne : ticket ≠ h := fun heq => hslot (by rw [heq])
      simp only [RingMem.leave_entries, RingMem.setEntry_entries,
        Function.update_of_ne hslot] at hsame hindex
      simpa [hne] using hvacated ticket hsame hindex
  · intro ticket hdone
    by_cases hne : ticket = h
    · subst hne
      left
      simp
    · have hbefore := hpassed ticket (by simpa [hne] using hdone)
      by_cases hslot : slot n ticket = slot n h
      · rw [hslot] at hbefore
        simp only [RingMem.leave_entries, RingMem.setEntry_entries, hslot, Function.update_self]
        rcases hbefore with hle | hunsafe
        · exact .inl (hle.trans hcycle)
        · exact .inr hunsafe
      · simpa [hslot] using hbefore
  · intro ticket hdone
    by_cases hne : ticket = h
    · subst hne
      exact hdrawn
    · exact hhead ticket (by simpa [hne] using hdone)

/-- **Step lemma** for the entries. -/
theorem RingStep.ringOk (hn : PowerOfTwo n) (hstep : RingStep n t m l m' l') (hm : RingOk n m)
    (hl : LocOk n m l) : RingOk n m' := by
  cases hstep with
  | drawTail => exact hm.mono rfl rfl le_rfl (Nat.le_succ _)
  | drawHead => exact hm.mono rfl rfl (Nat.le_succ _) le_rfl
  | caughtUp call tail head htail => exact hm.mono rfl rfl le_rfl (htail.trans_le hl.1)
  | place i call ticket entry hsame =>
      exact (hm.place hn hl.1.1 (hl.2.2.2.2 hsame)).mono rfl rfl le_rfl le_rfl
  | leave call ticket hreads hother hwhy =>
      obtain ⟨hdrawn, _⟩ := hl.head (headTicket_of_reads hreads)
      exact hm.leave hdrawn hother (hwhy.imp_left And.right)
  | replace call ticket attempts entry replacement hsame =>
      obtain ⟨⟨hdrawn, _⟩, hcycle, ⟨hindex, rfl⟩ | ⟨hindex, rfl⟩⟩ := hl
      · rw [← hsame]
        refine hm.distrust.leave hdrawn ?_ (.inl (by simp))
        rw [← hsame] at hcycle
        simpa using hcycle.ne
      · rw [← hsame] at hcycle ⊢
        exact hm.vacate hn hdrawn hcycle.le
  | takeOut call ticket entry =>
      obtain ⟨⟨hdrawn, _⟩, i, hindex, hstored⟩ := hl
      have hvacated := hm.vacate hn hdrawn hstored.1.le
      rw [← hstored.1] at hvacated
      exact hvacated.mono rfl rfl le_rfl le_rfl
  | _ => exact hm.mono rfl rfl le_rfl le_rfl

end Entries

section Threads

variable {k : RingLoc} {h f i : ℕ}

/-- **Step lemma** for the thread that moves. -/
theorem RingStep.locOk (hstep : RingStep n t m l m' l') (hm : RingOk n m)
    (hl : LocOk n m l) : LocOk n m' l' := by
  cases hstep with
  | drawTail i call =>
      refine ⟨Nat.lt_succ_self _, ?_⟩
      intro j hj
      exact lt_irrefl _ (hm.stored j m.tail hj).1
  | reuseSafe i call ticket hreads hcycle hindex hsafe =>
      refine ⟨hl.tail (tailTicket_of_reads hreads), hcycle, hindex, .inr ⟨rfl, hindex⟩, ?_⟩
      intro _ h hdone hslot
      apply lt_of_cycle_lt (n := n)
      have hpassed := hm.passed h hdone
      rw [hslot] at hpassed
      rcases hpassed with hle | hunsafe
      · exact hle.trans_lt hcycle
      · rw [hsafe] at hunsafe
        cases hunsafe
  | reuseUnsafe i call ticket hreads hcycle hindex =>
      exact ⟨hl.tail (tailTicket_of_reads hreads), hcycle, hindex, .inr ⟨rfl, hindex⟩⟩
  | headBehind i call ticket entry hhead =>
      obtain ⟨htail, hcycle, hindex, holder⟩ := hl
      refine ⟨htail, hcycle, hindex, holder, ?_⟩
      intro _ h hdone _
      exact (hm.drawn h hdone).trans_le hhead
  | drawHead call =>
      refine ⟨Nat.lt_succ_self _, ?_⟩
      by_contra hdone
      exact lt_irrefl _ (hm.drawn m.head (by simpa using hdone))
  | found call ticket hreads hcycle =>
      obtain ⟨hdrawn, hundone⟩ := hl.head (headTicket_of_reads hreads)
      cases hindex : (m.entries (slot n ticket)).index with
      | none =>
          rw [hm.vacated ticket hcycle hindex] at hundone
          cases hundone
      | some i => exact ⟨⟨hdrawn, hundone⟩, i, hindex, hcycle, hindex⟩
  | occupied call ticket attempts hreads hcycle hindex =>
      exact ⟨hl.head (headTicket_of_reads hreads), hcycle, .inl ⟨hindex, rfl⟩⟩
  | vacant call ticket attempts hreads hcycle hindex =>
      exact ⟨hl.head (headTicket_of_reads hreads), hcycle, .inr ⟨hindex, rfl⟩⟩
  | spin call ticket attempts hreads => exact hl.head (headTicket_of_reads hreads)
  | leave call ticket hreads => exact (hl.head (headTicket_of_reads hreads)).1
  | replace => exact hl.1.1
  | tailBehind call ticket htail => exact ⟨htail, hl⟩
  | catchHead => exact le_rfl
  | catchTail call head htail => exact ⟨htail.le, hl⟩
  | _ => trivial

/-- What a thread needs of the entries and of the tickets done with. -/
structure Undisturbs (n : ℕ) (m m' : RingMem T) (k : RingLoc) : Prop where
  head : m'.head = m.head
  tail : m'.tail = m.tail
  unused : ∀ i ticket, k.tailTicket = some ticket → Stored n m' i ticket → Stored n m i ticket
  kept : ∀ i ticket, k.headTicket = some ticket → Stored n m i ticket → Stored n m' i ticket
  left : ∀ ticket, k.headTicket = some ticket → m'.trace.left ticket = m.trace.left ticket
  older : ∀ ticket entry, entry.index = none → Older n m ticket entry → Older n m' ticket entry
  again : ∀ ticket entry, entry.index = none → Older n m ticket entry →
    m'.entries (slot n ticket) = entry → m.entries (slot n ticket) = entry ∧
      ∀ h, m'.trace.left h = true → slot n h = slot n ticket →
        m.trace.left h = true ∨ cycle n h ≤ entry.cycle

/-- What others do does not put a call out of order. -/
theorem LocOk.change (hk : LocOk n m k) (hchange : Undisturbs n m m' k) : LocOk n m' k := by
  have htail : ∀ {ticket}, k.tailTicket = some ticket →
      (ticket < m.tail ∧ ∀ i, ¬ Stored n m i ticket) →
      ticket < m'.tail ∧ ∀ i, ¬ Stored n m' i ticket := by
    intro ticket hticket hbefore
    rw [hchange.tail]
    exact ⟨hbefore.1, fun i hi => hbefore.2 i (hchange.unused i ticket hticket hi)⟩
  have hhead : ∀ {ticket}, k.headTicket = some ticket →
      (ticket < m.head ∧ m.trace.left ticket = false) →
      ticket < m'.head ∧ m'.trace.left ticket = false := by
    intro ticket hticket hbefore
    rw [hchange.head, hchange.left ticket hticket]
    exact hbefore
  cases k with
  | outside last => trivial
  | enqueue i call phase =>
      cases phase with
      | load ticket => exact htail rfl hk
      | checkHead ticket entry =>
          obtain ⟨hticket, hcycle, hindex, holder⟩ := hk
          exact ⟨htail rfl hticket, hcycle, hindex, hchange.older ticket entry hindex holder⟩
      | exchange ticket entry =>
          obtain ⟨hticket, hcycle, hindex, holder, hbehind⟩ := hk
          refine ⟨htail rfl hticket, hcycle, hindex, hchange.older ticket entry hindex holder, ?_⟩
          intro hsame h hdone hslot
          obtain ⟨hbefore, hdoneBefore⟩ := hchange.again ticket entry hindex holder hsame
          rcases hdoneBefore h hdone hslot with hold | hle
          · exact hbehind hbefore h hold hslot
          · exact lt_of_cycle_lt (hle.trans_lt hcycle)
      | _ => trivial
  | tryDequeue call phase =>
      cases phase with
      | load ticket attempts => exact hhead rfl hk
      | exchange ticket attempts entry replacement => exact ⟨hhead rfl hk.1, hk.2⟩
      | claim ticket entry =>
          obtain ⟨hticket, i, hindex, hstored⟩ := hk
          exact ⟨hhead rfl hticket, i, hindex, hchange.kept i ticket rfl hstored⟩
      | loadTail ticket => exact hk.trans_eq hchange.head.symm
      | catchUp tail head => exact ⟨hk.1, hk.2.trans_eq hchange.head.symm⟩
      | catchTail head => exact hk.trans hchange.head.ge
      | _ => trivial

/-- One entry is overwritten, by another thread. -/
theorem Undisturbs.setEntry {new : RingEntry}
    (hunused : ∀ i ticket, k.tailTicket = some ticket → slot n ticket = slot n h →
      new.cycle = cycle n ticket → new.index = some i → Stored n m i ticket)
    (hkept : ∀ i ticket, k.headTicket = some ticket → slot n ticket = slot n h →
      Stored n m i ticket → new.cycle = cycle n ticket ∧ new.index = some i)
    (holder : ∀ entry : RingEntry, entry.index = none → Older n m h entry →
      entry.cycle < new.cycle ∨ entry.cycle = new.cycle ∧ new.index = none)
    (hnew : ∀ entry : RingEntry, entry.index = none → Older n m h entry → new ≠ entry)
    {left : ℕ → Bool} (hleft : ∀ ticket, k.headTicket = some ticket →
      left ticket = m.trace.left ticket)
    (hentries : m'.entries = Function.update m.entries (slot n h) new)
    (hmleft : m'.trace.left = left) (hhead : m'.head = m.head) (htail : m'.tail = m.tail)
    (hother : ∀ g, left g = true → m.trace.left g = true ∨ g = h) :
    Undisturbs n m m' k := by
  refine ⟨hhead, htail, ?_, ?_, ?_, ?_, ?_⟩
  · intro i ticket hticket hstored
    by_cases hslot : slot n ticket = slot n h
    · simp only [Stored, hentries, hslot, Function.update_self] at hstored
      exact hunused i ticket hticket hslot hstored.1 hstored.2
    · simpa [Stored, hentries, hslot] using hstored
  · intro i ticket hticket hstored
    by_cases hslot : slot n ticket = slot n h
    · simpa [Stored, hentries, hslot] using hkept i ticket hticket hslot hstored
    · simpa [Stored, hentries, hslot] using hstored
  · intro ticket hticket
    rw [hmleft]
    exact hleft ticket hticket
  · intro ticket entry hindex hbefore
    by_cases hslot : slot n ticket = slot n h
    · have hthere : Older n m h entry := by simpa [Older, hslot] using hbefore
      simpa [Older, hentries, hslot] using holder entry hindex hthere
    · simpa [Older, hentries, hslot] using hbefore
  · intro ticket entry hindex hbefore hsame
    by_cases hslot : slot n ticket = slot n h
    · have hthere : Older n m h entry := by simpa [Older, hslot] using hbefore
      rw [hentries, hslot, Function.update_self] at hsame
      exact absurd hsame (hnew entry hindex hthere)
    · rw [hentries, Function.update_of_ne hslot] at hsame
      refine ⟨hsame, ?_⟩
      intro g hdone hg
      rw [hmleft] at hdone
      rcases hother g hdone with hold | rfl
      · exact .inl hold
      · exact absurd hg.symm hslot

/-- **Step lemma** for the other threads. -/
theorem RingStep.undisturbed (hn : PowerOfTwo n) (hstep : RingStep n t m l m' l')
    (hl : LocOk n m l) (hk : LocOk n m k)
    (htail : ∀ f, l.tailTicket = some f → k.tailTicket ≠ some f)
    (hhead : ∀ h, l.headTicket = some h → k.headTicket ≠ some h) : LocOk n m' k := by
  have hleft : ∀ {h}, l.headTicket = some h → ∀ ticket, k.headTicket = some ticket →
      Function.update m.trace.left h true ticket = m.trace.left ticket := by
    intro h hh ticket hticket
    refine Function.update_of_ne ?_ _ _
    rintro rfl
    exact hhead ticket hh hticket
  have hdone : ∀ {h} g, Function.update m.trace.left h true g = true →
      m.trace.left g = true ∨ g = h := by
    intro h g hg
    by_cases heq : g = h
    · exact .inr heq
    · exact .inl (by simpa [heq] using hg)
  cases hstep with
  | drawTail => exact hk.mono rfl rfl le_rfl (Nat.le_succ _)
  | drawHead => exact hk.mono rfl rfl (Nat.le_succ _) le_rfl
  | caughtUp call tail head hsame => exact hk.mono rfl rfl le_rfl (hsame.trans_le hl.1)
  | place i call ticket entry hsame =>
      obtain ⟨_, hcycle, hindex, _⟩ := hl
      subst hsame
      refine hk.change (.setEntry (h := ticket) ?_ ?_ ?_ ?_ (fun _ _ => rfl) rfl rfl rfl rfl
        fun g hg => .inl hg)
      · intro j f hf hslot hsame _
        exact absurd hf (htail f (by rw [ticket_eq hn hslot hsame.symm]; rfl))
      · intro j f _ hslot hstored
        rw [Stored, hslot, hindex] at hstored
        cases hstored.2
      · intro old _ hold
        rcases hold with hlt | ⟨heq, _⟩
        · exact .inl (hlt.trans hcycle)
        · exact .inl (heq.trans_lt hcycle)
      · intro old hnone _ heq
        rw [← heq] at hnone
        cases hnone
  | leave call ticket hreads hother hwhy =>
      have hh : (RingLoc.tryDequeue call _).headTicket = some ticket := headTicket_of_reads hreads
      refine hk.change ⟨rfl, rfl, fun _ _ _ => id, fun _ _ _ => id, hleft hh, fun _ _ _ => id, ?_⟩
      intro f old hnone _ hsame
      refine ⟨hsame, ?_⟩
      intro g hg hslot
      rcases hdone g hg with hbefore | rfl
      · exact .inl hbefore
      · right
        simp only [RingMem.leave_entries] at hsame
        rw [hslot, hsame] at hwhy
        rcases hwhy with ⟨hsome, _⟩ | hle
        · exact absurd hnone hsome
        · exact hle
  | replace call ticket attempts entry replacement hsame =>
      obtain ⟨_, hcycle, ⟨hsome, rfl⟩ | ⟨hnone, rfl⟩⟩ := hl
      · subst hsame
        refine hk.change (.setEntry (h := ticket) ?_ ?_ ?_ ?_ (hleft rfl) rfl rfl rfl rfl hdone)
        · intro j f _ hslot hsame hindex
          rw [Stored, hslot]
          exact ⟨hsame, hindex⟩
        · intro j f _ hslot hstored
          rw [Stored, hslot] at hstored
          exact hstored
        · exact fun old _ hold => hold
        · intro old hnone _ heq
          rw [← heq] at hnone
          exact hsome hnone
      · subst hsame
        refine hk.change (.setEntry (h := ticket) ?_ ?_ ?_ ?_ (hleft rfl) rfl rfl rfl rfl hdone)
        · intro j f _ _ _ hindex
          cases hindex
        · intro j f _ hslot hstored
          rw [Stored, hslot, hnone] at hstored
          cases hstored.2
        · intro old _ hold
          rcases hold with hlt | ⟨heq, _⟩
          · exact .inl (hlt.trans hcycle)
          · exact .inl (heq.trans_lt hcycle)
        · intro old _ hold heq
          rw [← heq] at hold
          rcases hold with hlt | ⟨hsame, _⟩
          · exact absurd hlt hcycle.not_gt
          · exact hcycle.ne' hsame
  | takeOut call ticket entry =>
      obtain ⟨_, i, _, hstored⟩ := hl
      refine hk.change (.setEntry (h := ticket) ?_ ?_ ?_ ?_ (hleft rfl) rfl rfl rfl rfl hdone)
      · intro j f _ _ _ hnone
        cases hnone
      · intro j f hf hslot hold
        rw [hold.unique_ticket hn hstored hslot] at hf
        exact absurd hf (hhead ticket rfl)
      · intro old _ hold
        exact hold.imp_right fun heq => ⟨heq.1, rfl⟩
      · intro old hnone hold heq
        rw [← heq] at hold
        rcases hold with hlt | ⟨_, hindex⟩
        · exact lt_irrefl _ hlt
        · rw [hstored.2] at hindex
          cases hindex
  | _ => exact hk.mono rfl rfl le_rfl le_rfl

end Threads

section Run

variable [DecidableEq T] {s : Config T (RingMem T) RingLoc}
  {ok : Config T (RingMem T) RingLoc → T × RingChoice T → Prop}

/-- The invariant of the tickets: the entries are in order, every thread is right about what it
knows, and no ticket has two owners. -/
structure TicketInv (n : ℕ) (s : Config T (RingMem T) RingLoc) : Prop where
  ring : RingOk n s.mem
  locs : ∀ t, LocOk n s.mem (s.loc t)
  tails : ∀ t u f, (s.loc t).tailTicket = some f → (s.loc u).tailTicket = some f → t = u
  heads : ∀ t u h, (s.loc t).headTicket = some h → (s.loc u).headTicket = some h → t = u

omit [DecidableEq T] in
/-- A tail ticket is kept, given up, or drawn. -/
theorem RingStep.tailTicket_cases (hstep : RingStep n t m l m' l') {f : ℕ}
    (hf : l'.tailTicket = some f) : l.tailTicket = some f ∨ f = m.tail := by
  cases hstep with
  | drawTail =>
      cases hf
      exact .inr rfl
  | reuseSafe i call ticket hreads | reuseUnsafe i call ticket hreads =>
      cases hf
      exact .inl (tailTicket_of_reads hreads)
  | headBehind =>
      cases hf
      exact .inl rfl
  | _ => cases hf

omit [DecidableEq T] in
/-- A head ticket is kept, done with, or drawn. -/
theorem RingStep.headTicket_cases (hstep : RingStep n t m l m' l') {h : ℕ}
    (hh : l'.headTicket = some h) : l.headTicket = some h ∨ h = m.head := by
  cases hstep with
  | drawHead =>
      cases hh
      exact .inr rfl
  | found call ticket hreads | occupied call ticket attempts hreads
  | vacant call ticket attempts hreads | spin call ticket attempts hreads =>
      cases hh
      exact .inl (headTicket_of_reads hreads)
  | _ => cases hh

omit [DecidableEq T] in
/-- A ring begins in order. -/
theorem fresh_ringOk (hn : PowerOfTwo n) (h : Fresh n m) : RingOk n m := by
  obtain ⟨holder, rfl⟩ | rfl := h
  · refine ⟨?_, ?_, ?_, ?_, ?_⟩
    · intro j i hindex
      cases hindex
    · intro i ticket hstored
      cases hstored.2
    · intro ticket hcycle _
      have hnonneg := cycle_nonneg (n := n) ticket
      rw [← hcycle] at hnonneg
      simp [initializeEmpty] at hnonneg
    · intro ticket hdone
      cases hdone
    · intro ticket hdone
      cases hdone
  · have hcapacity : ∀ {j}, j < n → slot n j = j ∧ cycle n j = 0 := by
      intro j hj
      have hlt : j < ringSize n := by
        unfold ringSize
        omega
      exact ⟨by rw [slot_eq hn, Nat.mod_eq_of_lt hlt], by rw [cycle, Nat.div_eq_of_lt hlt]; rfl⟩
    have hentry : ∀ {j}, ((initializeFull n : RingMem T).entries j).index ≠ none → j < n := by
      intro j hsome
      by_contra hle
      simp [initializeFull, hle] at hsome
    refine ⟨?_, ?_, ?_, ?_, ?_⟩
    · intro j i hindex
      have hj := hentry (by rw [hindex]; simp)
      refine ⟨j, (hcapacity hj).1, ?_⟩
      rw [Stored, (hcapacity hj).1, (hcapacity hj).2]
      exact ⟨by simp [initializeFull, hj], hindex⟩
    · intro i ticket hstored
      have hj := hentry (by rw [hstored.2]; simp)
      have hcycle := hstored.1
      simp only [initializeFull, hj, if_true] at hcycle
      have heq : ticket = slot n ticket :=
        ticket_eq hn (hcapacity hj).1.symm (by rw [(hcapacity hj).2, hcycle])
      exact ⟨by rw [heq]; exact hj, rfl⟩
    · intro ticket hcycle hindex
      have hnonneg := cycle_nonneg (n := n) ticket
      by_cases hj : slot n ticket < n
      · simp [initializeFull, hj] at hindex
      · rw [← hcycle] at hnonneg
        simp [initializeFull, hj] at hnonneg
    · intro ticket hdone
      cases hdone
    · intro ticket hdone
      cases hdone

/-- **Run lemma.** -/
theorem ticketInv_reach (hn : PowerOfTwo n) :
    ∀ s, (system n (T := T)).Reach ok s → TicketInv n s := by
  refine interleave_invariant ?_ ?_
  · intro s hs
    have hout : ∀ t, (s.loc t).tailTicket = none ∧ (s.loc t).headTicket = none := by
      intro t
      rw [hs.2 t]
      exact ⟨rfl, rfl⟩
    refine ⟨fresh_ringOk hn hs.1, ?_, ?_, ?_⟩
    · intro t
      rw [hs.2 t]
      trivial
    · intro t u f hf
      rw [(hout t).1] at hf
      cases hf
    · intro t u h hh
      rw [(hout t).2] at hh
      cases hh
  · intro s t c m l _ hinv _ hstep
    have hshape := step_sound hstep
    obtain ⟨hring, hlocs, htails, hheads⟩ := hinv
    have htail : ∀ u ≠ t, ∀ f, l.tailTicket = some f → (s.loc u).tailTicket ≠ some f := by
      intro u hu f hf hother
      rcases hshape.tailTicket_cases hf with hbefore | rfl
      · exact hu (htails u t f hother hbefore)
      · exact lt_irrefl _ ((hlocs u).tail hother).1
    have hhead : ∀ u ≠ t, ∀ h, l.headTicket = some h → (s.loc u).headTicket ≠ some h := by
      intro u hu h hh hother
      rcases hshape.headTicket_cases hh with hbefore | rfl
      · exact hu (hheads u t h hother hbefore)
      · exact lt_irrefl _ ((hlocs u).head hother).1
    refine ⟨hshape.ringOk hn hring (hlocs t), ?_, ?_, ?_⟩
    · intro u
      by_cases hu : u = t
      · subst hu
        simp only [Function.update_self]
        exact hshape.locOk hring (hlocs u)
      · simp only [Function.update_of_ne hu]
        refine hshape.undisturbed hn (hlocs t) (hlocs u) ?_ ?_
        · intro f hf hother
          exact hu (htails u t f hother hf)
        · intro h hh hother
          exact hu (hheads u t h hother hh)
    · intro u v f hf hg
      by_cases hu : u = t <;> by_cases hv : v = t
      · rw [hu, hv]
      · subst hu
        simp only [Function.update_self, Function.update_of_ne hv] at hf hg
        exact absurd hg (htail v hv f hf)
      · subst hv
        simp only [Function.update_self, Function.update_of_ne hu] at hf hg
        exact absurd hf (htail u hu f hg)
      · simp only [Function.update_of_ne hu, Function.update_of_ne hv] at hf hg
        exact htails u v f hf hg
    · intro u v h hh hg
      by_cases hu : u = t <;> by_cases hv : v = t
      · rw [hu, hv]
      · subst hu
        simp only [Function.update_self, Function.update_of_ne hv] at hh hg
        exact absurd hg (hhead v hv h hh)
      · subst hv
        simp only [Function.update_self, Function.update_of_ne hu] at hh hg
        exact absurd hh (hhead u hu h hg)
      · simp only [Function.update_of_ne hu, Function.update_of_ne hv] at hh hg
        exact hheads u v h hh hg

end Run

end RingThreads

end EventDispatcher
