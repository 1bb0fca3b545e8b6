import EventDispatcher.Queue.ClosingProtocol

/-!
# What `closed` means to a consumer of `bounded_lock_free_queue`

`try_pop` looks into the published ring first and reads `producer_quiesced_`
afterwards.  If between the two a producer publishes and `close` stores
`producer_quiesced_`, the pop returns `closed` with an accepted event left behind.
In every run that avoids exactly this store, `closed` is final: the ring is empty
and stays empty, and all accepted events have been claimed.
-/

namespace EventDispatcher

open Transition OperationGate

namespace LockFreeQueue

variable {T E : Type}

/-- The step stores `producer_quiesced_` while events are published and some pop
stands between its look into the empty ring and its read of
`producer_quiesced_`. -/
def QuiescesBehindLook (s : Config T (LockFreeMem T E) (LockFreeLoc T E))
    (a : T × LockFreeChoice T E) : Prop :=
  (∃ discard, s.loc a.1 = .close discard .storeQuiesced) ∧ s.mem.store.published ≠ [] ∧
    ∃ u context, s.loc u = .pop context .loadQuiesced

/-- `close_and_discard` is never called, and no store of `producer_quiesced_` goes
behind a pop's look. -/
def LooksOk (s : Config T (LockFreeMem T E) (LockFreeLoc T E)) (a : T × LockFreeChoice T E) :
    Prop :=
  a.2 ≠ .call .closeAndDiscard ∧ ¬ QuiescesBehindLook s a

/-- The event a pop has claimed and not returned yet. -/
def carried (l : LockFreeLoc T E) : Option E := (hold l).popped

/-- The thread has come to the consumer gate of `close_and_discard`. -/
def discarding : CloseRole → Bool
  | .shutting .consumer | .closing .consumer | .sweeping | .swept => true
  | _ => false

/-- **Invariant of the runs without such a store**: a pop that is going to return
`closed`, or has returned it, comes after the last event. -/
structure LookInv (s : Config T (LockFreeMem T E) (LockFreeLoc T E)) : Prop where
  kept : ∀ t, callKind (s.loc t) ≠ some (.close true)
  undiscarded : ∀ t, discarding (role (s.loc t)) = false
  undropped : s.mem.store.dropped = []
  gate : isClosed (s.mem.sync.gate .consumer) = false
  looked : ∀ t, role (s.loc t) = .sawEmpty → s.mem.sync.producerQuiesced = true →
    s.mem.store.published = []
  leaving : ∀ t, role (s.loc t) = .leavingClosed ∨ role (s.loc t) = .closedOut →
    s.mem.sync.producerQuiesced = true ∧ s.mem.store.published = []
  returned : .pop .closed ∈ s.mem.store.returned →
    s.mem.sync.producerQuiesced = true ∧ s.mem.store.published = []

section Views

variable {m m' : LockFreeMem T E} {r r' : CloseRole}

/-- How a pop comes to have looked into an empty ring. -/
theorem CloseMove.to_sawEmpty (h : CloseMove m m' r r') (hr' : r' = .sawEmpty) :
    r = .sawEmpty ∨ (m.store.published = [] ∧ m' = m) := by
  cases h with
  | quiet => exact .inl hr'
  | enter g' => cases g' <;> cases hr'
  | shutDrained g' | loadDrained g' => cases g' <;> cases hr'
  | look hring hmem => exact .inr ⟨hring, hmem⟩
  | _ => cases hr'

/-- How a pop comes to its result `closed`. -/
theorem CloseMove.to_closed (h : CloseMove m m' r r')
    (hr' : r' = .leavingClosed ∨ r' = .closedOut) :
    (r = .leavingClosed ∨ r = .closedOut) ∨
      (r = .sawEmpty ∧ m.sync.producerQuiesced = true ∧ m' = m) ∨
      isClosed (m.sync.gate .consumer) = true := by
  cases h with
  | quiet => exact .inl hr'
  | enter g' => cases g' <;> rcases hr' with hr' | hr' <;> cases hr'
  | shutDrained g' | loadDrained g' => cases g' <;> rcases hr' with hr' | hr' <;> cases hr'
  | leaveClosed => exact .inl (.inl rfl)
  | refused hclosed => exact .inr (.inr hclosed)
  | readQuiesced hq hmem => exact .inr (.inl ⟨rfl, hq, hmem⟩)
  | _ => rcases hr' with hr' | hr' <;> cases hr'

/-- Only `close_and_discard` comes to the consumer gate. -/
theorem CloseMove.to_discarding (h : CloseMove m m' r r') (hr' : discarding r' = true) :
    discarding r = true ∨ r = .signalling true := by
  cases h with
  | quiet | discard => exact .inl hr'
  | enter g' => cases g' <;> cases hr'
  | shut g' => cases g' <;> simp_all [discarding]
  | shutDrained g' | loadDrained g' => cases g' <;> simp_all [discarding, CloseRole.afterGate]
  | goOnDiscarding => exact .inr rfl
  | sweptAll => exact .inl rfl
  | _ => cases hr'

/-- Only a discarding thread drops events. -/
theorem CloseMove.dropped (h : CloseMove m m' r r') (hr : discarding r = false) :
    m'.store.dropped = m.store.dropped := by
  cases h.effects.2 with
  | same _ _ hdropped | publish _ _ hdropped => exact hdropped
  | take _ _ hdropped =>
      refine hdropped.resolve_left ?_
      rintro rfl
      cases hr
  | record _ _ hstore =>
      rw [hstore]
      rfl

/-- Only a thread in `close_and_discard` closes the consumer gate. -/
theorem CloseMove.consumer_gate {n : ℕ} (h : CloseMove m m' r r')
    (hinv : GateInv (m.sync.gate .consumer) n) (hle : r.guards .consumer ≤ n)
    (hopen : isClosed (m.sync.gate .consumer) = false) (hr : discarding r = false) :
    isClosed (m'.sync.gate .consumer) = false := by
  rcases h.isClosed_cases .consumer hinv hle with hsame | ⟨rfl, _⟩
  · rw [hsame, hopen]
  · cases hr

end Views

theorem callKind_of_signalling {l : LockFreeLoc T E} (h : role l = .signalling true) :
    callKind l = some (.close true) := by
  cases l with
  | close discard phase =>
      cases phase with
      | bump _ discarded | notify _ discarded | unlock discarded => cases discarded <;> cases h <;> rfl
      | _ => cases h
  | push _ _ phase => cases phase <;> cases h
  | pop _ phase =>
      cases phase with
      | leave result | notifyGate result => cases result <;> cases h
      | _ => cases h
  | unregisterPop result => cases result <;> cases h
  | _ => cases h

/-- A store about to happen, and a pop between its look and its read, are at these
program points. -/
theorem loc_of_drained {l : LockFreeLoc T E} (h : role l = .drained) :
    ∃ discard, l = .close discard .storeQuiesced := by
  cases l with
  | close discard phase =>
      cases phase with
      | storeQuiesced => exact ⟨discard, rfl⟩
      | bump _ discarded | notify _ discarded | unlock discarded => cases discarded <;> cases h
      | _ => cases h
  | push _ _ phase => cases phase <;> cases h
  | pop _ phase =>
      cases phase with
      | leave result | notifyGate result => cases result <;> cases h
      | _ => cases h
  | unregisterPop result => cases result <;> cases h
  | _ => cases h

theorem loc_of_sawEmpty {l : LockFreeLoc T E} (h : role l = .sawEmpty) :
    ∃ context, l = .pop context .loadQuiesced := by
  cases l with
  | pop context phase =>
      cases phase with
      | loadQuiesced => exact ⟨context, rfl⟩
      | leave result | notifyGate result => cases result <;> cases h
      | _ => cases h
  | push _ _ phase => cases phase <;> cases h
  | close discard phase =>
      cases phase with
      | bump _ discarded | notify _ discarded | unlock discarded => cases discarded <;> cases h
      | _ => cases h
  | unregisterPop result => cases result <;> cases h
  | _ => cases h

theorem callKind_start {op : QueueOp E} (h : callKind (start op : LockFreeLoc T E) =
    some (.close true)) : op = .closeAndDiscard := by
  rcases op with ⟨kind, event, stop⟩ | ⟨wait, stop⟩ | _ | _
  · cases kind <;> cases h
  · cases wait <;> cases h
  · cases h
  · rfl

section Steps

variable [Fintype T] [DecidableEq T] {s : Config T (LockFreeMem T E) (LockFreeLoc T E)} {t : T}
  {c : LockFreeChoice T E} {m' : LockFreeMem T E} {l' : LockFreeLoc T E}

omit [Fintype T] in
theorem LookInv.step_kept (h : LookInv s) (hok : LooksOk s (t, c))
    (hstep : step t c s.mem (s.loc t) = some (m', l')) : callKind l' ≠ some (.close true) := by
  intro hl'
  rcases step_callKind hstep with heq | hnone | hout
  · exact h.kept t (heq ▸ hl')
  · rw [hnone] at hl'
    cases hl'
  · -- only a call leaves `outside`, and it was not this one
    cases hl : s.loc t <;> rw [hl] at hout <;> cases hout
    rw [hl] at hstep
    cases c with
    | call op =>
        cases hstep
        exact hok.1 (by rw [callKind_start hl'])
    | requestStop target =>
        have heq := Option.some.inj hstep
        unfold stepRequestStop at heq
        repeat' split at heq
        all_goals
          cases heq
          cases hl'
    | go => cases hstep

/-- **Step lemma**: the only store that could break the invariant is excluded. -/
theorem LookInv.step (h : LookInv s) (hinv : CloseInv s.mem (role ∘ s.loc))
    (hok : LooksOk s (t, c)) (hstep : step t c s.mem (s.loc t) = some (m', l')) :
    LookInv ⟨m', Function.update s.loc t l'⟩ := by
  have hmove := step_closeMove hstep
  have hlocs : ∀ (P : LockFreeLoc T E → Prop), P l' → (∀ u, u ≠ t → P (s.loc u)) →
      ∀ u, P (Function.update s.loc t l' u) := by
    intro P hself hothers u
    by_cases hu : u = t
    · rw [hu, Function.update_self]
      exact hself
    · rw [Function.update_of_ne hu]
      exact hothers u hu
  -- an empty ring behind a stored `producer_quiesced_` stays empty
  have hkeep : s.mem.sync.producerQuiesced = true ∧ s.mem.store.published = [] →
      m'.sync.producerQuiesced = true ∧ m'.store.published = [] :=
    fun hq => hinv.ring_stays_empty hmove hq.1 hq.2
  have hlooked : ∀ u, role (s.loc u) = .sawEmpty → m'.sync.producerQuiesced = true →
      m'.store.published = [] := by
    intro u hu hq
    rcases hmove.quiesced with heq | ⟨hdrained, _, hstore⟩
    · have hold := h.looked u hu (heq ▸ hq)
      exact (hkeep ⟨heq ▸ hq, hold⟩).2
    · rw [hstore]
      by_contra hne
      exact hok.2 ⟨loc_of_drained hdrained, hne, u, loc_of_sawEmpty hu⟩
  refine ⟨?_, ?_, ?_, ?_, ?_, ?_, ?_⟩
  · exact hlocs (fun l => callKind l ≠ some (.close true)) (h.step_kept hok hstep)
      fun u _ => h.kept u
  · refine hlocs (fun l => discarding (role l) = false) ?_ fun u _ => h.undiscarded u
    by_contra hl'
    rcases hmove.to_discarding (by simpa using hl') with hold | hsignal
    · rw [h.undiscarded t] at hold
      cases hold
    · exact h.kept t (callKind_of_signalling hsignal)
  · rw [hmove.dropped (h.undiscarded t), h.undropped]
  · exact hmove.consumer_gate (hinv.gates .consumer)
      (le_tally (CloseRole.guards .consumer) (role ∘ s.loc) t) h.gate (h.undiscarded t)
  · refine hlocs (fun l => role l = .sawEmpty → m'.sync.producerQuiesced = true →
      m'.store.published = []) ?_ fun u _ => hlooked u
    intro hl' hq
    rcases hmove.to_sawEmpty hl' with hold | ⟨hempty, rfl⟩
    · exact hlooked t hold hq
    · exact hempty
  · refine hlocs (fun l => role l = .leavingClosed ∨ role l = .closedOut →
      m'.sync.producerQuiesced = true ∧ m'.store.published = []) ?_
      fun u _ hu => hkeep (h.leaving u hu)
    intro hl'
    rcases hmove.to_closed hl' with hold | ⟨hsaw, hq, rfl⟩ | hgate
    · exact hkeep (h.leaving t hold)
    · exact ⟨hq, h.looked t hsaw hq⟩
    · rw [h.gate] at hgate
      cases hgate
  · intro hmem
    rcases hmove.returned hmem with hold | hplain | ⟨_, _, _, _, hout | hgate⟩ | ⟨⟨n, hn⟩, _⟩
    · exact hkeep (h.returned hold)
    · exact absurd rfl hplain.1
    · exact hkeep (h.leaving t (.inr hout))
    · rw [h.gate] at hgate
      cases hgate
    · cases hn

variable {capacity : ℕ}

/-- **Run lemma**: the invariant holds in every run without such a store. -/
theorem lookInv_reach : ∀ s, (system T E capacity).Reach LooksOk s → LookInv s := by
  refine interleave_invariant ?_ ?_
  · rintro s rfl
    exact
      { kept := fun _ h => by cases h
        undiscarded := fun _ => rfl
        undropped := rfl
        gate := isClosed_word false (Nat.zero_le _)
        looked := fun _ h => by cases h
        leaving := fun _ h => by rcases h with h | h <;> cases h
        returned := fun h => by cases h }
  · intro s t c m l hreach h hok hstep
    exact h.step (closeInv_reach s hreach) hok hstep

end Steps

/-- With the ring empty and no producer inside, nothing is accepted or claimed. -/
theorem SlotMove.nothing_claimed {st st' : SlotStore E} {h h' : Hold E}
    (hmove : SlotMove st h st' h') (hempty : st.published = [])
    (hslot : ∀ i e, h.slot ≠ .counted i e) :
    st'.accepted = st.accepted ∧ st'.claimed = st.claimed ∧
      ∀ e, h'.popped = some e → h.popped = some e := by
  cases hmove with
  | publish => exact absurd rfl (hslot _ _)
  | claim hring | discard hring => simp [hempty] at hring
  | result r => exact ⟨rfl, rfl, fun _ h => by cases h⟩
  | _ => exact ⟨rfl, rfl, fun _ h => h⟩

theorem producing_of_counted {l : LockFreeLoc T E} {i : ℕ} {e : E}
    (h : (hold l).slot = .counted i e) : role l = .producing := by
  cases l with
  | push _ _ phase =>
      cases phase with
      | publish => rfl
      | leave | notifyGate => simp [hold, holdPush, Hold.slot_ofResult] at h
      | _ => cases h
  | pop _ phase =>
      cases phase with
      | leave | notifyGate => simp [hold, holdPop, Hold.slot_ofResult] at h
      | _ => cases h
  | close _ phase =>
      cases phase with
      | bump _ discarded | notify _ discarded => cases discarded <;> cases h
      | unlock => simp [hold, holdClose, Hold.slot_ofResult] at h
      | _ => cases h
  | unregisterPush | unregisterPop => simp [hold, Hold.slot_ofResult] at h
  | _ => cases h

section Final

variable [Fintype T] [DecidableEq T] {capacity : ℕ}
  {s s' : Config T (LockFreeMem T E) (LockFreeLoc T E)}

/-- **`closed` is final.**  Take any run that never calls `close_and_discard` and
never stores `producer_quiesced_` behind a pop's look.  Once some pop has returned
`closed`, every event accepted so far or later has already been claimed, the ring
stays empty, and only pops that carry their event already can still return one. -/
theorem closed_is_final (hcap : Admitted capacity)
    (hs : (system T E capacity).Reach LooksOk s)
    (hclosed : .pop .closed ∈ s.mem.store.returned)
    (hlater : (system T E capacity).Steps LooksOk s s') :
    s'.mem.store.published = [] ∧
      (↑s'.mem.store.accepted : Multiset E) = ↑s.mem.store.claimed ∧
      pushCount s'.mem.store.returned ≤ s.mem.store.claimed.length ∧
      s'.mem.store.claimed = s.mem.store.claimed ∧
      ∀ t e, carried (s'.loc t) = some e → carried (s.loc t) = some e := by
  have hlook := (lookInv_reach s hs).returned hclosed
  have hstable : (s'.mem.sync.producerQuiesced = true ∧ s'.mem.store.published = []) ∧
      s'.mem.store.accepted = s.mem.store.accepted ∧
      s'.mem.store.claimed = s.mem.store.claimed ∧
      ∀ t e, carried (s'.loc t) = some e → carried (s.loc t) = some e := by
    refine System.Steps.stable
      (I := fun x => (x.mem.sync.producerQuiesced = true ∧ x.mem.store.published = []) ∧
        x.mem.store.accepted = s.mem.store.accepted ∧
        x.mem.store.claimed = s.mem.store.claimed ∧
        ∀ t e, carried (x.loc t) = some e → carried (s.loc t) = some e) ?_ hs hlater
      ⟨hlook, rfl, rfl, fun _ _ h => h⟩
    rintro x ⟨t, c⟩ x' hx ⟨⟨hq, hempty⟩, hacc, hcl, hcarry⟩ _ hstep
    obtain ⟨m, l, hprog, rfl⟩ := Config.step_eq_some hstep
    have hinv := closeInv_reach x hx
    have hslots := slotInv_reach hcap x hx
    obtain ⟨hacc', hcl', hpopped⟩ :=
      SlotMove.nothing_claimed (step_slotMove (hslots.held t) hprog) hempty
        fun i e hslot => hinv.no_producer hq t (producing_of_counted hslot)
    refine ⟨hinv.ring_stays_empty (step_closeMove hprog) hq hempty, by rw [hacc', hacc],
      by rw [hcl', hcl], ?_⟩
    intro u e hu
    by_cases hut : u = t
    · subst hut
      simp only [Function.update_self] at hu
      exact hcarry u e (hpopped e hu)
    · simp only [Function.update_of_ne hut] at hu
      exact hcarry u e hu
  obtain ⟨⟨_, hempty⟩, hacc, hcl, hcarry⟩ := hstable
  -- nothing was ever dropped: `close_and_discard` did not run
  have hslots := slotInv_reach hcap s' (hs.steps hlater)
  have hdropped := (lookInv_reach s' (hs.steps hlater)).undropped
  have hevents := hslots.events
  have hpushes := hslots.pushes
  rw [hdropped, SlotStore.contents, hempty] at hevents
  have haccepted : (↑s'.mem.store.accepted : Multiset E) = ↑s.mem.store.claimed := by
    simpa [hcl] using hevents
  refine ⟨hempty, haccepted, ?_, hcl, hcarry⟩
  have hcard := congrArg Multiset.card haccepted
  simp only [Multiset.coe_card] at hcard
  omega

end Final

/-- The condition of the theorem, checked in a state before a step. -/
def looksOk {n : ℕ} (s : Config (Fin n) (LockFreeMem (Fin n) ℕ) (LockFreeLoc (Fin n) ℕ))
    (a : Fin n × LockFreeChoice (Fin n) ℕ) : Bool :=
  decide (a.2 ≠ .call .closeAndDiscard) &&
    (decide (s.mem.store.published = []) || decide (∀ u, role (s.loc u) ≠ .sawEmpty))

theorem looksOk_sound {n : ℕ}
    {s : Config (Fin n) (LockFreeMem (Fin n) ℕ) (LockFreeLoc (Fin n) ℕ)}
    {a : Fin n × LockFreeChoice (Fin n) ℕ} (h : looksOk s a = true) : LooksOk s a := by
  simp only [looksOk, Bool.and_eq_true, Bool.or_eq_true, decide_eq_true_eq] at h
  refine ⟨h.1, ?_⟩
  rintro ⟨_, hne, u, context, hu⟩
  rcases h.2 with hempty | hnobody
  · exact hne hempty
  · exact hnobody u (by rw [hu]; rfl)

/-- One event goes through the queue, the queue is closed, a pop returns `closed`,
and the theorem applies. -/
theorem closed_after_last_event :
    ∃ s : Config (Fin 2) (LockFreeMem (Fin 2) ℕ) (LockFreeLoc (Fin 2) ℕ),
      s.mem.store.accepted = [7] ∧ .pop .closed ∈ s.mem.store.returned ∧
      s.mem.store.published = [] ∧ (↑s.mem.store.accepted : Multiset ℕ) = ↑s.mem.store.claimed := by
  obtain ⟨s, hs, hp⟩ := System.exists_reach_of_run (system (Fin 2) ℕ 2) LooksOk looksOk
    (s := started (Fin 2) ℕ 2) rfl
    (List.flatten [[(0, .call (.push .tryPush 7 false))], advance 0 10,
      [(1, .call (.pop false false))], advance 1 11, [(0, .call .close)], advance 0 8,
      [(1, .call (.pop false false))], advance 1 6])
    (fun s => s.mem.store.accepted == [7] && decide (.pop .closed ∈ s.mem.store.returned))
    (fun _ _ _ => looksOk_sound) (by decide +kernel)
  simp only [Bool.and_eq_true, beq_iff_eq, decide_eq_true_eq] at hp
  obtain ⟨hempty, haccepted, _⟩ :=
    closed_is_final admitted_two hs hp.2 .refl
  exact ⟨s, hp.1, hp.2, hempty, haccepted⟩

/-- **`closed` with an event left behind.**  A pop looks into the empty ring, an
event is pushed successfully, the queue is closed, and the pop goes on to return
`closed`. -/
theorem closed_loses_accepted_event :
    ∃ s : Config (Fin 3) (LockFreeMem (Fin 3) ℕ) (LockFreeLoc (Fin 3) ℕ),
      (system (Fin 3) ℕ 2).Reach (fun _ a => a.2 ≠ .call .closeAndDiscard) s ∧
      s.mem.store.returned = [.push (.returned .success), .closed, .pop .closed] ∧
      s.mem.store.accepted = [7] ∧ s.mem.store.claimed = [] ∧ s.mem.store.published = [0] := by
  obtain ⟨s, hs, hp⟩ := System.exists_reach_of_run (system (Fin 3) ℕ 2)
    (fun _ a => a.2 ≠ .call .closeAndDiscard)
    (fun _ a => decide (a.2 ≠ .call .closeAndDiscard)) (s := started (Fin 3) ℕ 2) rfl
    (List.flatten [[(1, .call (.pop false false))], advance 1 3,
      [(0, .call (.push .tryPush 7 false))], advance 0 10, [(2, .call .close)], advance 2 8,
      advance 1 3])
    (fun s => s.mem.store.returned == [.push (.returned .success), .closed, .pop .closed] &&
      (s.mem.store.accepted == [7] && (s.mem.store.claimed == [] && s.mem.store.published == [0])))
    (fun _ _ _ => of_decide_eq_true) (by decide +kernel)
  simp only [Bool.and_eq_true, beq_iff_eq] at hp
  exact ⟨s, hs, hp⟩

end LockFreeQueue

end EventDispatcher
