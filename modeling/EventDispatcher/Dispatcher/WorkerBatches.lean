import EventDispatcher.Dispatcher.SingleWorker

/-!
# What the workers have in their hands

Any number of workers, either queue policy.  A worker collects at most `worker_batch_size` events
before it broadcasts them, and never an empty batch (`Frame.Sized`).  What it broadcasts is in the
order of acceptance, though other workers may have taken the events between (`InTurn`).  Together
with the capacity of the queue this bounds the events that have been accepted and have not been
broadcast yet.
-/

namespace EventDispatcher

open Transition

variable {T E : Type}

/-- A batch that is being collected is smaller than `size`, one to broadcast is not empty. -/
def WorkerPhase.Sized (size : ℕ) : WorkerPhase E → Prop
  | .callPop batch => batch.length < size
  | .popping batch => batch.length < size
  | .acquire batch => batch ≠ [] ∧ batch.length ≤ size
  | _ => True

def Frame.Sized (size : ℕ) : Frame T E → Prop
  | .worker phase => phase.Sized size
  | _ => True

/-- The events that worker `w` has broadcast, in order. -/
def History.orderOf [DecidableEq T] (h : History T E) (w : T) : List (Publication E) :=
  (h.batches.filter fun b => b.1 = w).flatMap Prod.snd

section Sized

variable [DecidableEq T] {Q : QueuePolicy T (Publication E)} {setup : Setup T}
  {t : T} {m m' : DispatcherMem Q} {q q' : Q.Loc} {contexts contexts' : Contexts} {flag : Bool}
  {thread : Option T} {size : ℕ}

/-- An event is added while there is room, and a batch that is handed over is not empty. -/
theorem popping_sized {batch : List (Publication E)} {phase' : Option (WorkerPhase E)}
    (hpos : size ≠ 0) (hphase : batch.length < size)
    (h : Dispatcher.stepWorker size t m q contexts flag thread (.popping batch) =
      some (m', q', contexts', phase')) : ∀ p ∈ phase', p.Sized size := by
  intro p hp
  simp only [Dispatcher.stepWorker] at h
  split at h
  · split at h
    · next event hlast =>
        cases h
        split at hp
        · next hroom =>
            cases hp
            simpa [WorkerPhase.Sized] using hroom
        · cases hp
          refine ⟨by simp, ?_⟩
          simpa using hphase
    · cases h
      split at hp
      · cases hp
        exact Nat.pos_of_ne_zero hpos
      · next hsome =>
          cases hp
          exact ⟨hsome, le_of_lt hphase⟩
    · split at h
      · cases h
        cases hp
      · next hsome =>
          cases h
          cases hp
          exact ⟨hsome, le_of_lt hphase⟩
    · cases h
  · cases h

/-- **Step lemma** for the worker loop. -/
theorem stepWorker_sized {phase : WorkerPhase E} {phase' : Option (WorkerPhase E)}
    (hpos : size ≠ 0) (hphase : phase.Sized size)
    (h : Dispatcher.stepWorker size t m q contexts flag thread phase =
      some (m', q', contexts', phase')) : ∀ p ∈ phase', p.Sized size := by
  have hempty : (WorkerPhase.callPop [] : WorkerPhase E).Sized size := Nat.pos_of_ne_zero hpos
  intro p hp
  cases phase with
  | callPop batch =>
      obtain ⟨r, _, heq⟩ := Option.map_eq_some_iff.mp h
      cases heq
      cases hp
      exact hphase
  | popping batch =>
      exact popping_sized hpos hphase h p hp
  | acquire batch =>
      cases batch with
      | nil => exact absurd rfl hphase.1
      | cons event events =>
          cases h
          cases hp
          trivial
  | next snapshot subs event events =>
      cases subs with
      | cons i subs =>
          cases h
          cases hp
          trivial
      | nil =>
          cases events with
          | cons event' events =>
              cases h
              cases hp
              trivial
          | nil =>
              cases h
              cases hp
              exact hempty
  | invoke snapshot subs event events i phase =>
      cases phase with
      | done threw =>
          cases h
          cases hp
          cases threw <;> trivial
      | _ =>
          simp only [Dispatcher.stepWorker, Option.map_eq_some_iff] at h
          obtain ⟨r, _, heq⟩ := h
          cases heq
          cases hp
          trivial
  | handler => cases h

/-- **Step lemma** for the top frame. -/
theorem stepFrame_sized {f : Frame T E} {f' : Option (Frame T E)} (hf : f.Sized setup.batchSize)
    (h : Dispatcher.stepFrame setup t m q contexts flag thread f = some (m', q', contexts', f')) :
    ∀ g ∈ f', g.Sized setup.batchSize := by
  intro g hg
  cases f with
  | worker phase =>
      obtain ⟨⟨m₁, q₁, contexts₁, phase'⟩, hstep, heq⟩ := Option.map_eq_some_iff.mp h
      cases heq
      obtain ⟨p, hp, rfl⟩ := Option.map_eq_some_iff.mp hg
      exact stepWorker_sized setup.batch_ne hf hstep p hp
  -- a frame that is not a worker's is not followed by one
  | executor i phase =>
      obtain ⟨_, hexecutes⟩ := (Dispatcher.stepFrame_sound h).base_eq g hg
      cases g with
      | worker phase => cases hexecutes
      | _ => trivial
  | _ =>
      obtain ⟨hbase, _⟩ := (Dispatcher.stepFrame_sound h).base_eq g hg
      cases g with
      | worker phase => cases hbase
      | _ => trivial

end Sized

namespace Dispatcher

variable [DecidableEq T] {Q : QueuePolicy T (Publication E)} {M : QueueModel Q} {setup : Setup T}
  {t w : T} {m' : DispatcherMem Q} {l' : ThreadLoc Q} {c : DispatcherChoice Q}
  {s : Config T (DispatcherMem Q) (ThreadLoc Q)}

omit [DecidableEq T] in
theorem finishUser_sized {f f' : Frame T E} {threw : Bool} {size : ℕ}
    (h : f.finishUser threw = some f') : f'.Sized size := by
  unfold Frame.finishUser at h
  split at h <;> cases h <;> trivial

omit [DecidableEq T] in
theorem enter_sized {m m' : DispatcherMem Q} {call : Call T E} {f : Frame T E} {size : ℕ}
    (h : enter m call = some (m', f)) : f.Sized size := by
  have hbase := (enter_base h).1
  cases f with
  | worker phase => cases hbase
  | _ => trivial

section Run

variable {ok : Config T (DispatcherMem Q) (ThreadLoc Q) → T × DispatcherChoice Q → Prop}

/-- **Run lemma** for the frames. -/
theorem sized_reach : ∀ s, (system setup Q).Reach ok s →
    ∀ t, ∀ f ∈ (s.loc t).stack, f.Sized setup.batchSize := by
  refine interleave_invariant ?_ ?_
  · intro s hs t f hf
    rw [show s = _ from hs] at hf
    simp only [started] at hf
    split at hf
    · rw [List.mem_singleton.mp hf]
      exact Nat.pos_of_ne_zero setup.batch_ne
    · cases hf
  · intro s t c m l hs hinv _ hstep
    refine (Function.forall_update_iff s.loc fun _ l => ∀ f ∈ l.stack, f.Sized setup.batchSize).mpr
      ⟨?_, fun u _ => hinv u⟩
    have hbefore := hinv t
    intro f hf
    cases step_shape hstep with
    | constructed | queue => exact hbefore f hf
    | start hstack =>
        rw [List.mem_singleton.mp hf]
        trivial
    | call huser henter =>
        rcases List.mem_cons.mp hf with rfl | hf
        · exact enter_sized henter
        · exact hbefore f hf
    | finish hstack hdone =>
        rw [hstack] at hbefore
        rcases List.mem_cons.mp hf with rfl | hf
        · exact finishUser_sized hdone
        · exact hbefore f (List.mem_cons_of_mem _ hf)
    | frame hstack hmove =>
        rw [hstack] at hbefore
        rcases List.mem_append.mp hf with hf | hf
        · simp only [step, hstack, Option.map_eq_some_iff] at hstep
          obtain ⟨r, hr, heq⟩ := hstep
          have hnext := List.append_cancel_right (congrArg ThreadLoc.stack (Prod.mk.inj heq).2)
          rw [← hnext] at hf
          exact stepFrame_sized (hbefore _ List.mem_cons_self) hr f (by simpa using hf)
        · exact hbefore f (List.mem_cons_of_mem _ hf)

omit [DecidableEq T] in
/-- A worker holds no more than a batch. -/
theorem sized_hand_le {f : Frame T E} {size : ℕ} (h : f.Sized size)
    (v : OpView (Publication E)) : (f.hand v).length ≤ size := by
  have htransit : v.inTransit.length ≤ 1 := by
    unfold OpView.inTransit
    split <;> simp
  cases f with
  | worker phase =>
      cases phase with
      | callPop batch => exact le_of_lt h
      | popping batch =>
          have h : batch.length < size := h
          simp only [Frame.hand, List.length_append]
          omega
      | acquire batch => exact h.2
      | _ => exact Nat.zero_le _
  | _ => exact Nat.zero_le _

theorem hand_le (hs : (system setup Q).Reach ok s) (t : T) :
    (hand M (s.loc t)).length ≤ setup.batchSize := by
  unfold hand
  cases htop : (s.loc t).stack.head? with
  | none => exact Nat.zero_le _
  | some f => exact sized_hand_le (sized_reach s hs t f (List.mem_of_mem_head? htop)) _

/-- The batches only grow, by what the moving worker broadcasts. -/
theorem StepShape.batches_append {m : DispatcherMem Q} {l : ThreadLoc Q}
    (h : StepShape setup t m l c m' l') : m'.history.batches = m.history.batches ∨
      ∃ batch, l.stack.head? = some (.worker (.acquire batch)) ∧
        m'.history.batches = m.history.batches ++ [(t, batch)] := by
  cases h with
  | call huser henter => exact .inl (enter_history henter).2.1
  | frame hstack hstep =>
      cases hstep with
      | acquireNone | acquire => exact .inr ⟨_, by rw [hstack]; rfl, rfl⟩
      | publishCounted | publishNext | deactivate | deactivateAgain => exact .inl (by simp)
      | _ => exact .inl rfl
  | _ => exact .inl rfl

theorem StepShape.destroyed_append {m : DispatcherMem Q} {l : ThreadLoc Q}
    (h : StepShape setup t m l c m' l') :
    ∃ gone, m'.history.destroyed = m.history.destroyed ++ gone := by
  cases h with
  | call huser henter => exact ⟨[], by rw [(enter_records henter).2.2, List.append_nil]⟩
  | frame hstack hstep => exact ⟨[], by rw [hstep.destroyed_eq, List.append_nil]⟩
  | queue => exact ⟨_, rfl⟩
  | _ => exact ⟨[], (List.append_nil _).symm⟩

/-- **Run lemma** for the batches. -/
theorem batches_sized : ∀ s, (system setup Q).Reach ok s →
    ∀ b ∈ s.mem.history.batches, b.2 ≠ [] ∧ b.2.length ≤ setup.batchSize := by
  refine interleave_invariant ?_ ?_
  · intro s hs b hb
    rw [show s = _ from hs] at hb
    cases hb
  · intro s t c m l hs hinv _ hstep b hb
    rcases (step_shape hstep).batches_append with hsame | ⟨batch, hhead, hmore⟩
    · rw [hsame] at hb
      exact hinv b hb
    · rw [hmore] at hb
      rcases List.mem_append.mp hb with hb | hb
      · exact hinv b hb
      · rw [List.mem_singleton.mp hb]
        exact sized_reach s hs t _ (List.mem_of_mem_head? hhead)

/-- What has left the queue is what was accepted first, and every worker broadcasts and holds its
part of it in this order. -/
def InTurn (M : QueueModel Q) (s : Config T (DispatcherMem Q) (ThreadLoc Q)) : Prop :=
  ∃ gone, s.mem.history.accepted = gone ++ Q.contents s.mem.queue ∧
    ∀ w, (s.mem.history.orderOf w ++ hand M (s.loc w)).Sublist gone

/-- What the moving worker has broadcast and holds, after its step. -/
theorem orderOf_step {m : DispatcherMem Q} {l : ThreadLoc Q} {a a' : List (Publication E)}
    (h : StepShape setup t m l c m' l')
    (horder : m'.history.order ++ a' = m.history.order ++ a) :
    m'.history.orderOf t ++ a' = m.history.orderOf t ++ a ∧
      ∀ w ≠ t, m'.history.orderOf w = m.history.orderOf w := by
  unfold History.order History.orderOf at *
  rcases h.batches_append with hsame | ⟨batch, _, hmore⟩
  · rw [hsame] at horder ⊢
    rw [List.append_cancel_left horder]
    exact ⟨rfl, fun _ _ => rfl⟩
  · rw [hmore, List.flatMap_append, List.append_assoc] at horder
    have hbatch := List.append_cancel_left horder
    rw [← hbatch, hmore]
    refine ⟨by simp, ?_⟩
    intro w hw
    simp [hw.symm]

variable [Fintype T]

/-- **Run lemma** for the order. -/
theorem inTurn_reach (hempty : Q.contents Q.mem₀ = []) (hidle : M.view Q.loc₀ = .outside none) :
    ∀ s, (system setup Q).Reach ok s → InTurn M s := by
  refine interleave_invariant ?_ ?_
  · intro s hs
    refine ⟨[], ?_, ?_⟩
    · rw [show s = _ from hs]
      exact hempty.symm
    · intro w
      rw [show s = _ from hs]
      have hhand : hand M ((started setup Q).loc w) = [] := by
        by_cases hworker : w ∈ setup.workers
        · simp [started, hworker, hand, nextHand, Frame.hand]
        · simp [started, hworker, hand, nextHand]
      rw [hhand]
      exact List.Sublist.refl []
  · intro s t c m l hs hinv _ hstep
    have hshape := step_shape hstep
    obtain ⟨gone, haccepted, hworkers⟩ := hinv
    -- what leaves the queue now
    obtain ⟨hbroadcast, new, hnew, hcontents⟩ |
      ⟨event, hhead, hbroadcast, htaken, hnew, _⟩ := hshape.hand_cases hs.reachable
        ((ledger_reach hempty hidle s hs.reachable).coherent t)
    · obtain ⟨left, hdestroyed⟩ := hshape.destroyed_append
      rw [hdestroyed, List.append_assoc, List.append_assoc] at hcontents
      have hleft := List.append_cancel_left hcontents
      obtain ⟨hmine, hothers⟩ := orderOf_step hshape hbroadcast
      refine ⟨gone ++ left, ?_, ?_⟩
      · rw [hnew, haccepted, List.append_assoc, List.append_assoc, hleft]
      · intro w
        refine List.Sublist.trans ?_ (List.sublist_append_left gone left)
        by_cases hw : w = t
        · subst hw
          simp only [Function.update_self]
          rw [hmine]
          exact hworkers w
        · simp only [Function.update_of_ne hw]
          rw [hothers w hw]
          exact hworkers w
    · have hsame : m.history.order ++ [] = s.mem.history.order ++ [] := by rw [hbroadcast]
      obtain ⟨hmine, hothers⟩ := orderOf_step hshape hsame
      rw [List.append_nil, List.append_nil] at hmine
      refine ⟨gone ++ [event], ?_, ?_⟩
      · rw [hnew, haccepted, hhead, List.append_assoc]
        rfl
      · intro w
        by_cases hw : w = t
        · subst hw
          simp only [Function.update_self]
          rw [hmine, htaken, ← List.append_assoc]
          exact (hworkers w).append (List.Sublist.refl _)
        · simp only [Function.update_of_ne hw]
          rw [hothers w hw]
          exact (hworkers w).trans (List.sublist_append_left gone [event])

omit [DecidableEq T] [Fintype T] in
theorem coe_inTransit (v : OpView (Publication E)) :
    (v.inTransit : Multiset (Publication E)) = v.popped := by
  cases v with
  | pop taken => cases taken <;> rfl
  | outside last =>
      cases last with
      | none => rfl
      | some result =>
          cases result with
          | pop result => cases result <;> rfl
          | _ => rfl
  | _ => rfl

omit [Fintype T] in
/-- The events in a thread's hands, as the accounts have them. -/
theorem coe_hand (l : ThreadLoc Q) : (hand M l : Multiset (Publication E)) =
    (account M l).batch + (account M l).popped := by
  unfold hand account
  cases l.stack.head? with
  | none => rfl
  | some f =>
      cases f with
      | worker phase =>
          cases phase with
          | popping batch =>
              simp only [nextHand, nextAccount, Frame.hand, Frame.account, ← Multiset.coe_add,
                coe_inTransit]
          | _ => exact (add_zero _).symm
      | publish event kind stop rest phase => cases phase <;> exact (add_zero _).symm
      | shutdown policy phase => cases phase <;> exact (add_zero _).symm
      | _ => exact (add_zero _).symm

/-- Where the accepted events are. -/
theorem Ledger.accepted_eq (hledger : Ledger M s) :
    (s.mem.history.accepted : Multiset (Publication E)) =
      s.mem.history.order + s.mem.history.destroyed + Q.contents s.mem.queue +
        tally (fun l => (hand M l : Multiset (Publication E))) s.loc := by
  have hhands : tally (fun l => (hand M l : Multiset (Publication E))) s.loc =
      tally (fun l => (account M l).batch) s.loc +
        tally (fun l => (account M l).popped) s.loc := by
    unfold tally
    rw [← Finset.sum_add_distrib]
    exact Finset.sum_congr rfl fun t _ => coe_hand (s.loc t)
  have htransit := hledger.transit
  rw [Books.settled, hledger.batches] at htransit
  rw [hhands]
  refine htransit.trans ?_
  simp only [Books.broadcast, DispatcherMem.books_destroyed, DispatcherMem.books_contents,
    DispatcherMem.books_batches, History.order]
  abel

/-- Where the accepted events are, counted. -/
theorem Ledger.accepted_length (hledger : Ledger M s) : s.mem.history.accepted.length =
    s.mem.history.order.length + s.mem.history.destroyed.length + (Q.contents s.mem.queue).length +
      tally (fun l => (hand M l).length) s.loc := by
  have hcard := congrArg Multiset.card hledger.accepted_eq
  have hhands : Multiset.card (tally (fun l => (hand M l : Multiset (Publication E))) s.loc) =
      tally (fun l => (hand M l).length) s.loc := by
    unfold tally
    rw [Multiset.card_sum]
    rfl
  simp only [Multiset.card_add, Multiset.coe_card, hhands] at hcard
  exact hcard

/-- The workers hold a batch each at most. -/
theorem hands_le (hs : (system setup Q).Reach ok s) :
    tally (fun l => (hand M l).length) s.loc ≤ setup.workers.length * setup.batchSize :=
  calc tally (fun l => (hand M l).length) s.loc
      = ∑ t ∈ setup.workers.toFinset, (hand M (s.loc t)).length := by
        refine (Finset.sum_subset (Finset.subset_univ _) fun t _ ht => ?_).symm
        have hnone : hand M (s.loc t) = [] :=
          hand_of_not_worker hs fun hworker => absurd (List.mem_toFinset.mpr hworker) ht
        simp only [hnone, List.length_nil]
    _ ≤ setup.workers.toFinset.card • setup.batchSize :=
        Finset.sum_le_card_nsmul _ _ _ fun t _ => hand_le hs t
    _ ≤ setup.workers.length * setup.batchSize :=
        Nat.mul_le_mul_right _ (List.toFinset_card_le _)

omit [Fintype T] in
/-- A step that leaves the queue empty has put nothing into it. -/
theorem StepShape.accepted_of_empty (h : StepShape setup t s.mem (s.loc t) c m' l')
    (hempty : Q.contents m'.queue = []) : m'.history.accepted = s.mem.history.accepted := by
  cases h with
  | call huser henter => exact (enter_records henter).2.1
  | frame hstack hstep =>
      cases hstep with
      | publishCounted | publishNext | deactivate | deactivateAgain => simp
      | _ => rfl
  | @queue choice qm q' frame rest hstack hin hbusy hstep =>
      have hafter : Q.contents qm = [] := hempty
      have hnone : accepted Q frame s.mem.queue qm = [] := by
        unfold accepted
        split
        · rw [hafter, List.drop_nil]
        · rfl
      simp [hnone]
  | _ => rfl

end Run

end Dispatcher

section Capacity

variable (T E : Type) [DecidableEq T] [Fintype T]

def PolicyKind.capacity : PolicyKind → ℕ
  | .mutex capacity => capacity
  | .lockFree capacity => capacity

/-- A queue holds no more than its capacity. -/
theorem PolicyKind.contents_le (kind : PolicyKind) (hadmitted : kind.Admitted)
    {s : Config T (kind.policy T E).Mem (kind.policy T E).Loc}
    (hs : (queueSystem (kind.policy T E)).Reachable s) :
    ((kind.policy T E).contents s.mem).length ≤ kind.capacity := by
  cases kind with
  | mutex capacity =>
      obtain ⟨hrep, hslots⟩ := MutexQueueThreads.represents_reach
        (Nat.pos_of_ne_zero hadmitted) s (mutex_reach T E hs)
      have hle := (MutexQueueThreads.represents_contents hrep).size_le
      rw [hslots] at hle
      exact hle
  | lockFree capacity =>
      have hinv := LockFreeQueue.slotInv_reach hadmitted s hs
      have hlength := hinv.length_contents
      have htotal := hinv.total
      change s.mem.store.contents.length ≤ capacity
      omega

end Capacity

namespace Dispatcher

variable [DecidableEq T] [Fintype T] {kind : PolicyKind} {setup : Setup T}
  {s : Config T (DispatcherMem (kind.policy T (Publication E)))
    (ThreadLoc (kind.policy T (Publication E)))}

/-- **Batches.**  Whatever the number of workers, each broadcasts what it took out of the queue in
the order of acceptance, in batches that are not empty and not larger than `worker_batch_size`, and
no event is broadcast twice. -/
theorem worker_batches (hadmitted : kind.Admitted)
    (hs : (system setup (kind.policy T (Publication E))).Reachable s) :
    (∀ b ∈ s.mem.history.batches, b.2 ≠ [] ∧ b.2.length ≤ setup.batchSize) ∧
      (∀ w, (s.mem.history.orderOf w).Sublist s.mem.history.accepted) ∧
      (s.mem.history.order.map Publication.id).Nodup := by
  have hempty := kind.contents_init T (Publication E)
  have hidle := kind.view_init T (Publication E) hadmitted
  have hledger := ledger_reach hempty hidle s hs
  refine ⟨batches_sized s hs, ?_, ?_⟩
  · intro w
    obtain ⟨gone, haccepted, hturn⟩ := inTurn_reach hempty hidle s hs
    rw [haccepted]
    exact ((List.sublist_append_left _ _).trans (hturn w)).trans (List.sublist_append_left _ _)
  · have hle := Multiset.map_le_map (f := Publication.id) hledger.broadcast_le
    exact Multiset.coe_nodup.mp (Multiset.nodup_of_le hle
      (Multiset.coe_nodup.mpr hledger.accepted_nodup))

/-- Two workers with a full batch each, between which a subscriber has come in. -/
theorem worker_batches_of_two :
    ∃ h : History (Fin 4) ℕ, h.batches = [(0, [⟨0, 7⟩, ⟨1, 8⟩]), (1, [⟨2, 9⟩, ⟨3, 10⟩])] ∧
      h.due 0 = [] ∧ h.due 2 = [1] ∧ (∀ b ∈ h.batches, b.2 ≠ [] ∧ b.2.length ≤ 2) ∧
      (∀ w, (h.orderOf w).Sublist h.accepted) ∧ (h.order.map Publication.id).Nodup := by
  obtain ⟨s, hs, hp⟩ := System.exists_reach_of_run
    (system pairBatches (mutexPolicy (Fin 4) (Publication ℕ) 2)) (fun _ _ => True)
    (fun _ _ => true) (s := started pairBatches _) rfl
    (List.flatten [[(2, .constructed)], publishingOn 2 7, publishingOn 2 8, workingOn 0 1,
      workingOn 0 2, [(2, .call (.subscribe true {}))], advance 2 8, publishingOn 2 9,
      publishingOn 2 10, workingOn 1 1, workingOn 1 2])
    (fun s => decide (s.mem.history.batches =
      [(0, [⟨0, 7⟩, ⟨1, 8⟩]), (1, [⟨2, 9⟩, ⟨3, 10⟩])] ∧
      s.mem.history.due 0 = [] ∧ s.mem.history.due 2 = [1]))
    (fun _ _ _ _ => trivial) (by decide +kernel)
  obtain ⟨hbatches, hbefore, hafter⟩ := of_decide_eq_true hp
  exact ⟨s.mem.history, hbatches, hbefore, hafter,
    @worker_batches (Fin 4) ℕ _ _ (.mutex 2) pairBatches s (by decide : 2 ≠ 0) hs⟩

/-- **Backpressure.**  Of the events accepted so far, all but as many as the queue and one batch
for each worker hold have been broadcast or destroyed. -/
theorem backpressure (hadmitted : kind.Admitted)
    (hs : (system setup (kind.policy T (Publication E))).Reachable s) :
    s.mem.history.accepted.length ≤ s.mem.history.order.length + s.mem.history.destroyed.length +
      (kind.capacity + setup.workers.length * setup.batchSize) := by
  have hledger := ledger_reach (kind.contents_init T (Publication E))
    (kind.view_init T (Publication E) hadmitted) s hs
  have hlength := hledger.accepted_length
  have hcontents := kind.contents_le T (Publication E) hadmitted (queue_reach s hs)
  have hhands := hands_le (M := kind.model T (Publication E) hadmitted) hs
  change ((kind.policy T (Publication E)).contents s.mem.queue).length ≤ _ at hcontents
  omega

/-- The bound is attained: one event in the queue, and one in the hands of each of two workers. -/
theorem backpressure_attained :
    ∃ h : History (Fin 4) ℕ, h.accepted.length = 3 ∧ h.order = [] ∧ h.destroyed = [] ∧
      h.accepted.length ≤ h.order.length + h.destroyed.length +
        (PolicyKind.capacity (.mutex 1) + pairSetup.workers.length * pairSetup.batchSize) := by
  obtain ⟨s, hs, hp⟩ := System.exists_reach_of_run
    (system pairSetup (mutexPolicy (Fin 4) (Publication ℕ) 1)) (fun _ _ => True) (fun _ _ => true)
    (s := started pairSetup _) rfl
    (List.flatten [[(2, .constructed)], publishingOn 2 7, workingOn 0 1, publishingOn 2 8,
      workingOn 1 1, publishingOn 2 9])
    (fun s => decide (s.mem.history.accepted.length = 3 ∧ s.mem.history.order = [] ∧
      s.mem.history.destroyed = []))
    (fun _ _ _ _ => trivial) (by decide +kernel)
  obtain ⟨haccepted, horder, hdestroyed⟩ := of_decide_eq_true hp
  exact ⟨s.mem.history, haccepted, horder, hdestroyed,
    @backpressure (Fin 4) ℕ _ _ (.mutex 1) pairSetup s (by decide : 1 ≠ 0) hs⟩

/-- **Conservation.**  At any time every event that the queue has accepted is in one place: it has
been broadcast or destroyed, it is in the queue, or one worker has it in its hands. -/
theorem events_conserved (hadmitted : kind.Admitted)
    (hs : (system setup (kind.policy T (Publication E))).Reachable s) :
    (s.mem.history.accepted : Multiset (Publication E)) =
        s.mem.history.order + s.mem.history.destroyed +
          (kind.policy T (Publication E)).contents s.mem.queue +
          tally (fun l => (hand (kind.model T (Publication E) hadmitted) l :
            Multiset (Publication E))) s.loc ∧
      s.mem.history.accepted.Nodup := by
  have hledger := ledger_reach (kind.contents_init T (Publication E))
    (kind.view_init T (Publication E) hadmitted) s hs
  refine ⟨hledger.accepted_eq, ?_⟩
  exact List.Nodup.of_map _ hledger.accepted_nodup

/-- One event in the queue: the equation leaves the other one to the hands of the workers. -/
theorem events_conserved_in_hand :
    ∃ s : Config (Fin 4) (DispatcherMem (mutexPolicy (Fin 4) (Publication ℕ) 2))
        (ThreadLoc (mutexPolicy (Fin 4) (Publication ℕ) 2)),
      s.mem.history.order = [] ∧ s.mem.history.destroyed = [] ∧
        s.mem.queue.ring.contents = [⟨1, 8⟩] ∧ s.mem.history.accepted = [⟨0, 7⟩, ⟨1, 8⟩] ∧
        tally (fun l => (hand (mutexModel (Fin 4) (Publication ℕ) (by decide : 2 ≠ 0)) l :
          Multiset (Publication ℕ))) s.loc = {⟨0, 7⟩} ∧
        s.mem.history.accepted.Nodup := by
  obtain ⟨s, hs, hp⟩ := System.exists_reach_of_run
    (system pairSetup (mutexPolicy (Fin 4) (Publication ℕ) 2)) (fun _ _ => True) (fun _ _ => true)
    (s := started pairSetup _) rfl
    (List.flatten [[(2, .constructed)], publishingOn 2 7, publishingOn 2 8, workingOn 0 1])
    (fun s => decide (s.mem.history.order = [] ∧ s.mem.history.destroyed = [] ∧
      s.mem.queue.ring.contents = [⟨1, 8⟩] ∧ s.mem.history.accepted = [⟨0, 7⟩, ⟨1, 8⟩]))
    (fun _ _ _ _ => trivial) (by decide +kernel)
  obtain ⟨horder, hdestroyed, hcontents, haccepted⟩ := of_decide_eq_true hp
  obtain ⟨hequation, hnodup⟩ :=
    @events_conserved (Fin 4) ℕ _ _ (.mutex 2) pairSetup s (by decide : 2 ≠ 0) hs
  refine ⟨s, horder, hdestroyed, hcontents, haccepted, ?_, hnodup⟩
  rw [horder, hdestroyed, haccepted,
    show (PolicyKind.policy (Fin 4) (Publication ℕ) (.mutex 2)).contents s.mem.queue = [⟨1, 8⟩]
      from hcontents] at hequation
  have hfirst : (([⟨0, 7⟩, ⟨1, 8⟩] : List (Publication ℕ)) : Multiset (Publication ℕ)) =
      ↑([⟨1, 8⟩] : List (Publication ℕ)) + {⟨0, 7⟩} := by decide
  rw [hfirst, Multiset.coe_nil, add_zero, zero_add] at hequation
  exact (add_left_cancel hequation).symm

/-- **Publications.**  At any time every publication that has begun has returned once, or is under
way on one thread; the queue has accepted the events of those that returned `success` and of those
under way whose event is already inside, and no others; and the metrics show, modulo `2 ^ 64`, how
many returned `success` and how many another status. -/
theorem publications_accounted (hadmitted : kind.Admitted)
    (hs : (system setup (kind.policy T (Publication E))).Reachable s) :
    Multiset.range s.mem.history.begun = ↑(s.mem.history.returned.map Prod.fst) +
        tally (fun l => (account (kind.model T (Publication E) hadmitted) l).pending) s.loc ∧
      (s.mem.history.accepted.map Publication.id : Multiset ℕ) =
        successes s.mem.history.returned +
          tally (fun l => (account (kind.model T (Publication E) hadmitted) l).entered) s.loc ∧
      s.mem.metrics.accepted = UInt64.ofNat (successes s.mem.history.returned).card ∧
      s.mem.metrics.rejected = UInt64.ofNat (refusals s.mem.history.returned).card := by
  have hledger := ledger_reach (kind.contents_init T (Publication E))
    (kind.view_init T (Publication E) hadmitted) s hs
  exact ⟨hledger.pending, hledger.entered, hledger.accepted, hledger.rejected⟩

/-- One publication has succeeded, and the next one found the queue full. -/
theorem publications_accounted_when_full :
    ∃ s : Config (Fin 4) (DispatcherMem (mutexPolicy (Fin 4) (Publication ℕ) 1))
        (ThreadLoc (mutexPolicy (Fin 4) (Publication ℕ) 1)),
      s.mem.history.returned = [(0, .returned .success), (1, .returned .full)] ∧
        s.mem.metrics.accepted = UInt64.ofNat (successes s.mem.history.returned).card ∧
        s.mem.metrics.rejected = UInt64.ofNat (refusals s.mem.history.returned).card := by
  obtain ⟨s, hs, hp⟩ := System.exists_reach_of_run
    (system pairSetup (mutexPolicy (Fin 4) (Publication ℕ) 1)) (fun _ _ => True) (fun _ _ => true)
    (s := started pairSetup _) rfl
    (List.flatten [[(2, .constructed)], publishingOn 2 7,
      [(2, .call (.publish .tryPush 8 false))], advance 2 2, [(2, .queue (.lock false))],
      advance 2 2])
    (fun s => decide (s.mem.history.returned =
      [(0, .returned .success), (1, .returned .full)]))
    (fun _ _ _ _ => trivial) (by decide +kernel)
  obtain ⟨_, _, haccepted, hrejected⟩ :=
    @publications_accounted (Fin 4) ℕ _ _ (.mutex 1) pairSetup s (by decide : 1 ≠ 0) hs
  exact ⟨s, of_decide_eq_true hp, haccepted, hrejected⟩

section Exit

variable {capacity : ℕ}
  {s s' : Config T (DispatcherMem (mutexPolicy T (Publication E) capacity))
    (ThreadLoc (mutexPolicy T (Publication E) capacity))}

/-- **The exit of a worker is final.**  Over the mutex-based queue, once any worker has returned
from `run` the queue is closed and empty, in every later state, and nothing is accepted any more. -/
theorem worker_exit_final (hcap : capacity ≠ 0)
    (hs : (system setup (mutexPolicy T (Publication E) capacity)).Reachable s)
    {w : T} (hworker : w ∈ setup.workers) (hfinished : w ∈ s.mem.threads.finished)
    (hlater : (system setup (mutexPolicy T (Publication E) capacity)).Steps (fun _ _ => True) s s') :
    s'.mem.queue.ring.closed = true ∧ s'.mem.queue.ring.contents = [] ∧
      s'.mem.history.accepted = s.mem.history.accepted := by
  have hsealed : ∀ r, (system setup (mutexPolicy T (Publication E) capacity)).Reachable r →
      w ∈ r.mem.threads.finished → MutexQueueThreads.Sealed r.mem.queue :=
    fun r hr hgone => sealed_of_finished hcap r hr w hworker hgone
  have hkept := System.Steps.stable (I := fun r => w ∈ r.mem.threads.finished ∧
    r.mem.history.accepted = s.mem.history.accepted) ?_ hs hlater ⟨hfinished, rfl⟩
  · obtain ⟨hclosed, hempty⟩ := hsealed s' (hs.steps hlater) hkept.1
    exact ⟨hclosed, hempty, hkept.2⟩
  · intro r a r' hr hkept _ hstep
    obtain ⟨m, l, hprog, rfl⟩ := Config.step_eq_some hstep
    have hshape := step_shape hprog
    have hgone : w ∈ m.threads.finished := hshape.finished_subset hkept.1
    have hempty := (hsealed _ (.step hr trivial hstep) hgone).2
    exact ⟨hgone, (hshape.accepted_of_empty hempty).trans hkept.2⟩

end Exit

/-- The worker has returned, and a later publication is refused. -/
theorem worker_exit_final_refused :
    ∃ s s' : Config (Fin 3) (DispatcherMem (mutexPolicy (Fin 3) (Publication ℕ) 2))
        (ThreadLoc (mutexPolicy (Fin 3) (Publication ℕ) 2)),
      0 ∈ s.mem.threads.finished ∧ s'.mem.history.returned = [(0, .returned .closed)] ∧
        s'.mem.queue.ring.contents = [] ∧ s'.mem.history.accepted = s.mem.history.accepted := by
  obtain ⟨s, hs, hp⟩ := System.exists_reach_of_run
    (system smallSetup (mutexPolicy (Fin 3) (Publication ℕ) 2)) (fun _ _ => True) (fun _ _ => true)
    (s := started smallSetup _) rfl
    (List.flatten [[(1, .constructed)], drainingOn 1, leavingOn 0])
    -- `shutdown` ends and its thread publishes
    (fun s => decide (0 ∈ s.mem.threads.finished) &&
      ((system smallSetup _).run (fun _ _ => true) s (List.flatten [advance 1 6,
        [(1, .call (.publish .tryPush 7 false))], advance 1 2])).any
          fun s' : Config (Fin 3) (DispatcherMem (mutexPolicy (Fin 3) (Publication ℕ) 2)) _ =>
            decide (s'.mem.history.returned = [(0, .returned .closed)]))
    (fun _ _ _ _ => trivial) (by decide +kernel)
  obtain ⟨hgone, hrun⟩ := Bool.and_eq_true_iff.mp hp
  obtain ⟨s', hlater, hreturned⟩ := (Option.any_eq_true _ _).mp hrun
  have hfinished : 0 ∈ s.mem.threads.finished := of_decide_eq_true hgone
  obtain ⟨_, hempty, haccepted⟩ := worker_exit_final (by decide : (2 : ℕ) ≠ 0) hs
    (List.mem_singleton.mpr rfl) hfinished
    (System.run_steps (fun _ _ _ => trivial) hlater)
  exact ⟨s, s', hfinished, of_decide_eq_true hreturned, hempty, haccepted⟩

end Dispatcher

end EventDispatcher
