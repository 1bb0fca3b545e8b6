import EventDispatcher.Dispatcher.SingleWorker

/-!
# The order of the invocations

While the membership is fixed, a single worker calls every member with the first event, then
every member with the second, and so on: how the events fall into batches makes no difference.
`plan` is what is left of the broadcast under way, as pairs of a subscriber and an event.
-/

namespace EventDispatcher

open Transition SubscriberState

variable {T E : Type}

/-- Every member with every event, one event after the other. -/
def rota (members : List ℕ) (events : List (Publication E)) : List (ℕ × Publication E) :=
  events.flatMap fun event => members.map fun i => (i, event)

/-- What is left of a broadcast. -/
def Frame.plan : Frame T E → List (ℕ × Publication E)
  | .worker (.next snapshot subs event events) =>
      subs.map (fun i => (i, event)) ++ rota snapshot events
  | .worker (.handler snapshot subs event events) =>
      subs.map (fun i => (i, event)) ++ rota snapshot events
  | .worker (.invoke snapshot subs event events j phase) =>
      (if phase.undecided = true then [(j, event)] else []) ++
        (subs.map (fun i => (i, event)) ++ rota snapshot events)
  | _ => []

/-- What the frame still has to deliver after its step. -/
def nextPlan : Option (Frame T E) → List (ℕ × Publication E)
  | some f => f.plan
  | none => []

/-- What is left of the broadcast of a thread. -/
def plan {Q : QueuePolicy T (Publication E)} (l : ThreadLoc Q) : List (ℕ × Publication E) :=
  l.stack.flatMap Frame.plan

section Rota

variable {members : List ℕ} {events : List (Publication E)}

theorem rota_append (more : List (Publication E)) :
    rota members (events ++ more) = rota members events ++ rota members more :=
  List.flatMap_append

theorem mem_rota {p : ℕ × Publication E} (h : p ∈ rota members events) :
    p.1 ∈ members ∧ p.2 ∈ events := by
  obtain ⟨event, hevent, hp⟩ := List.mem_flatMap.mp h
  obtain ⟨i, hi, rfl⟩ := List.mem_map.mp hp
  exact ⟨hi, hevent⟩

end Rota

section Frames

variable [DecidableEq T] {Q : QueuePolicy T (Publication E)} {setup : Setup T} {flag : Bool} {t : T}
  {m m' : DispatcherMem Q} {q q' : Q.Loc} {contexts contexts' : Contexts} {f : Frame T E}
  {f' : Option (Frame T E)} {rest : List (ℕ × Publication E)}

/-- What a step does to the broadcast of the thread that makes it. -/
inductive Turn (t : T) (m m' : DispatcherMem Q) (p p' : List (ℕ × Publication E)) : Prop
  | keep (hbatches : m'.history.batches = m.history.batches)
      (hinvocations : m'.history.invocations = m.history.invocations) (hplan : p' = p)
  | acquire (batch : List (Publication E)) (hrecorded : m' = m.recordBatch t batch)
      (hbefore : p = []) (hafter : p' = rota m.registry.current batch)
  | call (j : ℕ) (event : Publication E) (hbatches : m'.history.batches = m.history.batches)
      (hcalled : m'.history.invocations = m.history.invocations ++ [(j, event)])
      (hbefore : p = (j, event) :: p')
  | pass (j : ℕ) (event : Publication E)
      (hnot : (m.subs j).active = false ∨ (m.subs j).options.delivery = .isolated)
      (hbefore : p = (j, event) :: p')
  | mailbox (j : ℕ) (s : SubscriberState T (Publication E)) (hrecorded : m' = m.invokeSub j s)
      (hisolated : (m.subs j).options.delivery = .isolated) (hplan : p' = p)

omit [DecidableEq T] in
theorem plan_of_not_base (h : f.base = false) : f.plan = [] := by
  cases f with
  | worker phase => cases h
  | _ => rfl

/-- **Step lemma for a frame.** -/
theorem FrameStep.turn (h : FrameStep setup flag t m q contexts f m' q' contexts' f')
    (hok : ∀ i, PartOk (m.subs i) (f.part i))
    (hexecutor : ∀ i phase, f = .executor i phase → (m.subs i).options.delivery = .isolated)
    (hdirect : ∀ j event phase, f ≠ .invoke j event phase) (hrest : f.base = true → rest = []) :
    Turn t m m' (f.plan ++ rest) (nextPlan f' ++ rest) := by
  cases h with
  | acquireNone =>
      rw [hrest rfl]
      exact .acquire [] rfl rfl rfl
  | acquire event events =>
      rw [hrest rfl]
      exact .acquire (event :: events) rfl rfl (by simp [nextPlan, Frame.plan, rota])
  | nextSub snapshot subs event events j =>
      exact .keep rfl rfl (by simp [nextPlan, Frame.plan, InvokePhase.undecided])
  | nextEvent snapshot last event events =>
      exact .keep rfl rfl (by simp [nextPlan, Frame.plan, rota])
  | broadcastDone snapshot last => exact .keep rfl rfl (by simp [nextPlan, Frame.plan, rota])
  | invoked snapshot subs event events j | invokeThrew snapshot subs event events j =>
      exact .keep rfl rfl (by simp [nextPlan, Frame.plan, InvokePhase.undecided])
  | @invoke j event _ hframe phase phase' s _ hstep =>
      cases hframe with
      | direct => exact absurd rfl (hdirect _ _ _)
      | worker snapshot subs events =>
          have hj := hok j
          simp only [Frame.part, if_true] at hj
          have hoptions := hstep.options_eq
          obtain ⟨hsame, hphase⟩ | ⟨hphase, hphase', htaken⟩ | ⟨hphase, hphase', hsame, _, hlost⟩ :=
            hstep.got_cases hj
          · by_cases hisolated : (m.subs j).options.delivery = .isolated
            · exact .mailbox j s rfl hisolated (by simp [nextPlan, Frame.plan, hphase])
            · refine .keep rfl ?_ (by simp [nextPlan, Frame.plan, hphase])
              unfold got at hsame
              rw [hoptions, if_neg hisolated, if_neg hisolated] at hsame
              simp [hsame]
          · by_cases hisolated : (m.subs j).options.delivery = .isolated
            · exact .pass j event (.inr hisolated) (by simp [nextPlan, Frame.plan, hphase, hphase'])
            · refine .call j event rfl ?_ (by simp [nextPlan, Frame.plan, hphase, hphase'])
              unfold got at htaken
              rw [hoptions, if_neg hisolated, if_neg hisolated] at htaken
              simp [htaken]
          · refine .pass j event ?_ (by simp [nextPlan, Frame.plan, hphase, hphase'])
            by_cases hisolated : (m.subs j).options.delivery = .isolated
            · exact .inr hisolated
            · exact .inl (hlost hisolated)
  | executor hstep => exact .mailbox _ _ rfl (hexecutor _ _ rfl) rfl
  | stop hframe hstep => cases hframe <;> exact .keep rfl rfl rfl
  | invokeReturned j event threw => exact absurd rfl (hdirect _ _ _)
  | deactivate | deactivateAgain | publishCounted | publishNext =>
      exact .keep (by simp) (by simp) rfl
  | _ => exact .keep rfl rfl rfl

end Frames

namespace Dispatcher

theorem finishUser_plan {f f' : Frame T E} {threw : Bool} (h : f.finishUser threw = some f') :
    f'.plan = f.plan := by
  unfold Frame.finishUser at h
  split at h <;> cases h <;> first | rfl | skip
  cases threw <;> rfl

variable [DecidableEq T] {Q : QueuePolicy T (Publication E)} {setup : Setup T} {t w : T}
  {m m' : DispatcherMem Q} {l l' : ThreadLoc Q} {c : DispatcherChoice Q}

/-- **Step lemma**, for a thread. -/
theorem StepShape.turn (h : StepShape setup t m l c m' l') (hbottom : Bottomed l.stack)
    (hok : ∀ i, ∀ p ∈ parts i l.stack, PartOk (m.subs i) p)
    (hexecutor : ∀ i phase, .executor i phase ∈ l.stack → (m.subs i).options.delivery = .isolated)
    (hdirect : ∀ j event phase, .invoke j event phase ∉ l.stack) :
    Turn t m m' (plan l) (plan l') := by
  unfold plan
  cases h with
  | constructed hstack | queue hstack => exact .keep rfl rfl rfl
  | start hstack hentry =>
      rw [hstack]
      exact .keep rfl rfl rfl
  | call huser henter =>
      obtain ⟨_, hbatches, hinvocations, _⟩ := enter_history henter
      refine .keep hbatches hinvocations ?_
      rw [List.flatMap_cons, plan_of_not_base (enter_base henter).1]
      rfl
  | finish hstack hfinish =>
      refine .keep rfl rfl ?_
      rw [hstack, List.flatMap_cons, List.flatMap_cons, finishUser_plan hfinish]
  | @frame _ _ _ _ _ f f' rest hstack hstep =>
      have hmem : f ∈ l.stack := by
        rw [hstack]
        exact List.mem_cons_self
      have hnext : (f'.toList ++ rest).flatMap Frame.plan =
          nextPlan f' ++ rest.flatMap Frame.plan := by
        cases f' <;> rfl
      rw [hstack] at hbottom
      rw [hstack, List.flatMap_cons]
      simp only [hnext]
      apply hstep.turn
      · exact fun i => hok i _ (List.mem_map_of_mem hmem)
      · intro i phase heq
        exact hexecutor i phase (heq ▸ hmem)
      · intro j event phase heq
        exact hdirect j event phase (heq ▸ hmem)
      · intro hbase
        rw [hbottom.1 hbase]
        rfl

section Run

variable [Fintype T] {M : QueueModel Q}
  {ok : Config T (DispatcherMem Q) (ThreadLoc Q) → T × DispatcherChoice Q → Prop}
  {s : Config T (DispatcherMem Q) (ThreadLoc Q)} {members : List ℕ}

/-- The snapshot holds `members`, who are all active and called by the worker itself. -/
structure Members (members : List ℕ) (m : DispatcherMem Q) : Prop where
  current : m.registry.current = members
  active : ∀ i ∈ members, (m.subs i).active = true
  direct : ∀ i ∈ members, (m.subs i).options.delivery ≠ .isolated

/-- From the first accepted event on, the membership is fixed to `members`. -/
def FixedMembers (members : List ℕ) (s : Config T (DispatcherMem Q) (ThreadLoc Q))
    (_ : T × DispatcherChoice Q) : Prop :=
  s.mem.history.accepted ≠ [] → Members members s.mem

/-- Only a worker that has not finished has a broadcast under way. -/
theorem plan_of_not_worker (hs : (system setup Q).Reach ok s)
    (hnot : t ∈ setup.workers → t ∈ s.mem.threads.finished) : plan (s.loc t) = [] := by
  refine List.flatMap_eq_nil_iff.mpr fun f hf => ?_
  cases f with
  | worker phase =>
      obtain ⟨hworker, hunfinished⟩ := (threadInv_reach s hs).placed t _ hf
      exact absurd (hnot hworker) hunfinished
  | _ => rfl

/-- Every step of a run is a turn. -/
theorem turn_of_reach (hdirect : ∀ s a, ok s a → NoDirectCalls s a)
    (hs : (system setup Q).Reach ok s)
    (hstep : step setup t c s.mem (s.loc t) = some (m', l')) :
    Turn t s.mem m' (plan (s.loc t)) (plan l') := by
  have hthreads := threadInv_reach s hs
  refine (step_shape hstep).turn (hthreads.bottomed t) (fun i => partOk_reach s hs i t) ?_
    (noDirectCalls_reach hdirect s hs t)
  intro i phase hmem
  refine (executorInv_reach s hs).isolated i ?_
  rw [(hthreads.placed t _ hmem).1]
  simp

/-- What is in nobody's snapshot is handed nothing. -/
theorem handed_of_not_member (hdirect : ∀ s a, ok s a → NoDirectCalls s a)
    (hfixed : ∀ s a, ok s a → FixedMembers members s a) (hempty : Q.contents Q.mem₀ = [])
    (hidle : M.view Q.loc₀ = .outside none) :
    ∀ s, (system setup Q).Reach ok s → ∀ i ∉ members, handed i s = 0 := by
  refine interleave_invariant ?_ ?_
  · intro s hs i _
    have hle := handed_le hdirect s (.init hs) i
    rw [show s = _ from hs] at hle ⊢
    exact Multiset.le_zero.mp hle
  · intro s t c m l hs hinv hok hstep i hi
    have hbefore := hinv i hi
    obtain ⟨hhanded, _⟩ | ⟨batch, hrecorded, hbroadcast, hhanded⟩ | ⟨event, hhanded, _⟩ :=
      handed_cases (handover_of_reach hdirect hs hstep i)
    · rw [hhanded, hbefore]
    · rw [hhanded, hbefore, zero_add]
      by_cases hnone : s.mem.history.accepted = []
      · -- nothing has been accepted, so there is nothing to broadcast
        have hs' := reach_of_step hs hok hstep
        have hle := (ledger_reach hempty hidle _ hs'.reachable).broadcast_le
        have haccepted : m.books.accepted = [] := by
          rw [hrecorded]
          exact hnone
        simp only [haccepted, hbroadcast, Multiset.coe_nil, Multiset.le_zero] at hle
        have hbatch : batch = [] := by
          have hzero := (add_eq_zero.mp hle).2
          simpa using hzero
        rw [hbatch]
        rfl
      · rw [(hfixed s _ hok hnone).current, List.count_eq_zero.mpr hi,
          replicate_zero_or_one (Nat.zero_le 1)]
        rfl
    · rw [hbefore] at hhanded
      exact absurd hhanded.symm (Multiset.cons_ne_zero)

omit [Fintype T] in
theorem order_of_none (h : Ordered M w s) (hnone : s.mem.history.accepted = []) :
    s.mem.history.order = [] := by
  rw [Ordered, hnone] at h
  have hnil := h.symm
  rw [List.append_assoc] at hnil
  exact (List.append_eq_nil_iff.mp hnil).1

/-- The invocations and what is left of the broadcast of worker `w` are the rota of what has been
broadcast. -/
def Rostered (members : List ℕ) (w : T) (s : Config T (DispatcherMem Q) (ThreadLoc Q)) : Prop :=
  rota members s.mem.history.order = s.mem.history.invocations ++ plan (s.loc w)

/-- **Run lemma.** -/
theorem rostered_reach (hone : setup.workers = [w])
    (hdirect : ∀ s a, ok s a → NoDirectCalls s a)
    (hfixed : ∀ s a, ok s a → FixedMembers members s a) (hempty : Q.contents Q.mem₀ = [])
    (hidle : M.view Q.loc₀ = .outside none)
    (hordered : ∀ s, (system setup Q).Reach ok s → Ordered M w s) :
    ∀ s, (system setup Q).Reach ok s → Rostered members w s := by
  refine interleave_invariant ?_ ?_
  · intro s hs
    have hplan : plan (s.loc w) = [] := by
      rw [show s = _ from hs]
      simp [started, hone, plan, Frame.plan]
    rw [Rostered, hplan, show s = _ from hs]
    rfl
  · intro s t c m l hs hinv hok hstep
    have hs' := reach_of_step hs hok hstep
    have hsome : ∀ {j : ℕ} {event : Publication E}, (j, event) ∈ plan (s.loc w) →
        Members members s.mem ∧ j ∈ members := by
      intro j event hmem
      have hthere : (j, event) ∈ rota members s.mem.history.order := by
        rw [hinv]
        exact List.mem_append_right _ hmem
      obtain ⟨hj, hevent⟩ := mem_rota hthere
      refine ⟨hfixed s _ hok fun hnone => ?_, hj⟩
      rw [order_of_none (hordered s hs) hnone] at hevent
      cases hevent
    have hother : ∀ {p : ℕ × Publication E} {rest}, plan (s.loc t) = p :: rest → t = w := by
      intro p rest hbefore
      by_contra hne
      rw [plan_of_not_worker hs fun hw => absurd (by simpa [hone] using hw) hne] at hbefore
      cases hbefore
    have hkept : plan l = plan (s.loc t) → plan (Function.update s.loc t l w) = plan (s.loc w) := by
      intro hplan
      by_cases htw : t = w
      · subst htw
        rw [Function.update_self, hplan]
      · rw [Function.update_of_ne (Ne.symm htw)]
    unfold Rostered at hinv ⊢
    unfold History.order at hinv ⊢
    simp only
    cases turn_of_reach hdirect hs hstep with
    | keep hbatches hinvocations hplan => rw [hbatches, hinvocations, hkept hplan, hinv]
    | acquire batch hrecorded hbefore hafter =>
        obtain rfl : t = w := by
          by_contra hne
          have hsame := (step_shape hstep).batches_of_not_worker
            ((threadInv_reach s hs).placed t) fun hw => absurd (by simpa [hone] using hw) hne
          rw [hrecorded] at hsame
          simp at hsame
        have hnow : rota s.mem.registry.current batch = rota members batch := by
          by_cases hnone : s.mem.history.accepted = []
          · have hall := order_of_none (hordered _ hs') (by rw [hrecorded]; exact hnone)
            simp only [History.order, hrecorded, DispatcherMem.recordBatch_history_batches,
              List.flatMap_append, List.append_eq_nil_iff] at hall
            have hbatch : batch = [] := by simpa using hall.2
            rw [hbatch]
            rfl
          · rw [(hfixed s _ hok hnone).current]
        rw [Function.update_self, hafter, hnow, hrecorded]
        rw [hbefore, List.append_nil] at hinv
        simp [rota_append, hinv]
    | call j event hbatches hcalled hbefore =>
        obtain rfl := hother hbefore
        rw [hbatches, hcalled, hinv, hbefore, Function.update_self, List.append_assoc]
        rfl
    | pass j event hnot hbefore =>
        obtain rfl := hother hbefore
        obtain ⟨hmembers, hj⟩ := hsome (by rw [hbefore]; exact List.mem_cons_self)
        rcases hnot with hinactive | hisolated
        · rw [hmembers.active j hj] at hinactive
          cases hinactive
        · exact absurd hisolated (hmembers.direct j hj)
    | mailbox j sub hrecorded hisolated hplan =>
        -- nothing has ever been handed to an isolated subscriber
        have hnothing : (m.subs j).received = [] := by
          by_cases hnone : s.mem.history.accepted = []
          · have hle := (received_le hdirect hs' j).trans
              (ledger_reach hempty hidle _ hs'.reachable).broadcast_le
            have haccepted : m.books.accepted = [] := by
              rw [hrecorded]
              exact hnone
            simp only [haccepted] at hle
            simpa using hle
          · have hj : j ∉ members := fun hj => (hfixed s _ hok hnone).direct j hj hisolated
            have hle := received_le_handed hs' j
            rw [handed_of_not_member hdirect hfixed hempty hidle _ hs' j hj] at hle
            simpa using hle
        rw [hrecorded] at hnothing
        simp only [DispatcherMem.invokeSub_subs, Function.update_self] at hnothing
        rw [hkept hplan, hrecorded]
        simp [hnothing, hinv]

end Run

section Mutex

variable [Fintype T] {capacity : ℕ}

/-- When a `shutdown(drain)` has returned, everything that was accepted has been broadcast. -/
theorem order_of_drain (hcap : capacity ≠ 0) (hone : setup.workers = [w])
    {ok : Config T (DispatcherMem (mutexPolicy T (Publication E) capacity)) (ThreadLoc _) →
      T × DispatcherChoice (mutexPolicy T (Publication E) capacity) → Prop}
    (hdrain : ∀ s a, ok s a → DrainCalls setup s a)
    {s : Config T (DispatcherMem (mutexPolicy T (Publication E) capacity)) (ThreadLoc _)}
    (hs : (system setup _).Reach ok s) (hreturned : s.mem.shutdownReturned = true)
    (hordered : Ordered (mutexModel T (Publication E) hcap) w s) :
    s.mem.history.order = s.mem.history.accepted := by
  have hshutdown := shutdownInv_reach s hs
  have hw : w ∈ setup.workers := by simp [hone]
  have hfinished := hshutdown.stopped (hshutdown.returned hreturned) w hw
  have hhand := hand_of_not_worker (M := mutexModel T (Publication E) hcap) hs fun _ => hfinished
  have hcontents : (mutexPolicy T (Publication E) capacity).contents s.mem.queue = [] :=
    (sealed_of_finished hcap s hs w hw hfinished).2
  rw [Ordered, hhand, destroyed_of_drain hdrain s hs, hcontents] at hordered
  simpa using hordered.symm

/-- **One worker calls in the order of acceptance.**  Over the mutex-based queue with a single
worker and whatever batch size, every subscriber that the worker calls itself gets a contiguous
segment of the events in the order in which the queue accepted them.  It begins no later than the
first event whose publication began when its handle was out; after a `shutdown(drain)` it goes to
the end unless the subscriber was unsubscribed.  While the membership is fixed the invocations are
the rota of the accepted events, on which the batch size has no bearing. -/
theorem single_worker_order (hcap : capacity ≠ 0) (setup : Setup T) {w : T}
    (hone : setup.workers = [w])
    {s : Config T (DispatcherMem (mutexPolicy T (Publication E) capacity)) (ThreadLoc _)}
    (hs : (system setup _).Reach NoDirectCalls s) :
    (∀ i, (s.mem.subs i).options.delivery ≠ .isolated → ∃ a,
      (∀ j event, s.mem.history.accepted[j]? = some event → i ∈ s.mem.history.due event.id →
        a ≤ j) ∧
      s.mem.history.invoked i <+: s.mem.history.accepted.drop a ∧
      ((system setup _).Reach (fun s a => DrainCalls setup s a ∧ NoDirectCalls s a) s →
        s.mem.shutdownReturned = true → i ∉ s.mem.history.unsubscribed →
        s.mem.history.invoked i = s.mem.history.accepted.drop a)) ∧
    ∀ members, (system setup _).Reach
        (fun s a => NoDirectCalls s a ∧ FixedMembers members s a) s →
      s.mem.history.invocations <+: rota members s.mem.history.accepted ∧
      ((system setup _).Reach (fun s a => DrainCalls setup s a ∧ NoDirectCalls s a) s →
        s.mem.shutdownReturned = true →
        s.mem.history.invocations = rota members s.mem.history.accepted) := by
  have hordered : ∀ {ok : Config T (DispatcherMem (mutexPolicy T (Publication E) capacity))
        (ThreadLoc _) → T × DispatcherChoice (mutexPolicy T (Publication E) capacity) → Prop} s,
      (system setup _).Reach ok s → Ordered (mutexModel T (Publication E) hcap) w s := by
    intro ok
    exact ordered_reach hone rfl rfl fun s hs hsome => (sealed_of_destroyed hcap s hs hsome).2
  have hdrained : (system setup _).Reach (fun s a => DrainCalls setup s a ∧ NoDirectCalls s a) s →
      s.mem.shutdownReturned = true → s.mem.history.order = s.mem.history.accepted ∧
        w ∈ s.mem.threads.finished := by
    intro hdrain hreturned
    have hshutdown := shutdownInv_reach s hs
    refine ⟨order_of_drain hcap hone (fun _ _ h => h.1) hdrain hreturned (hordered s hdrain), ?_⟩
    exact hshutdown.stopped (hshutdown.returned hreturned) w (by simp [hone])
  have hbroadcast : s.mem.history.order <+: s.mem.history.accepted := by
    have haccepted := hordered s hs
    rw [Ordered, List.append_assoc] at haccepted
    rw [haccepted]
    exact List.prefix_append _ _
  refine ⟨?_, ?_⟩
  · intro i hdelivery
    obtain ⟨a, hstart, hdue, halong⟩ := following_reach hone (fun _ _ h => h) rfl rfl hordered s hs
      i hdelivery
    rw [invoked_eq s hs i]
    refine ⟨a, hdue, ?_, ?_⟩
    · have hsegment : (s.mem.subs i).received <+: s.mem.history.order.drop a := by
        cases halong with
        | intact hsegment =>
            rw [hsegment]
            exact List.prefix_append _ _
        | left _ _ _ hsegment => exact hsegment
      exact hsegment.trans (hbroadcast.drop a)
    · intro hdrain hreturned hsubscribed
      obtain ⟨hall, hfinished⟩ := hdrained hdrain hreturned
      cases halong with
      | intact hsegment =>
          rw [ahead_of_not_worker hs (fun _ => hfinished) i, List.append_nil, hall] at hsegment
          exact hsegment.symm
      | left _ hleft => exact absurd hleft hsubscribed
  · intro members hmembers
    have hrostered := rostered_reach hone (fun _ _ h => h.1) (fun _ _ h => h.2) rfl rfl hordered s
      hmembers
    refine ⟨?_, ?_⟩
    · obtain ⟨more, hmore⟩ := hbroadcast
      rw [← hmore, rota_append, hrostered, List.append_assoc]
      exact List.prefix_append _ _
    · intro hdrain hreturned
      obtain ⟨hall, hfinished⟩ := hdrained hdrain hreturned
      have hplan := plan_of_not_worker hs fun _ => hfinished
      rw [Rostered, hplan, List.append_nil, hall] at hrostered
      exact hrostered.symm

end Mutex

/-- Batches of two.  In the first run a subscriber comes in between the batches and another one
goes after them; in the second the membership is fixed. -/
theorem single_worker_order_of_two :
    (∃ h : History (Fin 3) ℕ,
      h.batches = [(0, [⟨0, 7⟩, ⟨1, 8⟩]), (0, [⟨2, 9⟩, ⟨3, 10⟩])] ∧ h.unsubscribed = [1] ∧
        h.invoked 1 <+: h.accepted ∧ ∃ a ≤ 2, h.invoked 2 = h.accepted.drop a) ∧
    ∃ h : History (Fin 3) ℕ, h.batches = [(0, [⟨0, 7⟩, ⟨1, 8⟩])] ∧
      h.invocations = rota [1, 2] h.accepted := by
  constructor
  · obtain ⟨s, hs, hp⟩ := System.exists_reach_of_run
      (system smallBatches (mutexPolicy (Fin 3) (Publication ℕ) 2))
      (fun s a => DrainCalls smallBatches s a ∧ NoDirectCalls s a)
      (fun _ a => drainTest smallBatches a) (s := started smallBatches _) rfl
      (List.flatten [[(1, .constructed)], subscribing {}, publishing 7, publishing 8, working 1,
        working 6, returningOn 0 11, returningOn 0 7, [(1, .call (.subscribe true {}))],
        advance 1 9, publishing 9, publishing 10, working 1, working 6, returningOn 0 10,
        returningOn 0 11, returningOn 0 10, returningOn 0 7, [(1, .call (.unsubscribe 1))],
        advance 1 10, drainingOn 1, leavingOn 0, advance 1 8])
      (fun s => s.mem.shutdownReturned &&
        decide (s.mem.history.accepted = [⟨0, 7⟩, ⟨1, 8⟩, ⟨2, 9⟩, ⟨3, 10⟩]) &&
        decide (s.mem.history.batches = [(0, [⟨0, 7⟩, ⟨1, 8⟩]), (0, [⟨2, 9⟩, ⟨3, 10⟩])]) &&
        decide (s.mem.history.unsubscribed = [1]) &&
        decide ((s.mem.subs 1).options.delivery ≠ .isolated) &&
        decide ((s.mem.subs 2).options.delivery ≠ .isolated) &&
        decide (1 ∈ s.mem.history.due 0 ∧ 2 ∈ s.mem.history.due 2))
      (fun _ _ _ htest => ⟨(drainTest_sound htest).1, (drainTest_sound htest).2.1⟩)
      (by decide +kernel)
    simp only [Bool.and_eq_true, decide_eq_true_eq] at hp
    obtain ⟨⟨⟨⟨⟨⟨hreturned, haccepted⟩, hbatches⟩, hunsubscribed⟩, hone⟩, htwo⟩, hdue⟩ := hp
    obtain ⟨hsegments, _⟩ := single_worker_order (by decide : 2 ≠ 0) smallBatches rfl
      (hs.mono fun _ _ h => h.2)
    obtain ⟨a, hstart, hprefix, _⟩ := hsegments 1 hone
    obtain rfl : a = 0 :=
      Nat.le_zero.mp (hstart 0 ⟨0, 7⟩ (by rw [haccepted]; rfl) hdue.1)
    obtain ⟨b, hstart', _, hsegment⟩ := hsegments 2 htwo
    refine ⟨s.mem.history, hbatches, hunsubscribed, hprefix, b, ?_, ?_⟩
    · exact hstart' 2 ⟨2, 9⟩ (by rw [haccepted]; rfl) hdue.2
    · exact hsegment hs hreturned (by rw [hunsubscribed]; decide)
  · obtain ⟨s, hs, hp⟩ := System.exists_reach_of_run
      (system smallBatches (mutexPolicy (Fin 3) (Publication ℕ) 2))
      (fun s a => (DrainCalls smallBatches s a ∧ NoDirectCalls s a) ∧ FixedMembers [1, 2] s a)
      (fun s a => drainTest smallBatches a && (decide (s.mem.history.accepted = []) ||
        (decide (s.mem.registry.current = [1, 2]) && decide (∀ i ∈ ([1, 2] : List ℕ),
          (s.mem.subs i).active = true ∧ (s.mem.subs i).options.delivery ≠ .isolated))))
      (s := started smallBatches _) rfl
      (List.flatten [[(1, .constructed)], subscribing {}, [(1, .call (.subscribe true {}))],
        advance 1 9, publishing 7, publishing 8, working 1, working 6, returningOn 0 10,
        returningOn 0 11, returningOn 0 10, returningOn 0 7, drainingOn 1, leavingOn 0,
        advance 1 10])
      (fun s => s.mem.shutdownReturned &&
        decide (s.mem.history.batches = [(0, [⟨0, 7⟩, ⟨1, 8⟩])]))
      (by
        intro a _ s htest
        obtain ⟨hdrain, hmembers⟩ := Bool.and_eq_true_iff.mp htest
        obtain ⟨hcalls, hdirect, _⟩ := drainTest_sound hdrain
        refine ⟨⟨hcalls, hdirect⟩, fun hsome => ?_⟩
        simp only [hsome, decide_false, Bool.false_or, Bool.and_eq_true, decide_eq_true_eq]
          at hmembers
        exact ⟨hmembers.1, fun i hi => (hmembers.2 i hi).1, fun i hi => (hmembers.2 i hi).2⟩)
      (by decide +kernel)
    rw [Bool.and_eq_true, decide_eq_true_eq] at hp
    obtain ⟨hreturned, hbatches⟩ := hp
    obtain ⟨_, hrota⟩ := single_worker_order (by decide : 2 ≠ 0) smallBatches rfl
      (hs.mono fun _ _ h => h.1.2)
    exact ⟨s.mem.history, hbatches, (hrota [1, 2] (hs.mono fun _ _ h => ⟨h.1.2, h.2⟩)).2
      (hs.mono fun _ _ h => h.1) hreturned⟩

end Dispatcher

end EventDispatcher
