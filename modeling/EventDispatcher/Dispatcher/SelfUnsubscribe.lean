import EventDispatcher.Dispatcher.Executors

/-!
# Unsubscribing from the own executor

`stop_delivery` looks whether it runs on the executor it would join only after it has taken
`executor_join_mutex_`, and a thread that joins holds that mutex until the executor has
finished.  So an executor that unsubscribes its own subscriber while another thread joins it
waits for itself (`JoinDeadlock`).  It does not where the two keep apart (`JoinsApart`).
-/

namespace EventDispatcher

open Transition SubscriberState

variable {T E : Type} {Q : QueuePolicy T (Publication E)}

/-- The phases of `stop_delivery` before it holds the join mutex. -/
def StopPhase.beforeJoin : StopPhase → Bool
  | .lockMailbox => true
  | .notifyReady => true
  | .notifySpace => true
  | .lockJoin => true
  | _ => false

/-- The frame is an `unsubscribe` of subscriber `i` that has not come to the join mutex. -/
def Frame.leaves (i : ℕ) : Frame T E → Bool
  | .unsubscribe j .deactivate => j = i
  | .unsubscribe j (.retire _ _) => j = i
  | .unsubscribe j (.stop _ phase) => j = i && phase.beforeJoin
  | _ => false

section Frames

variable [DecidableEq T] {setup : Setup T} {flag : Bool} {t : T} {m m' : DispatcherMem Q}
  {q q' : Q.Loc} {contexts contexts' : Contexts} {f : Frame T E} {f' : Option (Frame T E)}

/-- What a step can do to the join mutex. -/
theorem PartStep.join_cases {next i : ℕ} {finished : Finset T}
    {s s' : SubscriberState T (Publication E)} {p p' : Part E}
    (h : PartStep flag t next i finished s p s' p') :
    s'.executorJoin = s.executorJoin ∨ s'.executorJoin = none ∨
      ∃ drain, p = .stop drain .lockJoin ∧ p' = .stop drain .join := by
  cases h with
  | construct => exact .inr (.inl rfl)
  | invoke hstep =>
      cases hstep with
      | callback hstep => cases hstep <;> exact .inl rfl
      | _ => exact .inl rfl
  | executor hstep =>
      cases hstep with
      | callback hstep => cases hstep <;> exact .inl rfl
      | _ => exact .inl rfl
  | @stop drain _ _ _ hstep =>
      cases hstep with
      | lockJoin hfree => exact .inr (.inr ⟨drain, rfl, rfl⟩)
      | unlockJoin => exact .inr (.inl rfl)
      | stopMailbox => exact .inl (by cases drain <;> rfl)
      | _ => exact .inl rfl
  | _ => exact .inl rfl

/-- An `unsubscribe` on its way to the join mutex comes from one. -/
theorem FrameStep.leaves_cases (h : FrameStep setup flag t m q contexts f m' q' contexts' f')
    {i : ℕ} {g : Frame T E} (hg : g ∈ f') (hleaves : g.leaves i = true) : f.leaves i = true := by
  cases h with
  | invoke hframe hstep => cases hframe <;> cases hg <;> cases hleaves
  | stop hframe hstep =>
      cases hframe with
      | unsubscribe self =>
          cases hg
          cases hstep with
          | direct | lockJoin | joinNone | joinSelf | joined | unlockJoin =>
              simp [Frame.leaves, StopPhase.beforeJoin] at hleaves
          | _ => simpa [Frame.leaves, StopPhase.beforeJoin] using hleaves
      | shutdown policy todo =>
          cases hg
          cases hleaves
  | deactivate j | deactivateAgain j | retireUnlock j =>
      cases hg
      simpa [Frame.leaves, StopPhase.beforeJoin] using hleaves
  | _ => cases hg <;> first | exact hleaves | cases hleaves

end Frames

namespace Dispatcher

theorem user_leaves {f : Frame T E} (h : f.user = true) (i : ℕ) : f.leaves i = false := by
  unfold Frame.user at h
  split at h <;> first | rfl | cases h

theorem leaves_part {f : Frame T E} {i : ℕ} (h : f.leaves i = true) {drain : Bool} :
    f.part i ≠ .stop drain .join := by
  intro hpart
  rcases part_stop_cases hpart with ⟨self, rfl⟩ | ⟨policy, todo, rfl, _⟩
  · simp [Frame.leaves, StopPhase.beforeJoin] at h
  · cases h

theorem finishUser_leaves {f f' : Frame T E} {threw : Bool} (h : f.finishUser threw = some f')
    (i : ℕ) : f'.leaves i = false := by
  unfold Frame.finishUser at h
  split at h <;> cases h <;> rfl

theorem enter_leaves {m m' : DispatcherMem Q} {call : Call T E} {f : Frame T E}
    (h : enter m call = some (m', f)) {i : ℕ} (hleaves : f.leaves i = true) :
    call = .unsubscribe i := by
  cases call with
  | unsubscribe j =>
      simp only [enter] at h
      split at h <;> cases h
      rw [show j = i by simpa [Frame.leaves] using hleaves]
  | invoke j event =>
      simp only [enter] at h
      split at h <;> cases h
      cases hleaves
  | _ =>
      cases h
      cases hleaves

/-- Thread `t` joins the executor `u` of subscriber `i` and holds the join mutex, while `u`
unsubscribes `i` and waits for the mutex. -/
structure JoinDeadlock (i : ℕ) (u t : T) (s : Config T (DispatcherMem Q) (ThreadLoc Q)) : Prop where
  executor : (s.mem.subs i).executor = some u
  other : u ≠ t
  unfinished : u ∉ s.mem.threads.finished
  holder : (s.mem.subs i).executorJoin = some t
  joining : ∃ f rest drain, (s.loc t).stack = f :: rest ∧ f.part i = .stop drain .join
  waiting : ∃ self rest, (s.loc u).stack = .unsubscribe i (.stop self .lockJoin) :: rest

variable [DecidableEq T] {setup : Setup T} {t : T} {m m' : DispatcherMem Q} {l l' : ThreadLoc Q}
  {c : DispatcherChoice Q}

/-- The executor of a subscriber and a thread that joins it keep apart: the executor does not
begin to unsubscribe the subscriber while another thread holds the join mutex, and no other
thread takes the mutex while the executor is on its way to it. -/
def JoinsApart (s : Config T (DispatcherMem Q) (ThreadLoc Q)) (a : T × DispatcherChoice Q) : Prop :=
  (∀ i, a.2 = .call (.unsubscribe i) → (s.mem.subs i).executor = some a.1 →
    (s.mem.subs i).executorJoin = none) ∧
  ∀ i drain, (parts i (s.loc a.1).stack).head? = some (.stop drain .lockJoin) →
    ∀ u, u ≠ a.1 → (s.mem.subs i).executor = some u → ∀ f ∈ (s.loc u).stack, f.leaves i = false

section Run

variable [Fintype T] {s : Config T (DispatcherMem Q) (ThreadLoc Q)}

omit [Fintype T] in
/-- Who stands in a frame on its way to the join mutex after a step of its thread. -/
theorem StepShape.leaves_cases (h : StepShape setup t m l c m' l') (hl : InOrder l) {i : ℕ}
    {f : Frame T E} (hf : f ∈ l'.stack) (hleaves : f.leaves i = true) :
    (c = .call (.unsubscribe i) ∧ (m'.subs i) = m.subs i) ∨
      ∃ top rest, l.stack = top :: rest ∧ top.leaves i = true ∧
        ∀ g ∈ l.stack.tail, g.leaves i = false := by
  have hsuspended : ∀ g ∈ l.stack.tail, g.leaves i = false :=
    fun g hg => user_leaves (hl.suspended g hg) i
  have htop : ∀ {g : Frame T E}, g ∈ l.stack → g.leaves i = true →
      ∃ top rest, l.stack = top :: rest ∧ top.leaves i = true ∧
        ∀ g ∈ l.stack.tail, g.leaves i = false := by
    intro g hg hg'
    cases hstack : l.stack with
    | nil =>
        rw [hstack] at hg
        cases hg
    | cons top rest =>
        rw [hstack] at hg hsuspended
        rcases List.mem_cons.mp hg with rfl | hg
        · exact ⟨g, rest, rfl, hg', hsuspended⟩
        · rw [hsuspended g hg] at hg'
          cases hg'
  cases h with
  | constructed | queue => exact .inr (htop hf hleaves)
  | start hstack =>
      obtain rfl := List.mem_singleton.mp hf
      cases hleaves
  | call huser henter =>
      rcases List.mem_cons.mp hf with rfl | hf
      · exact .inl ⟨by rw [enter_leaves henter hleaves], (enter_holds henter i).2⟩
      · exact .inr (htop hf hleaves)
  | finish hstack hfinish =>
      rcases List.mem_cons.mp hf with rfl | hf
      · rw [finishUser_leaves hfinish] at hleaves
        cases hleaves
      · exact .inr (htop (by rw [hstack]; exact List.mem_cons_of_mem _ hf) hleaves)
  | frame hstack hframe =>
      rcases List.mem_append.mp hf with hf | hf
      · refine .inr (htop (by rw [hstack]; exact List.mem_cons_self) ?_)
        exact hframe.leaves_cases (by simpa using hf) hleaves
      · exact .inr (htop (by rw [hstack]; exact List.mem_cons_of_mem _ hf) hleaves)

/-- **Run lemma**: while an executor is on its way to the join mutex of its subscriber, the
mutex is free. -/
theorem joinsApart_reach : ∀ s, (system setup Q).Reach JoinsApart s →
    ∀ i u, (s.mem.subs i).executor = some u → ∀ f ∈ (s.loc u).stack, f.leaves i = true →
      (s.mem.subs i).executorJoin = none := by
  refine interleave_invariant ?_ ?_
  · rintro s rfl i u ⟨⟩
  · intro s t c m l hreach hinv hok hstep i u hu f hf hleaves
    have hshape := step_shape hstep
    have hknown := (allotted_reach s hreach).mem
    obtain ⟨p, p', hpart, hreplaced⟩ := hshape.partStep hknown i
    simp only at hu ⊢
    -- an executor that is just being started has no frames
    have hbefore : (s.mem.subs i).executor = some u := by
      rcases hshape.executor_cases hknown i with hsame | ⟨hnone, _⟩ |
        ⟨v, top, rest, hv, hstack, _, hsome, _⟩
      · rw [← hsame]
        exact hu
      · rw [hnone] at hu
        cases hu
      · obtain rfl : v = u := Option.some.inj (hsome.symm.trans hu)
        have hempty := ((threadInv_reach s hreach).unstarted v hv).1
        have hvt : v ≠ t := by
          rintro rfl
          rw [hempty] at hstack
          cases hstack
        simp only [Function.update_of_ne hvt, hempty] at hf
        cases hf
    by_cases hut : u = t
    · subst hut
      simp only [Function.update_self] at hf
      rcases hshape.leaves_cases (inOrder_reach s hreach u) hf hleaves with
        ⟨rfl, hsame⟩ | ⟨top, rest, hstack, htop, _⟩
      · rw [hsame]
        exact hok.1 i rfl hbefore
      · have hfree := hinv i u hbefore top (by rw [hstack]; exact List.mem_cons_self) htop
        rcases hpart.join_cases with hsame | hnone | ⟨drain, rfl, rfl⟩
        · rw [hsame, hfree]
        · exact hnone
        · -- the frame would have passed the mutex
          have horder := hshape.inOrder (inOrder_reach s hreach u)
          obtain ⟨parts', _, hfront | ⟨hidle, _⟩⟩ := hreplaced
          · cases hstack' : l.stack with
            | nil =>
                rw [hstack'] at hf
                cases hf
            | cons top' rest' =>
                have hsuspended := horder.suspended
                rw [hstack'] at hf hfront hsuspended
                rcases List.mem_cons.mp hf with rfl | hf
                · exact absurd (List.cons.inj hfront).1 (leaves_part hleaves)
                · rw [user_leaves (hsuspended f hf)] at hleaves
                  cases hleaves
          · cases hidle
    · simp only [Function.update_of_ne hut] at hf
      have hfree := hinv i u hbefore f hf hleaves
      rcases hpart.join_cases with hsame | hnone | ⟨drain, rfl, rfl⟩
      · rw [hsame, hfree]
      · exact hnone
      · have hhead : (parts i (s.loc t).stack).head? = some (.stop drain .lockJoin) := by
          obtain ⟨rest, hfront | ⟨hidle, _⟩, _⟩ := hreplaced
          · rw [hfront]
            rfl
          · cases hidle
        rw [hok.2 i drain hhead u hut hbefore f hf] at hleaves
        cases hleaves

/-- **No deadlock**, in any run in which the executors and those who join them keep apart; a
self-unsubscribe that has come to `stop_delivery` can always take its next step. -/
theorem self_unsubscribe_proceeds (hs : (system setup Q).Reach JoinsApart s) (i : ℕ) (u : T) :
    (∀ t, ¬ JoinDeadlock i u t s) ∧
    ∀ self phase rest, (s.mem.subs i).executor = some u →
      (s.loc u).stack = .unsubscribe i (.stop self phase) :: rest →
      (system setup Q).step s (u, .go false none) ≠ none := by
  have hfree := joinsApart_reach s hs i u
  constructor
  · rintro t ⟨hexecutor, _, _, hholder, _, self, rest, hstack⟩
    rw [hfree hexecutor (.unsubscribe i (.stop self .lockJoin))
      (by rw [hstack]; exact List.mem_cons_self) (by simp [Frame.leaves, StopPhase.beforeJoin])]
      at hholder
    cases hholder
  · intro self phase rest hexecutor hstack
    have hlock : phase = .lockJoin → (s.mem.subs i).executorJoin = none := by
      rintro rfl
      exact hfree hexecutor (.unsubscribe i (.stop self .lockJoin))
        (by rw [hstack]; exact List.mem_cons_self) (by simp [Frame.leaves, StopPhase.beforeJoin])
    have hsteps : stepUnsubscribe u s.mem (s.loc u).contexts i false (.stop self phase) ≠ none := by
      cases phase with
      | lockMailbox =>
          simp only [stepUnsubscribe, stepStop]
          split <;> simp
      | lockJoin => simp [stepUnsubscribe, stepStop, hlock rfl]
      | join => simp [stepUnsubscribe, stepStop, hexecutor]
      | notifyReady | notifySpace | unlockJoin | done => simp [stepUnsubscribe, stepStop]
    simpa [system, interleave, Config.step, step, hstack, stepFrame] using hsteps

omit [Fintype T] in
/-- In a deadlock neither of the two threads can take a step. -/
theorem JoinDeadlock.blocked {i : ℕ} {u : T} (h : JoinDeadlock i u t s) (c : DispatcherChoice Q) :
    (system setup Q).step s (t, c) = none ∧ (system setup Q).step s (u, c) = none := by
  obtain ⟨hexecutor, hother, hunfinished, hholder, ⟨f, rest, drain, hstack, hpart⟩,
    self, rest', hstack'⟩ := h
  constructor
  · rcases part_stop_cases hpart with ⟨self', rfl⟩ | ⟨policy, todo, rfl, _⟩
    · cases c <;> simp [system, interleave, Config.step, step, hstack, stepFrame, stepUnsubscribe,
        stepStop, hexecutor, hother, hunfinished, Frame.user, Frame.finishUser, stepQueue,
        Frame.inQueue]
    · cases c <;> simp [system, interleave, Config.step, step, hstack, stepFrame, stepShutdown,
        stepStop, hexecutor, hother, hunfinished, Frame.user, Frame.finishUser, stepQueue,
        Frame.inQueue]
  · cases c <;> simp [system, interleave, Config.step, step, hstack', stepFrame, stepUnsubscribe,
      stepStop, hholder, Frame.user, Frame.finishUser, stepQueue, Frame.inQueue]

end Run

/-- What the schedule below keeps to. -/
def apartTest (s : Config T (DispatcherMem Q) (ThreadLoc Q)) (a : T × DispatcherChoice Q) : Bool :=
  (match a.2 with
    | .call (.unsubscribe i) => (s.mem.subs i).executorJoin = none
    | _ => true) &&
  match (s.loc a.1).stack with
    | .unsubscribe j (.stop _ .lockJoin) :: _ => (s.mem.subs j).executor = some a.1
    | .shutdown _ _ :: _ => false
    | _ => true

theorem apartTest_sound {s : Config T (DispatcherMem Q) (ThreadLoc Q)} {a : T × DispatcherChoice Q}
    (h : apartTest s a = true) : JoinsApart s a := by
  simp only [apartTest, Bool.and_eq_true] at h
  obtain ⟨hcall, htop⟩ := h
  constructor
  · intro i heq _
    simpa [heq] using hcall
  · intro i drain hhead u hut hu
    cases hstack : (s.loc a.1).stack with
    | nil =>
        rw [hstack] at hhead
        cases hhead
    | cons f rest =>
        rw [hstack] at hhead htop
        rcases part_stop_cases (Option.some.inj hhead) with ⟨self, rfl⟩ | ⟨policy, todo, rfl, _⟩
        · have hmine : (s.mem.subs i).executor = some a.1 := by simpa using htop
          exact absurd (Option.some.inj (hu.symm.trans hmine)) hut
        · cases htop

/-- The executor of an isolated subscriber has entered the callback. -/
def insideCallback (client executor : Fin 3) :
    List (Fin 3 × DispatcherChoice (mutexPolicy (Fin 3) (Publication ℕ) 2)) :=
  List.flatten [[(client, .constructed)], subscribing { delivery := .isolated }, publishing 7,
    working 8, [(executor, .start)], advance executor 4]

/-- The thread unsubscribes from a callback and is about to take the join mutex. -/
def selfStopping (l : ThreadLoc Q) : Bool :=
  match l.stack with
  | .unsubscribe 1 (.stop true .lockJoin) :: _ => true
  | _ => false

/-- The thread shuts down and is about to join the executor. -/
def joinsLast (l : ThreadLoc Q) : Bool :=
  match l.stack with
  | .shutdown .drain (.stop [1] .join) :: _ => true
  | _ => false

/-- The theorem applies where the executor is about to take the join mutex. -/
theorem self_unsubscribe_proceeds_at_mutex :
    ∃ s, (system smallSetup (mutexPolicy (Fin 3) (Publication ℕ) 2)).Reach JoinsApart s ∧
      (∃ rest, (s.loc 2).stack = .unsubscribe 1 (.stop true .lockJoin) :: rest) ∧
      (∀ t, ¬ JoinDeadlock 1 2 t s) ∧
      (system smallSetup (mutexPolicy (Fin 3) (Publication ℕ) 2)).step s (2, .go false none) ≠ none := by
  obtain ⟨s, hs, hp⟩ := System.exists_reach_of_run
    (system smallSetup (mutexPolicy (Fin 3) (Publication ℕ) 2)) JoinsApart apartTest
    (s := started smallSetup _) rfl
    (insideCallback 1 2 ++ [(2, .call (.unsubscribe 1))] ++ advance 2 9)
    (fun s => decide ((s.mem.subs 1).executor = some 2) && selfStopping (s.loc 2)) (fun _ _ _ htest => apartTest_sound htest) (by decide +kernel)
  simp only [Bool.and_eq_true, decide_eq_true_eq] at hp
  obtain ⟨hexecutor, hstack⟩ := hp
  unfold selfStopping at hstack
  split at hstack
  · next rest heq =>
      obtain ⟨hnone, hstep⟩ := self_unsubscribe_proceeds hs 1 2
      exact ⟨s, hs, ⟨rest, heq⟩, hnone, hstep true .lockJoin rest hexecutor heq⟩
  · cases hstack

/-- While the callback runs, a `shutdown(drain)` comes to join its executor; then the callback
unsubscribes its own subscription, and the two wait for each other for ever. -/
theorem self_unsubscribe_deadlocks :
    ∃ s, (system smallSetup (mutexPolicy (Fin 3) (Publication ℕ) 2)).Reachable s ∧
      JoinDeadlock 1 2 1 s ∧ ∀ c,
        (system smallSetup (mutexPolicy (Fin 3) (Publication ℕ) 2)).step s (1, c) = none ∧
        (system smallSetup (mutexPolicy (Fin 3) (Publication ℕ) 2)).step s (2, c) = none := by
  obtain ⟨s, hs, hp⟩ := System.exists_reach_of_run
    (system smallSetup (mutexPolicy (Fin 3) (Publication ℕ) 2)) (fun _ _ => True)
    (fun _ _ => true) (s := started smallSetup _) rfl
    (List.flatten [insideCallback 1 2, drainingOn 1, leavingOn 0, advance 1 7,
      [(2, .call (.unsubscribe 1))], advance 2 9])
    (fun s => decide ((s.mem.subs 1).executor = some 2) && decide (2 ∉ s.mem.threads.finished) &&
      decide ((s.mem.subs 1).executorJoin = some 1) && joinsLast (s.loc 1) &&
      selfStopping (s.loc 2)) (by simp) (by decide +kernel)
  simp only [Bool.and_eq_true, decide_eq_true_eq] at hp
  obtain ⟨⟨⟨⟨hexecutor, hunfinished⟩, hholder⟩, hjoining⟩, hwaiting⟩ := hp
  unfold joinsLast at hjoining
  unfold selfStopping at hwaiting
  split at hjoining
  · next rest hstack =>
      split at hwaiting
      · next rest' hstack' =>
          have hdeadlock : JoinDeadlock 1 2 1 s := ⟨hexecutor, by decide, hunfinished, hholder,
            ⟨_, rest, true, hstack, rfl⟩, true, rest', hstack'⟩
          exact ⟨s, hs, hdeadlock, hdeadlock.blocked⟩
      · cases hwaiting
  · cases hjoining

end Dispatcher

end EventDispatcher
