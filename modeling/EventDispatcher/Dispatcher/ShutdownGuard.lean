import EventDispatcher.Dispatcher.QueuePolicies
import EventDispatcher.Dispatcher.Threads

/-!
# The guard of `shutdown`

`shutdown` refuses to run on a worker thread and on a thread that is inside a callback of
the dispatcher.  The second test reads the chain of invocation contexts, which the callback
pops before its exception is reported: an executor that runs the error handler passes the
guard, although it is a thread of the dispatcher.  That is the only way past it.
-/

namespace EventDispatcher

open Transition

variable {T E : Type} {Q : QueuePolicy T (Publication E)}

/-- A callback on the stack has its context in the chain. -/
theorem mem_contexts_of_callback {stack : List (Frame T E)} {contexts : Contexts}
    (h : Chained stack contexts) {f : Frame T E} (hf : f ∈ stack) {i : ℕ}
    (hi : f.callback = some i) : some i ∈ contexts := by
  induction stack generalizing contexts with
  | nil => cases hf
  | cons g rest ih =>
      obtain ⟨base, henc, hrest⟩ := h
      cases hscope : g.scope with
      | none =>
          rw [hscope] at henc
          obtain rfl : base = contexts := henc
          rcases List.mem_cons.mp hf with rfl | hf
          · rw [Frame.callback, hscope] at hi
            cases hi
          · exact ih hrest hf
      | some scope =>
          rw [hscope] at henc
          obtain ⟨rfl, rfl⟩ := henc
          rcases List.mem_cons.mp hf with rfl | hf
          · rw [Frame.callback, hscope] at hi
            exact List.mem_cons.mpr (.inl hi.symm)
          · exact List.mem_cons_of_mem _ (ih hrest hf)

/-- A `shutdown` call that has got past its guard. -/
def Frame.guarded : Frame T E → Bool
  | .shutdown _ .guard => false
  | .shutdown _ _ => true
  | _ => false

/-- Only the guard leads past the guard, and no step leads back to it. -/
theorem FrameStep.guarded_cases [DecidableEq T] {setup : Setup T} {flag : Bool} {t : T}
    {m m' : DispatcherMem Q} {q q' : Q.Loc} {contexts contexts' : Contexts} {f : Frame T E}
    {f' : Option (Frame T E)} (h : FrameStep setup flag t m q contexts f m' q' contexts' f')
    {g : Frame T E} (hg : g ∈ f') :
    (g.guarded = true → f.guarded = true ∨
      ∃ policy, f = .shutdown policy .guard ∧ g = .shutdown policy .lockLifecycle) ∧
      ∀ policy, g ≠ .shutdown policy .guard := by
  cases h with
  | invoke hframe hstep =>
      cases hg
      cases hframe <;> exact ⟨by rintro ⟨⟩, by rintro policy ⟨⟩⟩
  | stop hframe hstep =>
      cases hg
      cases hframe with
      | unsubscribe self => exact ⟨by rintro ⟨⟩, by rintro policy ⟨⟩⟩
      | shutdown policy todo => exact ⟨fun _ => .inl rfl, by rintro policy ⟨⟩⟩
  | shutdownGuard policy hworker hcontexts =>
      cases hg
      exact ⟨fun _ => .inr ⟨policy, rfl, rfl⟩, by rintro policy ⟨⟩⟩
  | _ =>
      refine ⟨?_, ?_⟩
      · intro hguarded
        cases hg <;> first | exact .inl rfl | cases hguarded
      · rintro policy rfl
        cases hg

namespace Dispatcher

/-- The chain has a context of this dispatcher exactly if a callback of it is on the
stack. -/
theorem contexts_any_iff {l : ThreadLoc Q} (h : InOrder l) :
    l.contexts.any Option.isSome = false ↔ ∀ f ∈ l.stack, f.callback = none := by
  constructor
  · intro hnone f hf
    cases hcallback : f.callback with
    | none => rfl
    | some i =>
        have hmem := mem_contexts_of_callback h.chained hf hcallback
        have hany := List.any_eq_false.mp hnone _ hmem
        simp at hany
  · intro hframes
    rw [List.any_eq_false]
    intro context hcontext
    cases context with
    | none => simp
    | some i =>
        obtain ⟨f, hf, hcallback⟩ := mem_of_chained h.chained hcontext
        rw [hframes f hf] at hcallback
        cases hcallback

/-- A thread of the dispatcher: a worker, or the executor of a subscriber. -/
def Owned (setup : Setup T) (s : Config T (DispatcherMem Q) (ThreadLoc Q)) (t : T) : Prop :=
  t ∈ setup.workers ∨ ∃ i phase, Frame.executor i phase ∈ (s.loc t).stack

/-- The thread is an executor that runs the error handler, and inside that no callback of
the dispatcher. -/
def HandlesError (l : ThreadLoc Q) : Prop :=
  (∃ i, Frame.executor i .handler ∈ l.stack) ∧ ∀ f ∈ l.stack, f.callback = none

variable [DecidableEq T] {setup : Setup T}

/-- The `shutdown` on top of the stack of `t` takes the step past its guard. -/
def PassesGuard (setup : Setup T) (s : Config T (DispatcherMem Q) (ThreadLoc Q)) (t : T)
    (policy : ShutdownPolicy) (rest : List (Frame T E)) : Prop :=
  ∃ c s', (system setup Q).step s (t, c) = some s' ∧
    (s'.loc t).stack = .shutdown policy .lockLifecycle :: rest

/-- No `shutdown` is called in the error handler of an executor. -/
def GuardOk (s : Config T (DispatcherMem Q) (ThreadLoc Q)) (a : T × DispatcherChoice Q) : Prop :=
  ∀ policy, a.2 = .call (.shutdown policy) → ¬ HandlesError (s.loc a.1)

/-- What the guard tests. -/
theorem passesGuard_iff {s : Config T (DispatcherMem Q) (ThreadLoc Q)} {t : T}
    {policy : ShutdownPolicy} {rest : List (Frame T E)}
    (hstack : (s.loc t).stack = .shutdown policy .guard :: rest) :
    PassesGuard setup s t policy rest ↔
      t ∉ setup.workers ∧ (s.loc t).contexts.any Option.isSome = false := by
  constructor
  · rintro ⟨c, s', hstep, hstack'⟩
    obtain ⟨m, l, hprog, rfl⟩ := Config.step_eq_some hstep
    simp only [Function.update_self] at hstack'
    obtain ⟨flag, q', contexts', top', hframe, rfl⟩ := (step_shape hprog).top_frame hstack rfl rfl
    generalize hf : Frame.shutdown policy .guard = f at hframe
    cases hframe with
    | shutdownGuard _ hworker hcontexts => exact ⟨hworker, hcontexts⟩
    | shutdownRejected =>
        have hlength := congrArg List.length hstack'
        simp at hlength
    | invoke hinvoke => cases hinvoke <;> cases hf
    | stop hstop => cases hstop <;> cases hf
    | _ => cases hf
  · rintro ⟨hworker, hcontexts⟩
    have hprog : step setup t (.go false none) s.mem (s.loc t) =
        some (s.mem, { s.loc t with stack := .shutdown policy .lockLifecycle :: rest }) := by
      simp [step, hstack, stepFrame, stepShutdown, hworker, hcontexts]
    refine ⟨.go false none, _, by simp only [system, interleave, Config.step, hprog]; rfl, ?_⟩
    simp

omit [DecidableEq T] in
/-- An executor in user code that is not its callback runs the error handler. -/
theorem handler_of_user {i : ℕ} {phase : ExecutorPhase (Publication E)}
    (huser : (Frame.executor i phase : Frame T E).user = true)
    (hcallback : (Frame.executor i phase : Frame T E).callback = none) : phase = .handler := by
  cases phase with
  | handler => rfl
  | callback event phase =>
      cases phase with
      | running previous => cases hcallback
      | _ => cases huser
  | _ => cases huser

omit [DecidableEq T] in
/-- The thread of an executor frame is not a worker. -/
theorem not_worker_of_executor {s : Config T (DispatcherMem Q) (ThreadLoc Q)} {t : T}
    (hinv : ThreadInv setup s) {i : ℕ} {phase : ExecutorPhase (Publication E)}
    (hf : .executor i phase ∈ (s.loc t).stack) : t ∉ setup.workers :=
  fun hworker => setup.disjoint t hworker (hinv.placed t _ hf).2.1

/-- **The exact condition**, in every reachable state. -/
theorem guard_exact [Fintype T] {s : Config T (DispatcherMem Q) (ThreadLoc Q)} {t : T}
    {policy : ShutdownPolicy} {rest : List (Frame T E)}
    (hs : (system setup Q).Reachable s)
    (hstack : (s.loc t).stack = .shutdown policy .guard :: rest) :
    (PassesGuard setup s t policy rest → ¬ Owned setup s t) ↔ ¬ HandlesError (s.loc t) := by
  have horder := inOrder_reach s hs t
  have hthreads := threadInv_reach s hs
  rw [passesGuard_iff hstack, contexts_any_iff horder]
  constructor
  · rintro hguard ⟨⟨i, hi⟩, hframes⟩
    exact hguard ⟨not_worker_of_executor hthreads hi, hframes⟩ (.inr ⟨i, _, hi⟩)
  · rintro hnot ⟨hworker, hframes⟩ (hmine | ⟨i, phase, hi⟩)
    · exact hworker hmine
    · refine hnot ⟨⟨i, ?_⟩, hframes⟩
      have hbelow : Frame.executor i phase ∈ rest := by
        rw [hstack] at hi
        rcases List.mem_cons.mp hi with heq | hi
        · cases heq
        · exact hi
      have huser := horder.suspended (.executor i phase) (by rw [hstack]; exact hbelow)
      rw [← handler_of_user huser (hframes _ hi)]
      exact hi

/-- A thread that the dispatcher does not own is a client, as soon as it does anything. -/
theorem client_of_not_owned {s : Config T (DispatcherMem Q) (ThreadLoc Q)} {t : T}
    (hinv : ThreadInv setup s) (hne : (s.loc t).stack ≠ []) (h : ¬ Owned setup s t) :
    Client setup t := by
  by_contra hclient
  obtain ⟨f, hf, hbase⟩ := hinv.rooted t hclient hne
  have hplaced := hinv.placed t f hf
  cases f with
  | worker phase => exact h (.inl hplaced.1)
  | executor i phase => exact h (.inr ⟨i, phase, hf⟩)
  | _ => cases hbase

/-- The invariant of the runs that keep to the condition. -/
structure GuardInv (setup : Setup T) (s : Config T (DispatcherMem Q) (ThreadLoc Q)) : Prop where
  passed : ∀ t, ∀ f ∈ (s.loc t).stack, f.guarded = true → Client setup t
  atGuard : ∀ t policy rest, (s.loc t).stack = .shutdown policy .guard :: rest →
    ¬ HandlesError (s.loc t)

section Run

variable [Fintype T] {s : Config T (DispatcherMem Q) (ThreadLoc Q)} {t : T}
  {m' : DispatcherMem Q} {l' : ThreadLoc Q} {c : DispatcherChoice Q}

omit [DecidableEq T] [Fintype T] in
theorem user_guarded {f : Frame T E} (h : f.user = true) :
    f.guarded = false ∧ ∀ policy, f ≠ .shutdown policy .guard := by
  unfold Frame.user at h
  split at h <;> first | exact ⟨rfl, by rintro policy ⟨⟩⟩ | cases h

omit [DecidableEq T] [Fintype T] in
theorem finishUser_guarded {f f' : Frame T E} {threw : Bool} (h : f.finishUser threw = some f') :
    f'.guarded = false ∧ ∀ policy, f' ≠ .shutdown policy .guard := by
  unfold Frame.finishUser at h
  split at h <;> cases h <;> exact ⟨rfl, by rintro policy ⟨⟩⟩

omit [DecidableEq T] [Fintype T] in
theorem enter_guarded {m m' : DispatcherMem Q} {call : Call T E} {f : Frame T E}
    (h : enter m call = some (m', f)) :
    f.guarded = false ∧ ∀ policy, f = .shutdown policy .guard → call = .shutdown policy := by
  cases call with
  | unsubscribe i | invoke i event =>
      simp only [enter] at h
      split at h <;> cases h
      exact ⟨rfl, by rintro policy ⟨⟩⟩
  | shutdown policy =>
      cases h
      exact ⟨rfl, by rintro policy ⟨⟩; rfl⟩
  | _ =>
      cases h
      exact ⟨rfl, by rintro policy ⟨⟩⟩

/-- A new frame past the guard is on a thread of a client. -/
theorem GuardInv.passed_step (hinv : GuardInv setup s) (hreach : (system setup Q).Reachable s)
    (hstep : step setup t c s.mem (s.loc t) = some (m', l')) :
    ∀ f ∈ l'.stack, f.guarded = true → Client setup t := by
  intro f hf hguarded
  have hpassed := hinv.passed t
  cases step_shape hstep with
  | constructed => exact hpassed f hf hguarded
  | start hstack hentry =>
      obtain rfl := List.mem_singleton.mp hf
      cases hguarded
  | call huser henter =>
      rcases List.mem_cons.mp hf with rfl | hf
      · rw [(enter_guarded henter).1] at hguarded
        cases hguarded
      · exact hpassed f hf hguarded
  | finish hstack hfinish =>
      rcases List.mem_cons.mp hf with rfl | hf
      · rw [(finishUser_guarded hfinish).1] at hguarded
        cases hguarded
      · exact hpassed f (by rw [hstack]; exact List.mem_cons_of_mem _ hf) hguarded
  | @frame flag thread _ _ _ top top' rest hstack hframe =>
      rcases List.mem_append.mp hf with hf | hf
      · rcases (hframe.guarded_cases (by simpa using hf)).1 hguarded with hbefore |
          ⟨policy, rfl, rfl⟩
        · exact hpassed top (by rw [hstack]; exact List.mem_cons_self) hbefore
        · refine client_of_not_owned (threadInv_reach s hreach) (by rw [hstack]; simp) ?_
          refine (guard_exact hreach hstack).mpr (hinv.atGuard t policy rest hstack) ?_
          refine ⟨.go flag thread, _, by simp only [system, interleave, Config.step, hstep]; rfl, ?_⟩
          obtain rfl : top' = some (.shutdown policy .lockLifecycle) := by simpa using hf
          simp
      · exact hpassed f (by rw [hstack]; exact List.mem_cons_of_mem _ hf) hguarded
  | queue hstack => exact hpassed f hf hguarded

omit [Fintype T] in
/-- A `shutdown` stands at its guard only right behind its call. -/
theorem GuardInv.atGuard_step (hinv : GuardInv setup s) (hreach : (system setup Q).Reachable s)
    (hok : GuardOk s (t, c)) (hstep : step setup t c s.mem (s.loc t) = some (m', l'))
    (policy : ShutdownPolicy) (rest : List (Frame T E))
    (hguard : l'.stack = .shutdown policy .guard :: rest) : ¬ HandlesError l' := by
  have horder := inOrder_reach s hreach t
  cases step_shape hstep with
  | constructed => exact hinv.atGuard t policy rest hguard
  | start hstack hentry => cases hguard
  | call huser henter =>
      obtain ⟨rfl, rfl⟩ := List.cons.inj hguard
      have hcall := (enter_guarded henter).2 policy rfl
      rintro ⟨⟨i, hi⟩, hframes⟩
      refine hok policy (by rw [hcall]) ⟨⟨i, ?_⟩, fun f hf => hframes f (List.mem_cons_of_mem _ hf)⟩
      rcases List.mem_cons.mp hi with heq | hi
      · cases heq
      · exact hi
  | finish hstack hfinish =>
      exact absurd (List.cons.inj hguard).1 ((finishUser_guarded hfinish).2 policy)
  | @frame _ _ _ _ _ top top' rest' hstack hframe =>
      cases top' with
      | none =>
          have hsuspended := horder.suspended
          rw [hstack] at hsuspended
          have huser := hsuspended _ (by
            rw [List.tail_cons, show rest' = _ from hguard]
            exact List.mem_cons_self)
          exact absurd rfl ((user_guarded huser).2 policy)
      | some g => exact absurd (List.cons.inj hguard).1 ((hframe.guarded_cases rfl).2 policy)
  | queue hstack hin =>
      rw [show (s.loc t).stack = _ from hguard] at hstack
      cases hstack
      cases hin

/-- **Run lemma.** -/
theorem guardInv_reach : ∀ s, (system setup Q).Reach GuardOk s → GuardInv setup s := by
  refine interleave_invariant ?_ ?_
  · rintro s rfl
    constructor
    · intro t f hf hguarded
      simp only [started] at hf
      split at hf
      · obtain rfl := List.mem_singleton.mp hf
        cases hguarded
      · cases hf
    · intro t policy rest hstack
      simp only [started] at hstack
      split at hstack <;> cases hstack
  · intro s t c m l hreach hinv hok hstep
    have hreach' := System.Reach.reachable hreach
    constructor
    · exact (Function.forall_update_iff s.loc fun u l =>
        ∀ f ∈ l.stack, f.guarded = true → Client setup u).mpr
        ⟨hinv.passed_step hreach' hstep, fun u _ => hinv.passed u⟩
    · exact (Function.forall_update_iff s.loc fun _ l => ∀ policy rest,
        l.stack = .shutdown policy .guard :: rest → ¬ HandlesError l).mpr
        ⟨hinv.atGuard_step hreach' hok hstep, fun u _ => hinv.atGuard u⟩

/-- **The self-shutdown guard.**  In every reachable state the guard keeps out the threads of
the dispatcher exactly outside the error handler of an executor; and in every run in which
no `shutdown` is called there, only threads that the dispatcher does not own are ever
inside `shutdown` behind the guard. -/
theorem self_shutdown_guard (setup : Setup T) (Q : QueuePolicy T (Publication E)) :
    (∀ s, (system setup Q).Reachable s → ∀ t policy rest,
      (s.loc t).stack = .shutdown policy .guard :: rest →
      ((PassesGuard setup s t policy rest → ¬ Owned setup s t) ↔ ¬ HandlesError (s.loc t))) ∧
    ∀ s, (system setup Q).Reach GuardOk s → ∀ t, ∀ f ∈ (s.loc t).stack, f.guarded = true →
      ¬ Owned setup s t := by
  constructor
  · intro s hs t policy rest hstack
    exact guard_exact hs hstack
  · intro s hs t f hf hguarded howned
    have hclient := (guardInv_reach s hs).passed t f hf hguarded
    rcases howned with hworker | ⟨i, phase, hi⟩
    · exact hclient.1 hworker
    · exact hclient.2 ((threadInv_reach s hs).placed t _ hi).2.1

end Run

/-- What the schedule below keeps to: no executor that calls `shutdown` runs the handler. -/
def guardTest (s : Config T (DispatcherMem Q) (ThreadLoc Q)) (a : T × DispatcherChoice Q) : Bool :=
  match a.2 with
  | .call (.shutdown _) => (s.loc a.1).stack.all fun
      | .executor _ .handler => false
      | _ => true
  | _ => true

omit [DecidableEq T] in
theorem guardTest_sound {s : Config T (DispatcherMem Q) (ThreadLoc Q)} {a : T × DispatcherChoice Q}
    (h : guardTest s a = true) : GuardOk s a := by
  rintro policy heq ⟨⟨i, hi⟩, _⟩
  simp only [guardTest, heq, List.all_eq_true] at h
  exact absurd (h _ hi) (by simp)

/-- A callback on an executor has called `shutdown(drain)`, and so has a client. -/
def shutsDownTwice (executor client : ThreadLoc Q) : Bool :=
  match executor.stack, client.stack with
  | [.shutdown .drain .guard, .executor 1 (.callback _ (.running _))],
    [.shutdown .drain .lockLifecycle] => true
  | _, _ => false

/-- The callback of an isolated subscriber and a client both call `shutdown(drain)`: the guard
rejects the first and has let the second pass, and the theorem applies. -/
theorem self_shutdown_guard_in_callback :
    ∃ (s : Config (Fin 3) (DispatcherMem (mutexPolicy (Fin 3) (Publication ℕ) 1)) (ThreadLoc _))
      (rest : List (Frame (Fin 3) ℕ)),
      (s.loc 2).stack = .shutdown .drain .guard :: rest ∧ Owned smallSetup s 2 ∧
        ¬ PassesGuard smallSetup s 2 .drain rest ∧
        (s.loc 1).stack = [.shutdown .drain .lockLifecycle] ∧ ¬ Owned smallSetup s 1 := by
  obtain ⟨s, hs, hp⟩ := System.exists_reach_of_run
    (system smallSetup (mutexPolicy (Fin 3) (Publication ℕ) 1)) GuardOk guardTest
    (s := started smallSetup _) rfl
    (List.flatten [[(1, .constructed)], subscribing { delivery := .isolated }, publishing 7,
      working 5, [(2, .start)], advance 2 4, [(2, .call (.shutdown .drain)),
      (1, .call (.shutdown .drain))], advance 1 1])
    (fun s => shutsDownTwice (s.loc 2) (s.loc 1))
    (fun a _ s htest => guardTest_sound htest) (by decide +kernel)
  obtain ⟨hexact, hpassed⟩ := self_shutdown_guard smallSetup
    (mutexPolicy (Fin 3) (Publication ℕ) 1)
  unfold shutsDownTwice at hp
  split at hp
  · next event previous hstack hclient =>
      have howned : Owned smallSetup s 2 :=
        .inr ⟨1, .callback event (.running previous), by rw [hstack]; simp⟩
      have hexempt : ¬ HandlesError (s.loc 2) := by
        rintro ⟨⟨i, hi⟩, _⟩
        rw [hstack] at hi
        simp at hi
      refine ⟨s, _, hstack, howned, ?_, hclient, ?_⟩
      · intro hpasses
        exact (hexact s hs.reachable 2 .drain _ hstack).mpr hexempt hpasses howned
      · exact hpassed s hs 1 _ (by rw [hclient]; exact List.mem_singleton.mpr rfl) rfl
  · cases hp

/-- The error handler of an executor has called `shutdown(drain)`, outside any callback. -/
def shutsDownInHandler {T E : Type} {Q : QueuePolicy T (Publication E)} (l : ThreadLoc Q) : Bool :=
  match l.stack, l.contexts with
  | [.shutdown .drain .guard, .executor 1 .handler], [] => true
  | _, _ => false

/-- The callback of an isolated subscriber throws, and its error handler, on the executor,
gets past the guard of `shutdown`. -/
theorem error_handler_passes_guard :
    ∃ (s : Config (Fin 3) (DispatcherMem (mutexPolicy (Fin 3) (Publication ℕ) 1)) (ThreadLoc _))
      (t : Fin 3) (policy : ShutdownPolicy) (rest : List (Frame (Fin 3) ℕ)),
      (system smallSetup _).Reachable s ∧
        (s.loc t).stack = .shutdown policy .guard :: rest ∧
        PassesGuard smallSetup s t policy rest ∧ Owned smallSetup s t := by
  obtain ⟨s, hs, hp⟩ := System.exists_reach_of_run
    (system smallSetup (mutexPolicy (Fin 3) (Publication ℕ) 1)) (fun _ _ => True)
    (fun _ _ => true) (s := started smallSetup _) rfl
    (List.flatten [[(1, .constructed)], subscribing { delivery := .isolated }, publishing 7,
      working 5, [(2, .start)], advance 2 4, [(2, .finish true)], advance 2 6,
      [(2, .call (.shutdown .drain))]])
    (fun s => shutsDownInHandler (s.loc 2)) (by simp) (by decide +kernel)
  unfold shutsDownInHandler at hp
  split at hp
  · next hstack hcontexts =>
      refine ⟨s, 2, .drain, _, hs, hstack, ?_, .inr ⟨1, .handler, by rw [hstack]; simp⟩⟩
      rw [passesGuard_iff hstack, hcontexts]
      exact ⟨by decide, rfl⟩
  · cases hp

end Dispatcher

end EventDispatcher
