import EventDispatcher.Dispatcher.Invocations
import EventDispatcher.Dispatcher.Lifecycle

/-!
# The threads of the dispatcher

A worker frame or an executor frame is the bottom of its thread's stack, a thread that
has finished does nothing any more, and the executor of a subscriber stays joinable
until its thread has finished.  So whoever finds `executor_` not joinable, or has
joined it, knows that no thread runs that executor.
-/

namespace EventDispatcher

open Transition SubscriberState

variable {T E : Type} {Q : QueuePolicy T (Publication E)}

/-- The function of a thread that the dispatcher has created. -/
def Frame.base : Frame T E → Bool
  | .worker _ => true
  | .executor _ _ => true
  | _ => false

/-- The subscriber whose executor the frame is. -/
def Frame.executes : Frame T E → Option ℕ
  | .executor i _ => some i
  | _ => none

/-- The subscriber under construction, before it gets its executor. -/
def Frame.constructs : Frame T E → Option ℕ
  | .subscribe _ _ (.filter id _ _) => some id
  | .subscribe _ _ (.startExecutor id _) => some id
  | _ => none

/-- Thread functions only stand at the bottom of a stack. -/
def Bottomed : List (Frame T E) → Prop
  | [] => True
  | f :: rest => (f.base = true → rest = []) ∧ Bottomed rest

section Frames

variable [DecidableEq T] {setup : Setup T} {flag : Bool} {t : T} {m m' : DispatcherMem Q}
  {q q' : Q.Loc} {contexts contexts' : Contexts} {f : Frame T E} {f' : Option (Frame T E)}

/-- A frame stays at the base of its thread, or away from it. -/
theorem FrameStep.base_eq (h : FrameStep setup flag t m q contexts f m' q' contexts' f') :
    ∀ g ∈ f', g.base = f.base ∧ g.executes = f.executes := by
  cases h with
  | invoke hframe hstep =>
      rintro g ⟨⟩
      cases hframe <;> exact ⟨rfl, rfl⟩
  | stop hframe hstep =>
      rintro g ⟨⟩
      cases hframe <;> exact ⟨rfl, rfl⟩
  | _ =>
      intro g hg
      cases hg <;> exact ⟨rfl, rfl⟩

/-- What a step does to the thread table. -/
theorem FrameStep.threads_cases (h : FrameStep setup flag t m q contexts f m' q' contexts' f') :
    (m'.threads.finished = m.threads.finished ∧ m'.threads.unstarted = m.threads.unstarted ∧
      m'.threads.entry = m.threads.entry) ∨
      (f.base = true ∧ f' = none ∧ m' = m.finish t) ∨
      ∃ callback options id next u, f = .subscribe callback options (.startExecutor id next) ∧
        f' = some (.subscribe callback options (.store id next)) ∧
        u ∈ m.threads.unstarted ∧ m' = m.spawn id u := by
  cases h with
  | workerDone => exact .inr (.inl ⟨rfl, rfl, rfl⟩)
  | executorDone => exact .inr (.inl ⟨rfl, rfl, rfl⟩)
  | subscribeSpawn callback options id next hisolated u hu =>
      exact .inr (.inr ⟨callback, options, id, next, u, rfl, rfl, hu, rfl⟩)
  | publishCounted | publishNext | deactivate | deactivateAgain => exact .inl (by simp)
  | _ => exact .inl ⟨rfl, rfl, rfl⟩

omit [DecidableEq T] in
/-- A callback does not touch the executor thread. -/
theorem CallbackStep.executor_eq {i : ℕ} {s s' : SubscriberState T E} {event : E}
    {phase phase' : CallbackPhase}
    (h : CallbackStep i s contexts event phase s' contexts' phase') : s'.executor = s.executor := by
  cases h <;> rfl

/-- Nor does `try_invoke`. -/
theorem InvokeStep.executor_eq {i : ℕ} {s s' : SubscriberState T E} {event : E}
    {phase phase' : InvokePhase}
    (h : InvokeStep flag t i s contexts event phase s' contexts' phase') :
    s'.executor = s.executor := by
  cases h with
  | callback hstep => exact hstep.executor_eq
  | _ => rfl

/-- Nor does the executor itself. -/
theorem ExecutorStep.executor_eq {i : ℕ} {s s' : SubscriberState T E}
    {phase phase' : ExecutorPhase E}
    (h : ExecutorStep t i s contexts phase s' contexts' phase') : s'.executor = s.executor := by
  cases h with
  | callback hstep => exact hstep.executor_eq
  | _ => rfl

omit [DecidableEq T] in
/-- `stop_delivery` joins an executor that has finished, or leaves it alone. -/
theorem StopStep.executor_cases {s s' : SubscriberState T E} {finished : Finset T} {drain : Bool}
    {phase phase' : StopPhase} (h : StopStep t s finished drain phase s' phase') :
    s'.executor = s.executor ∨
      (phase = .join ∧ s'.executor = none ∧ ∃ u ∈ finished, s.executor = some u) := by
  cases h with
  | stopMailbox =>
      left
      unfold SubscriberState.stopMailbox
      split <;> rfl
  | joined hu hne hfinished => exact .inr ⟨rfl, rfl, _, hfinished, hu⟩
  | _ => exact .inl rfl

/-- An executor stays joinable until it is joined, which is after its thread has
finished. -/
theorem FrameStep.executor_cases (h : FrameStep setup flag t m q contexts f m' q' contexts' f')
    (hm : Known m) (i : ℕ) :
    (m'.subs i).executor = (m.subs i).executor ∨
      ((m'.subs i).executor = none ∧ ∃ u ∈ m.threads.finished, (m.subs i).executor = some u) ∨
      ∃ u, u ∈ m.threads.unstarted ∧ f.constructs = some i ∧ (m'.subs i).executor = some u ∧
        m' = m.spawn i u ∧ ∀ g ∈ f', g.constructs = none := by
  have hset : ∀ {j : ℕ} {s : SubscriberState T (Publication E)},
      s.executor = (m.subs j).executor → ((m.setSub j s).subs i).executor = (m.subs i).executor := by
    intro j s hs
    by_cases hij : i = j
    · subst hij
      simpa using hs
    · simp [Function.update_of_ne hij]
  cases h with
  | invoke hframe hstep => exact .inl (hset hstep.executor_eq)
  | executor hstep => exact .inl (hset hstep.executor_eq)
  | @stop j _ _ _ _ _ hframe hstep =>
      rcases hstep.executor_cases with hsame | ⟨_, hnone, hjoined⟩
      · exact .inl (hset hsame)
      · by_cases hij : i = j
        · subst hij
          exact .inr (.inl ⟨by simpa using hnone, hjoined⟩)
        · left
          simp [Function.update_of_ne hij]
  | subscribeConstruct callback options hvalid =>
      left
      by_cases hi : i = m.registry.nextId
      · subst hi
        simp [hm.fresh m.registry.nextId le_rfl]
      · simp [Function.update_of_ne hi]
  | subscribeSpawn callback options id next hisolated u hu =>
      by_cases hi : i = id
      · subst hi
        exact .inr (.inr ⟨u, hu, rfl, by simp, rfl, by rintro g ⟨⟩; rfl⟩)
      · left
        simp [Function.update_of_ne hi]
  | deactivate j | deactivateAgain j =>
      left
      simpa using hset (deactivate_executor (m.subs j))
  | idlePark j | idleWake j => exact .inl (hset rfl)
  | publishCounted | publishNext => exact .inl (by simp)
  | _ => exact .inl rfl

/-- A subscriber is under construction in one `subscribe` only. -/
theorem FrameStep.constructs_cases (h : FrameStep setup flag t m q contexts f m' q' contexts' f')
    {g : Frame T E} (hg : g ∈ f') {i : ℕ} (hi : g.constructs = some i) :
    f.constructs = some i ∨ (i = m.registry.nextId ∧ (m'.subs i).executor = none) := by
  cases h with
  | invoke hframe hstep =>
      cases hg
      cases hframe <;> cases hi
  | stop hframe hstep =>
      cases hg
      cases hframe <;> cases hi
  | subscribeConstruct callback options hvalid =>
      cases hg
      cases hi
      exact .inr ⟨rfl, by simp⟩
  | _ => cases hg <;> first | exact .inl hi | cases hi

end Frames

namespace Dispatcher

/-- A frame stands on a thread where it belongs. -/
def Placed (setup : Setup T) (m : DispatcherMem Q) (t : T) : Frame T E → Prop
  | .worker _ => t ∈ setup.workers ∧ t ∉ m.threads.finished
  | .executor i _ => (m.subs i).executor = some t ∧ t ∈ setup.executors ∧ t ∉ m.threads.finished
  | f => ∀ i, f.constructs = some i → (m.subs i).executor = none

/-- A thread of the dispatcher runs nothing but its thread function and what that calls. -/
def Rooted (setup : Setup T) (t : T) (stack : List (Frame T E)) : Prop :=
  ¬ Client setup t → stack ≠ [] → ∃ f ∈ stack, f.base = true

/-- The invariant of the thread table. -/
structure ThreadInv (setup : Setup T) (s : Config T (DispatcherMem Q) (ThreadLoc Q)) : Prop where
  bottomed : ∀ t, Bottomed (s.loc t).stack
  placed : ∀ t, ∀ f ∈ (s.loc t).stack, Placed setup s.mem t f
  rooted : ∀ t, Rooted setup t (s.loc t).stack
  entries : ∀ t i, s.mem.threads.entry t = some i → (s.loc t).stack = [] ∧
    (s.mem.subs i).executor = some t ∧ t ∈ setup.executors ∧ t ∉ s.mem.threads.finished
  unstarted : ∀ t ∈ s.mem.threads.unstarted, (s.loc t).stack = [] ∧ t ∈ setup.executors ∧
    t ∉ s.mem.threads.finished ∧ s.mem.threads.entry t = none
  finished : ∀ t ∈ s.mem.threads.finished, (s.loc t).stack = [] ∧ ¬ Client setup t

/-- User code runs inside no `subscribe`. -/
theorem user_constructs {f : Frame T E} (h : f.user = true) : f.constructs = none := by
  unfold Frame.user at h
  split at h <;> first | rfl | cases h

/-- The return of user code leaves the kind of the frame alone. -/
theorem finishUser_base {f f' : Frame T E} {threw : Bool} (h : f.finishUser threw = some f') :
    f'.base = f.base ∧ f'.executes = f.executes ∧ f'.constructs = none := by
  unfold Frame.finishUser at h
  split at h <;> cases h <;> exact ⟨rfl, rfl, rfl⟩

/-- A call is not the base of its thread. -/
theorem enter_base {m m' : DispatcherMem Q} {call : Call T E} {f : Frame T E}
    (h : enter m call = some (m', f)) : f.base = false ∧ f.constructs = none := by
  cases call with
  | unsubscribe i | invoke i event =>
      simp only [enter] at h
      split at h <;> cases h
      exact ⟨rfl, rfl⟩
  | _ =>
      cases h
      exact ⟨rfl, rfl⟩

/-- A `subscribe` that constructs a subscriber holds `writer_mutex_`. -/
theorem locks_of_constructs {f : Frame T E} {i : ℕ} (h : f.constructs = some i) :
    f.locks = true := by
  unfold Frame.constructs at h
  split at h <;> first | rfl | cases h

/-- How a frame's place can be read off. -/
theorem placed_iff {setup : Setup T} {m : DispatcherMem Q} {t : T} {f : Frame T E} :
    Placed setup m t f ↔
      (f.base = true → f.executes = none → t ∈ setup.workers ∧ t ∉ m.threads.finished) ∧
      (∀ i, f.executes = some i →
        (m.subs i).executor = some t ∧ t ∈ setup.executors ∧ t ∉ m.threads.finished) ∧
      ∀ i, f.constructs = some i → (m.subs i).executor = none := by
  cases f with
  | worker phase => simp [Placed, Frame.base, Frame.executes, Frame.constructs]
  | executor i phase => simp [Placed, Frame.base, Frame.executes, Frame.constructs]
  | _ => simp [Placed, Frame.base, Frame.executes]

variable [DecidableEq T] {setup : Setup T} {t : T} {m m' : DispatcherMem Q} {l l' : ThreadLoc Q}
  {c : DispatcherChoice Q}

/-- What a step of a thread does to the executors. -/
theorem StepShape.executor_cases (h : StepShape setup t m l c m' l') (hm : Known m) (i : ℕ) :
    (m'.subs i).executor = (m.subs i).executor ∨
      ((m'.subs i).executor = none ∧ ∃ u ∈ m.threads.finished, (m.subs i).executor = some u) ∨
      ∃ u f rest, u ∈ m.threads.unstarted ∧ l.stack = f :: rest ∧ f.constructs = some i ∧
        (m'.subs i).executor = some u ∧ m' = m.spawn i u := by
  cases h with
  | call huser henter => exact .inl (by rw [(enter_holds henter i).2])
  | frame hstack hstep =>
      rcases hstep.executor_cases hm i with hsame | hjoined |
        ⟨u, hu, hconstructs, hexecutor, heq, _⟩
      · exact .inl hsame
      · exact .inr (.inl hjoined)
      · exact .inr (.inr ⟨u, _, _, hu, hstack, hconstructs, hexecutor, heq⟩)
  | _ => exact .inl rfl

/-- What a step of a thread does to the thread table. -/
theorem StepShape.threads_cases (h : StepShape setup t m l c m' l') :
    (m'.threads.finished = m.threads.finished ∧ m'.threads.unstarted = m.threads.unstarted ∧
      m'.threads.entry = m.threads.entry) ∨
      (∃ i, l.stack = [] ∧ m.threads.entry t = some i ∧ l'.stack = [.executor i .lockMailbox] ∧
        m'.threads = { m.threads with entry := Function.update m.threads.entry t none }) ∨
      (∃ f rest, l.stack = f :: rest ∧ f.base = true ∧ l'.stack = rest ∧ m' = m.finish t) ∨
      ∃ f i u, f ∈ l.stack ∧ f.constructs = some i ∧ u ∈ m.threads.unstarted ∧ m' = m.spawn i u := by
  cases h with
  | start hstack hentry => exact .inr (.inl ⟨_, hstack, hentry, rfl, rfl⟩)
  | call huser henter => exact .inl (by rw [(enter_mem henter).2]; exact ⟨rfl, rfl, rfl⟩)
  | frame hstack hstep =>
      rcases hstep.threads_cases with hsame | ⟨hbase, rfl, rfl⟩ |
        ⟨callback, options, id, next, u, rfl, rfl, hu, rfl⟩
      · exact .inl hsame
      · exact .inr (.inr (.inl ⟨_, _, hstack, hbase, rfl, rfl⟩))
      · exact .inr (.inr (.inr ⟨_, id, u, by rw [hstack]; exact List.mem_cons_self, rfl, hu, rfl⟩))
  | _ => exact .inl ⟨rfl, rfl, rfl⟩

/-- A thread with an empty stack moves only if it is a client or has been created. -/
theorem StepShape.idle_cases (h : StepShape setup t m l c m' l') (hstack : l.stack = []) :
    Client setup t ∨ (∃ i, m.threads.entry t = some i) ∧ m'.threads.entry t = none := by
  cases h with
  | constructed _ hclient => exact .inl hclient
  | start _ hentry => exact .inr ⟨⟨_, hentry⟩, by simp⟩
  | call huser =>
      rw [hstack] at huser
      exact .inl huser
  | finish htop | frame htop | queue htop =>
      rw [hstack] at htop
      cases htop

/-- Nobody else finishes in a step of `t`. -/
theorem StepShape.finished_of_ne (h : StepShape setup t m l c m' l') {u : T} (hut : u ≠ t)
    (hu : u ∈ m'.threads.finished) : u ∈ m.threads.finished := by
  rcases h.threads_cases with ⟨hsame, _⟩ | ⟨i, _, _, _, hthreads⟩ | ⟨f, rest, _, _, _, rfl⟩ |
    ⟨f, i, v, _, _, _, rfl⟩
  · rwa [hsame] at hu
  · rwa [hthreads] at hu
  · exact (Finset.mem_insert.mp hu).resolve_left hut
  · exact hu

/-- Thread functions stay at the bottom. -/
theorem StepShape.bottomed (h : StepShape setup t m l c m' l') (hl : Bottomed l.stack) :
    Bottomed l'.stack := by
  cases h with
  | constructed => exact hl
  | start hstack hentry => exact ⟨fun _ => rfl, trivial⟩
  | call huser henter =>
      refine ⟨?_, hl⟩
      rw [(enter_base henter).1]
      rintro ⟨⟩
  | finish hstack hfinish =>
      rw [hstack] at hl
      refine ⟨?_, hl.2⟩
      rw [(finishUser_base hfinish).1]
      exact hl.1
  | @frame _ _ _ _ _ f f' rest hstack hstep =>
      rw [hstack] at hl
      cases f' with
      | none => exact hl.2
      | some g =>
          refine ⟨?_, hl.2⟩
          rw [(hstep.base_eq g rfl).1]
          exact hl.1
  | queue => exact hl

/-- A thread of the dispatcher runs its own thread function to the end. -/
theorem StepShape.rooted (h : StepShape setup t m l c m' l') (hbottom : Bottomed l.stack)
    (hl : Rooted setup t l.stack) : Rooted setup t l'.stack := by
  intro hclient hne
  cases h with
  | constructed _ hmine => exact absurd hmine hclient
  | start hstack hentry => exact ⟨_, List.mem_singleton.mpr rfl, rfl⟩
  | call huser henter =>
      cases hstack : l.stack with
      | nil =>
          rw [hstack] at huser
          exact absurd huser hclient
      | cons top rest =>
          obtain ⟨f, hf, hbase⟩ := hl hclient (by rw [hstack]; simp)
          exact ⟨f, List.mem_cons_of_mem _ (by rw [← hstack]; exact hf), hbase⟩
  | finish hstack hfinish =>
      obtain ⟨f, hf, hbase⟩ := hl hclient (by rw [hstack]; simp)
      rw [hstack] at hf
      rcases List.mem_cons.mp hf with rfl | hf
      · exact ⟨_, List.mem_cons_self, by rw [(finishUser_base hfinish).1]; exact hbase⟩
      · exact ⟨f, List.mem_cons_of_mem _ hf, hbase⟩
  | @frame _ _ _ _ _ top top' rest hstack hstep =>
      obtain ⟨f, hf, hbase⟩ := hl hclient (by rw [hstack]; simp)
      rw [hstack] at hf hbottom
      rcases List.mem_cons.mp hf with rfl | hf
      · cases top' with
        | none =>
            rw [hbottom.1 hbase] at hne
            exact absurd rfl hne
        | some g => exact ⟨g, List.mem_cons_self, by rw [(hstep.base_eq g rfl).1]; exact hbase⟩
      · exact ⟨f, List.mem_append_right _ hf, hbase⟩
  | queue hstack => exact hl hclient (by rw [hstack]; simp)

omit [DecidableEq T] in
/-- A frame stays in its place. -/
theorem Placed.mono {u : T} {f : Frame T E} (h : Placed setup m u f)
    (hfinished : u ∉ m.threads.finished → u ∉ m'.threads.finished)
    (hexecutor : ∀ i, (m'.subs i).executor = (m.subs i).executor ∨
      ((m'.subs i).executor = none ∧ ∃ v ∈ m.threads.finished, (m.subs i).executor = some v) ∨
      ((m.subs i).executor = none ∧ f.constructs ≠ some i)) : Placed setup m' u f := by
  rw [placed_iff] at h ⊢
  obtain ⟨hworker, hexecutes, hconstructs⟩ := h
  refine ⟨fun hbase hnone => (hworker hbase hnone).imp_right hfinished, ?_, ?_⟩
  · intro i hi
    obtain ⟨hmine, hmem, hnot⟩ := hexecutes i hi
    refine ⟨?_, hmem, hfinished hnot⟩
    rcases hexecutor i with hsame | ⟨_, v, hv, hother⟩ | ⟨hnone, _⟩
    · rw [hsame, hmine]
    · rw [hmine] at hother
      cases hother
      exact absurd hv hnot
    · rw [hmine] at hnone
      cases hnone
  · intro i hi
    rcases hexecutor i with hsame | ⟨hnone, _⟩ | ⟨_, hne⟩
    · rw [hsame, hconstructs i hi]
    · exact hnone
    · exact absurd hi hne

omit [DecidableEq T] in
/-- An executor is the base of its thread. -/
theorem base_of_executes {f : Frame T E} {i : ℕ} (h : f.executes = some i) : f.base = true := by
  cases f <;> first | rfl | cases h

omit [DecidableEq T] in
/-- A frame inside the queue constructs nothing. -/
theorem inQueue_constructs {f : Frame T E} (h : f.inQueue = true) : f.constructs = none := by
  unfold Frame.inQueue at h
  split at h <;> first | rfl | cases h

/-- **Step lemma**, for the moving thread. -/
theorem StepShape.placed (h : StepShape setup t m l c m' l') (hm : Known m) (hl : InOrder l)
    (hbottom : Bottomed l.stack) (hbefore : ∀ f ∈ l.stack, Placed setup m t f)
    (hentry : ∀ i, m.threads.entry t = some i → Placed setup m t (.executor i .lockMailbox)) :
    ∀ f ∈ l'.stack, Placed setup m' t f := by
  by_cases hfinish : ∃ f rest, l.stack = f :: rest ∧ f.base = true ∧ l'.stack = rest ∧
      m' = m.finish t
  · -- the thread function was the bottom of the stack
    obtain ⟨f, rest, hstack, hbase, hstack', _⟩ := hfinish
    rw [hstack] at hbottom
    rw [hstack', hbottom.1 hbase]
    intro g hg
    cases hg
  have hfinished : m'.threads.finished = m.threads.finished := by
    rcases h.threads_cases with ⟨hsame, _⟩ | ⟨i, _, _, _, hthreads⟩ | hdone | ⟨f, i, u, _, _, _, rfl⟩
    · exact hsame
    · rw [hthreads]
    · exact absurd hdone hfinish
    · rfl
  have hkeep : t ∉ m.threads.finished → t ∉ m'.threads.finished := by
    rw [hfinished]
    exact id
  -- a frame that is constructing nothing keeps its place
  have hplain : ∀ f : Frame T E, f.constructs = none → Placed setup m t f → Placed setup m' t f := by
    intro f hf hplaced
    refine hplaced.mono hkeep ?_
    intro i
    rcases h.executor_cases hm i with hsame | hjoined | ⟨u, g, rest, _, hstack, hg, _⟩
    · exact .inl hsame
    · exact .inr (.inl hjoined)
    · refine .inr (.inr ⟨?_, by rw [hf]; simp⟩)
      exact (placed_iff.mp (hbefore g (by rw [hstack]; exact List.mem_cons_self))).2.2 i hg
  refine h.forall_frames hl hbefore ?_ ?_ ?_ ?_ ?_ ?_
  · intro f huser hf
    exact hplain f (user_constructs huser) hf
  · intro i hi
    exact hplain _ rfl (hentry i hi)
  · intro call f henter
    obtain ⟨hbase, hconstructs⟩ := enter_base henter
    rw [placed_iff, hbase, hconstructs]
    refine ⟨by simp, ?_, by simp⟩
    intro i hi
    rw [base_of_executes hi] at hbase
    cases hbase
  · intro f f' threw hdone hf
    obtain ⟨hbase, hexecutes, hconstructs⟩ := finishUser_base hdone
    refine hplain f' hconstructs ?_
    rw [placed_iff] at hf ⊢
    rw [hbase, hexecutes, hconstructs]
    exact ⟨hf.1, hf.2.1, by simp⟩
  · intro f hin hf
    exact hplain f (inQueue_constructs hin) hf
  · intro flag q q' contexts contexts' f f' hframe hf g hg
    obtain ⟨hbase, hexecutes⟩ := hframe.base_eq g hg
    have hf' := hf
    rw [placed_iff] at hf ⊢
    rw [hbase, hexecutes, hfinished]
    refine ⟨hf.1, ?_, ?_⟩
    · intro i hi
      obtain ⟨hmine, hmem, hnot⟩ := hf.2.1 i hi
      refine ⟨?_, hmem, hnot⟩
      rcases hframe.executor_cases hm i with hsame | ⟨_, v, hv, hother⟩ | ⟨u, _, hconstructs, _⟩
      · rw [hsame, hmine]
      · rw [hmine] at hother
        cases hother
        exact absurd hv hnot
      · have hnone := hf.2.2 i hconstructs
        rw [hmine] at hnone
        cases hnone
    · intro i hi
      rcases hframe.constructs_cases hg hi with hconstructs | ⟨_, hnone⟩
      · rcases hframe.executor_cases hm i with hsame | ⟨hnone, _⟩ | ⟨u, _, _, _, _, hnext⟩
        · rw [hsame, hf.2.2 i hconstructs]
        · exact hnone
        · rw [hnext g hg] at hi
          cases hi
      · exact hnone

section Step

variable {s : Config T (DispatcherMem Q) (ThreadLoc Q)}

namespace ThreadInv

omit [DecidableEq T] in
/-- A subscriber under construction has no executor yet. -/
theorem executor_of_constructs (hinv : ThreadInv setup s) {f : Frame T E}
    {rest : List (Frame T E)} {i : ℕ} (hstack : (s.loc t).stack = f :: rest)
    (hf : f.constructs = some i) : (s.mem.subs i).executor = none :=
  (placed_iff.mp (hinv.placed t f (by rw [hstack]; exact List.mem_cons_self))).2.2 i hf

/-- The executor of a thread that has not finished stays joinable. -/
theorem executor_stays (hinv : ThreadInv setup s) (h : StepShape setup t s.mem (s.loc t) c m' l')
    (hm : Known s.mem) {i : ℕ} {u : T} (hu : (s.mem.subs i).executor = some u)
    (hnot : u ∉ s.mem.threads.finished) : (m'.subs i).executor = some u := by
  rcases h.executor_cases hm i with hsame | ⟨_, v, hv, hother⟩ | ⟨v, f, rest, _, hstack, hf, _⟩
  · rw [hsame, hu]
  · rw [hu] at hother
    cases hother
    exact absurd hv hnot
  · rw [hinv.executor_of_constructs hstack hf] at hu
    cases hu

/-- A thread of the dispatcher with an empty stack does not move, unless it has just been
created. -/
theorem idle (hinv : ThreadInv setup s) (h : StepShape setup t s.mem (s.loc t) c m' l')
    (hstack : (s.loc t).stack = [])
    (howned : t ∈ setup.executors ∨ t ∈ s.mem.threads.finished) :
    (∃ i, s.mem.threads.entry t = some i) ∧ m'.threads.entry t = none := by
  rcases h.idle_cases hstack with hclient | hentry
  · rcases howned with hmem | hfinished
    · exact absurd hmem hclient.2
    · exact absurd hclient (hinv.finished t hfinished).2
  · exact hentry

/-- **Step lemma**, for the threads about to begin. -/
theorem entries_step (hinv : ThreadInv setup s) (h : StepShape setup t s.mem (s.loc t) c m' l')
    (hm : Known s.mem) (u : T) (i : ℕ) (hi : m'.threads.entry u = some i) :
    (Function.update s.loc t l' u).stack = [] ∧ (m'.subs i).executor = some u ∧
      u ∈ setup.executors ∧ u ∉ m'.threads.finished := by
  -- an entry of another thread that was there before
  have hold : s.mem.threads.entry u = some i → u ≠ t →
      (Function.update s.loc t l' u).stack = [] ∧ (m'.subs i).executor = some u ∧
        u ∈ setup.executors ∧ u ∉ m'.threads.finished := by
    intro hbefore hut
    obtain ⟨hstack, hexecutor, hmem, hnot⟩ := hinv.entries u i hbefore
    rw [Function.update_of_ne hut]
    exact ⟨hstack, hinv.executor_stays h hm hexecutor hnot, hmem,
      fun hin => hnot (h.finished_of_ne hut hin)⟩
  rcases h.threads_cases with ⟨_, _, hsame⟩ | ⟨j, hstack, _, _, hthreads⟩ |
    ⟨f, rest, hstack, _, _, rfl⟩ | ⟨f, j, v, hf, hconstructs, hv, rfl⟩
  · rw [hsame] at hi
    refine hold hi ?_
    rintro rfl
    obtain ⟨hstack, _, hmem, _⟩ := hinv.entries u i hi
    have hstart := (hinv.idle h hstack (.inl hmem)).2
    rw [hsame, hi] at hstart
    cases hstart
  · rw [hthreads] at hi
    have hut : u ≠ t := by
      rintro rfl
      simp at hi
    exact hold (by simpa [hut] using hi) hut
  · refine hold hi ?_
    rintro rfl
    rw [(hinv.entries u i hi).1] at hstack
    cases hstack
  · -- the new thread
    obtain ⟨hempty, hmem, hnot, _⟩ := hinv.unstarted v hv
    have hvt : v ≠ t := by
      rintro rfl
      rw [hempty] at hf
      cases hf
    by_cases huv : u = v
    · subst huv
      obtain rfl : j = i := by simpa using hi
      rw [Function.update_of_ne hvt]
      exact ⟨hempty, by simp, hmem, hnot⟩
    · have hbefore : s.mem.threads.entry u = some i := by
        simpa [Function.update_of_ne huv] using hi
      refine hold hbefore ?_
      rintro rfl
      rw [(hinv.entries u i hbefore).1] at hf
      cases hf

/-- **Step lemma**, for the threads never created. -/
theorem unstarted_step (hinv : ThreadInv setup s) (h : StepShape setup t s.mem (s.loc t) c m' l')
    (u : T) (hu : u ∈ m'.threads.unstarted) :
    (Function.update s.loc t l' u).stack = [] ∧ u ∈ setup.executors ∧
      u ∉ m'.threads.finished ∧ m'.threads.entry u = none := by
  have hbefore : u ∈ s.mem.threads.unstarted := by
    rcases h.threads_cases with ⟨_, hsame, _⟩ | ⟨j, _, _, _, hthreads⟩ | ⟨f, rest, _, _, _, rfl⟩ |
      ⟨f, j, v, _, _, _, rfl⟩
    · rwa [hsame] at hu
    · rwa [hthreads] at hu
    · exact hu
    · exact Finset.mem_of_mem_erase hu
  obtain ⟨hstack, hmem, hnot, hentry⟩ := hinv.unstarted u hbefore
  have hut : u ≠ t := by
    rintro rfl
    obtain ⟨i, hi⟩ := (hinv.idle h hstack (.inl hmem)).1
    rw [hentry] at hi
    cases hi
  rw [Function.update_of_ne hut]
  refine ⟨hstack, hmem, fun hin => hnot (h.finished_of_ne hut hin), ?_⟩
  rcases h.threads_cases with ⟨_, _, hsame⟩ | ⟨j, _, _, _, hthreads⟩ | ⟨f, rest, _, _, _, rfl⟩ |
    ⟨f, j, v, _, _, _, rfl⟩
  · rw [hsame, hentry]
  · rw [hthreads]
    simpa [hut] using hentry
  · exact hentry
  · have huv : u ≠ v := Finset.ne_of_mem_erase hu
    simpa [Function.update_of_ne huv] using hentry

/-- **Step lemma**, for the threads that have finished. -/
theorem finished_step (hinv : ThreadInv setup s) (h : StepShape setup t s.mem (s.loc t) c m' l')
    (u : T) (hu : u ∈ m'.threads.finished) :
    (Function.update s.loc t l' u).stack = [] ∧ ¬ Client setup u := by
  by_cases hbefore : u ∈ s.mem.threads.finished
  · obtain ⟨hstack, hnot⟩ := hinv.finished u hbefore
    have hut : u ≠ t := by
      rintro rfl
      obtain ⟨i, hi⟩ := (hinv.idle h hstack (.inr hbefore)).1
      exact absurd hbefore (hinv.entries u i hi).2.2.2
    rw [Function.update_of_ne hut]
    exact ⟨hstack, hnot⟩
  · rcases h.threads_cases with ⟨hsame, _⟩ | ⟨j, _, _, _, hthreads⟩ |
      ⟨f, rest, hstack, hbase, hstack', rfl⟩ | ⟨f, j, v, _, _, _, rfl⟩
    · rw [hsame] at hu
      exact absurd hu hbefore
    · rw [hthreads] at hu
      exact absurd hu hbefore
    · -- `t` has just returned from its thread function
      obtain rfl : u = t := (Finset.mem_insert.mp hu).resolve_right hbefore
      have hbottom := hinv.bottomed u
      have hplaced := hinv.placed u f (by rw [hstack]; exact List.mem_cons_self)
      rw [hstack] at hbottom
      rw [Function.update_self, hstack']
      refine ⟨hbottom.1 hbase, ?_⟩
      rintro ⟨hworker, hexecutor⟩
      cases f with
      | worker phase => exact hworker hplaced.1
      | executor i phase => exact hexecutor hplaced.2.1
      | _ => cases hbase
    · exact absurd hu hbefore

/-- The frames of the other threads stay in place: only one `subscribe` constructs at a
time. -/
theorem placed_of_ne [Fintype T] (hinv : ThreadInv setup s)
    (h : StepShape setup t s.mem (s.loc t) c m' l') (hm : Known s.mem) (hlife : LifeInv s) {u : T}
    (hut : u ≠ t) {f : Frame T E} (hf : f ∈ (s.loc u).stack) : Placed setup m' u f := by
  refine (hinv.placed u f hf).mono (fun hnot hin => hnot (h.finished_of_ne hut hin)) ?_
  intro i
  rcases h.executor_cases hm i with hsame | hjoined | ⟨v, g, rest, _, hstack, hg, _⟩
  · exact .inl hsame
  · exact .inr (.inl hjoined)
  · refine .inr (.inr ⟨hinv.executor_of_constructs hstack hg, ?_⟩)
    intro hfi
    have hmine := hlife.locked t g (by rw [hstack]; exact List.mem_cons_self)
      (locks_of_constructs hg)
    rw [hlife.locked u f hf (locks_of_constructs hfi)] at hmine
    exact hut (Option.some.inj hmine)

end ThreadInv

end Step

section Run

variable [Fintype T]
  {ok : Config T (DispatcherMem Q) (ThreadLoc Q) → T × DispatcherChoice Q → Prop}

/-- **Run lemma.** -/
theorem threadInv_reach : ∀ s, (system setup Q).Reach ok s → ThreadInv setup s := by
  refine interleave_invariant ?_ ?_
  · rintro s rfl
    refine ⟨?_, ?_, ?_, ?_, ?_, ?_⟩
    · intro t
      simp only [started]
      split
      · exact ⟨fun _ => rfl, trivial⟩
      · trivial
    · intro t f hf
      simp only [started] at hf
      split at hf
      · next hworker =>
          obtain rfl := List.mem_singleton.mp hf
          exact ⟨hworker, by simp [started]⟩
      · cases hf
    · intro t _ hne
      simp only [started] at hne ⊢
      split
      · exact ⟨_, List.mem_singleton.mpr rfl, rfl⟩
      · next hworker => simp [hworker] at hne
    · rintro t i ⟨⟩
    · intro t ht
      have hnot : t ∉ setup.workers := fun hworker => setup.disjoint t hworker ht
      exact ⟨by simp [started, hnot], ht, by simp [started], rfl⟩
    · intro t ht
      simp [started] at ht
  · intro s t c m l hreach hinv _ hstep
    have hshape := step_shape hstep
    have hknown := (allotted_reach s hreach).mem
    have horder := inOrder_reach s hreach t
    have hbottom := hshape.bottomed (hinv.bottomed t)
    have hplaced : ∀ f ∈ l.stack, Placed setup m t f := by
      refine hshape.placed hknown horder (hinv.bottomed t) (hinv.placed t) ?_
      intro i hi
      exact (hinv.entries t i hi).2
    refine ⟨?_, ?_, ?_, ?_, ?_, ?_⟩
    · exact (Function.forall_update_iff s.loc fun _ l => Bottomed l.stack).mpr
        ⟨hbottom, fun u _ => hinv.bottomed u⟩
    · refine (Function.forall_update_iff s.loc fun u l =>
        ∀ f ∈ l.stack, Placed setup m u f).mpr ⟨hplaced, ?_⟩
      intro u hut f hf
      exact hinv.placed_of_ne hshape hknown (lifeInv_reach s hreach) hut hf
    · exact (Function.forall_update_iff s.loc fun u l => Rooted setup u l.stack).mpr
        ⟨hshape.rooted (hinv.bottomed t) (hinv.rooted t), fun u _ => hinv.rooted u⟩
    · exact hinv.entries_step hshape hknown
    · exact hinv.unstarted_step hshape
    · exact hinv.finished_step hshape

end Run

end Dispatcher

end EventDispatcher
