import EventDispatcher.Dispatcher.ExecutorView
import EventDispatcher.Dispatcher.Registry
import EventDispatcher.Dispatcher.ShutdownGuard

/-!
# The executors a `shutdown` has joined

A thread runs at most one executor, and its subscriber is in the registry or about to be
(`ExecutorInv`).  A `shutdown` stops the subscribers of one snapshot and joins their
executors.  `JoinInv` says how far it has come with the subscribers that a property `P`
selects: those that are missing from the snapshot are not joined, so `P` has to be one
that they do not have.
-/

namespace EventDispatcher

open Transition SubscriberState

variable {T E : Type} {Q : QueuePolicy T (Publication E)}

/-- The executor of subscriber `i` has been started and has not finished. -/
def Alive (m : DispatcherMem Q) (i : ℕ) : Prop :=
  ∃ u, (m.subs i).executor = some u ∧ u ∉ m.threads.finished

/-- The phase of `stop_delivery` in which the executor has been joined. -/
def StopPhase.joined : StopPhase → Bool
  | .unlockJoin => true
  | .done => true
  | _ => false

/-- How far the call that brings the dispatcher down has come with the executors. -/
def ExecutorProgress (m : DispatcherMem Q) (P : ℕ → Prop) (policy : ShutdownPolicy) :
    ShutdownPhase T → Prop
  | .stop todo phase => ∀ i, P i → Alive m i →
      i ∈ todo ∧ (todo.head? = some i → phase.joined = false)
  | .joinWorkers _ => policy = .discard → ∀ i, P i → ¬ Alive m i
  | .storeStopped => ∀ i, P i → ¬ Alive m i
  | _ => True

/-- The same for any frame. -/
def Frame.Joins (m : DispatcherMem Q) (P : ℕ → Prop) : Frame T E → Prop
  | .shutdown policy phase => ExecutorProgress m P policy phase
  | _ => True

/-- The subscriber that the frame has constructed, with the options for it. -/
def Frame.builds : Frame T E → Option (ℕ × SubscriptionOptions)
  | .subscribe _ options (.filter id _ _) => some (id, options)
  | .subscribe _ options (.startExecutor id _) => some (id, options)
  | _ => none

/-- Progress is never lost. -/
theorem Frame.Joins.mono {m m' : DispatcherMem Q} {P P' : ℕ → Prop} {f : Frame T E}
    (h : f.Joins m P) (halive : ∀ i, Alive m' i → Alive m i) (hP : ∀ i, P' i → P i) :
    f.Joins m' P' := by
  cases f with
  | shutdown policy phase =>
      cases phase with
      | stop todo phase => exact fun i hi hlives => h i (hP i hi) (halive i hlives)
      | joinWorkers todo => exact fun hdiscard i hi hlives => h hdiscard i (hP i hi) (halive i hlives)
      | storeStopped => exact fun i hi hlives => h i (hP i hi) (halive i hlives)
      | _ => trivial
  | _ => trivial

theorem joins_of_not_owner {f : Frame T E} (h : f.owner = none) (P : ℕ → Prop)
    (m : DispatcherMem Q) : f.Joins m P := by
  cases f with
  | shutdown policy phase => cases phase <;> trivial
  | _ => trivial

section Frames

variable [DecidableEq T] {setup : Setup T} {flag : Bool} {t : T} {m m' : DispatcherMem Q}
  {q q' : Q.Loc} {contexts contexts' : Contexts} {f : Frame T E} {f' : Option (Frame T E)}

/-- Where an executor gets its thread. -/
theorem FrameStep.executor_started (h : FrameStep setup flag t m q contexts f m' q' contexts' f')
    (hm : Known m) {i : ℕ} (hnone : (m.subs i).executor = none)
    (hsome : (m'.subs i).executor ≠ none) :
    ∃ callback options next, f' = some (.subscribe callback options (.store i next)) := by
  rcases h.executor_cases hm i with hsame | ⟨hnone', _⟩ | ⟨u, hu, hf, _, heq, _⟩
  · exact absurd (hsame.trans hnone) hsome
  · exact absurd hnone' hsome
  · rcases h.threads_cases with ⟨_, hsame, _⟩ | ⟨_, _, hfinish⟩ |
      ⟨callback, options, id, next, v, rfl, rfl, _⟩
    · rw [heq] at hsame
      rw [← hsame] at hu
      simp at hu
    · rw [hfinish] at heq
      have hunstarted := congrArg (fun m => m.threads.unstarted) heq
      simp only [DispatcherMem.finish_threads_unstarted, DispatcherMem.spawn_threads_unstarted]
        at hunstarted
      rw [hunstarted] at hu
      simp at hu
    · cases hf
      exact ⟨callback, options, next, rfl⟩

/-- Only an isolated subscriber gets an executor. -/
theorem FrameStep.executor_isolated (h : FrameStep setup flag t m q contexts f m' q' contexts' f')
    {i : ℕ} {options : SubscriptionOptions} (hf : f.builds = some (i, options)) {u : T}
    (hspawn : m' = m.spawn i u) (hu : u ∈ m.threads.unstarted) : options.delivery = .isolated := by
  have hchanged : m'.threads.unstarted ≠ m.threads.unstarted := by
    intro hsame
    rw [← hsame, hspawn] at hu
    simp at hu
  cases h with
  | subscribeSpawn callback options id next hisolated =>
      cases hf
      exact hisolated
  | invoke hframe => cases hframe <;> cases hf
  | stop hframe => cases hframe <;> cases hf
  | _ => first | exact absurd rfl hchanged | cases hf

/-- A subscriber under construction has the options it was constructed with. -/
theorem FrameStep.builds_cases (h : FrameStep setup flag t m q contexts f m' q' contexts' f')
    {g : Frame T E} (hg : g ∈ f') {i : ℕ} {options : SubscriptionOptions}
    (hi : g.builds = some (i, options)) :
    (f.builds = some (i, options) ∧ m'.subs = m.subs) ∨ (m'.subs i).options = options := by
  cases h with
  | invoke hframe hstep => cases hframe <;> cases hg <;> cases hi
  | stop hframe hstep => cases hframe <;> cases hg <;> cases hi
  | subscribeConstruct callback options hvalid =>
      cases hg
      cases hi
      exact .inr (by simp)
  | _ => cases hg <;> first | exact .inl ⟨hi, rfl⟩ | cases hi

/-- **Step lemma** for a `shutdown`: the executors are joined one after the other. -/
theorem FrameStep.joins {P P' : ℕ → Prop}
    (h : FrameStep setup flag t m q contexts f m' q' contexts' f') (hf : f.Joins m P)
    (halive : ∀ i, Alive m' i → Alive m i) (hP : ∀ i, P' i → P i)
    (hisolated : ∀ i, (m.subs i).executor ≠ none → (m.subs i).options.delivery = .isolated)
    (hself : f.owner.isSome = true → ∀ i, (m.subs i).executor ≠ some t)
    (hload : ∀ policy, f = .shutdown policy .loadSnapshot → ∀ i, P i → Alive m i →
      i ∈ m.registry.current) : ∀ g ∈ f', g.Joins m' P' := by
  have hlives : ∀ {i}, Alive m' i → (m'.subs i).executor ≠ none := by
    rintro i ⟨u, hu, _⟩
    rw [hu]
    simp
  cases h with
  | invoke hframe hstep =>
      rintro g ⟨⟩
      cases hframe <;> trivial
  | @stop i drain _ hframe phase phase' s hstep =>
      rintro g ⟨⟩
      cases hframe with
      | unsubscribe self => trivial
      | shutdown policy todo =>
          intro j hj hlive
          obtain ⟨hmem, hhead⟩ := hf j (hP j hj) (halive j hlive)
          refine ⟨hmem, ?_⟩
          intro heq
          obtain rfl : i = j := Option.some.inj heq
          have hbefore := hhead rfl
          have hsome := hlives hlive
          have hsome' : s.executor ≠ none := by simpa using hsome
          cases hstep with
          | direct hdirect => exact absurd (hisolated i hsome') hdirect
          | joinNone hnone => exact absurd hnone hsome'
          | joinSelf hmine => exact absurd hmine (hself rfl i)
          | joined => exact absurd rfl hsome'
          | unlockJoin => cases hbefore
          | _ => rfl
  | loadSnapshot policy =>
      rintro g ⟨⟩ i hi hlive
      exact ⟨hload policy rfl i (hP i hi) (halive i hlive), fun _ => rfl⟩
  | drainStopped phase =>
      rintro g ⟨⟩ i hi hlive
      exact absurd (hf i (hP i hi) (halive i hlive)).1 (by simp)
  | discardStopped phase =>
      rintro g ⟨⟩ _ i hi hlive
      exact absurd (hf i (hP i hi) (halive i hlive)).1 (by simp)
  | stopNext policy i todo =>
      rintro g ⟨⟩ j hj hlive
      obtain ⟨hmem, hhead⟩ := hf j (hP j hj) (halive j hlive)
      rcases List.mem_cons.mp hmem with rfl | hmem
      · cases hhead rfl
      · exact ⟨hmem, fun _ => rfl⟩
  | joinWorker policy u todo hfinished =>
      rintro g ⟨⟩ hdiscard i hi hlive
      exact hf hdiscard i (hP i hi) (halive i hlive)
  | discardJoined =>
      rintro g ⟨⟩ i hi hlive
      exact hf rfl i (hP i hi) (halive i hlive)
  | closed hidle hlast => rintro g ⟨⟩ ⟨⟩
  | _ =>
      intro g hg
      cases hg <;> trivial

/-- A call that begins to bring the dispatcher down has joined nothing. -/
theorem FrameStep.joins_begin {P : ℕ → Prop}
    (h : FrameStep setup flag t m q contexts f m' q' contexts' f') (howner : f.owner = none) :
    ∀ g ∈ f', g.Joins m' P := by
  intro g hg
  obtain rfl : f' = some g := hg
  rcases h.owner_cases with ⟨_, hnone⟩ | ⟨hbefore, _, policy, hstate, _⟩ | ⟨hsome, _⟩
  · exact joins_of_not_owner (hnone.trans howner) P m'
  · rcases h.state_cases with hsame | ⟨_, _, policy', _, _, hnext⟩ | ⟨_, _, policy', _, hnext⟩
    · rw [← hsame, hstate] at hbefore
      cases policy <;> cases hbefore
    · cases hnext
      trivial
    · cases hnext
      trivial
  · rw [howner] at hsome
    cases hsome

end Frames

namespace Dispatcher

theorem builds_of_constructs {f : Frame T E} {i : ℕ} (h : f.constructs = some i) :
    ∃ options, f.builds = some (i, options) := by
  unfold Frame.constructs at h
  split at h <;> cases h <;> exact ⟨_, rfl⟩

theorem quiet_of_constructs {f : Frame T E} {i : ℕ} (h : f.constructs = some i) :
    f.user = false ∧ f.inQueue = false := by
  unfold Frame.constructs at h
  split at h <;> cases h <;> exact ⟨rfl, rfl⟩

theorem mem_ids_of_builds {f : Frame T E} {i : ℕ} {options : SubscriptionOptions}
    (h : f.builds = some (i, options)) : i ∈ f.ids := by
  unfold Frame.builds at h
  split at h <;> cases h <;> exact List.mem_cons_self

theorem user_builds {f : Frame T E} (h : f.user = true) : f.builds = none := by
  unfold Frame.user at h
  split at h <;> first | rfl | cases h

theorem finishUser_builds {f f' : Frame T E} {threw : Bool} (h : f.finishUser threw = some f') :
    f'.builds = none := by
  unfold Frame.finishUser at h
  split at h <;> cases h <;> rfl

theorem inQueue_builds {f : Frame T E} (h : f.inQueue = true) : f.builds = none := by
  unfold Frame.inQueue at h
  split at h <;> first | rfl | cases h

theorem enter_builds {m m' : DispatcherMem Q} {call : Call T E} {f : Frame T E}
    (h : enter m call = some (m', f)) : f.builds = none := by
  cases call with
  | unsubscribe i | invoke i event =>
      simp only [enter] at h
      split at h <;> cases h
      rfl
  | _ =>
      cases h
      rfl

/-- Who runs the executors. -/
structure ExecutorInv (setup : Setup T) (s : Config T (DispatcherMem Q) (ThreadLoc Q)) : Prop where
  owned : ∀ i u, (s.mem.subs i).executor = some u →
    u ∈ setup.executors ∧ u ∉ s.mem.threads.unstarted
  injective : ∀ i j u, (s.mem.subs i).executor = some u → (s.mem.subs j).executor = some u → i = j
  started : ∀ u ∈ setup.executors, u ∈ s.mem.threads.unstarted ∨ u ∈ s.mem.threads.finished ∨
    ∃ i, (s.mem.subs i).executor = some u
  isolated : ∀ i, (s.mem.subs i).executor ≠ none → (s.mem.subs i).options.delivery = .isolated
  building : ∀ t, ∀ f ∈ (s.loc t).stack, ∀ i options, f.builds = some (i, options) →
    (s.mem.subs i).options = options
  registered : ∀ i, (s.mem.subs i).executor ≠ none → i ∈ s.mem.history.published ∨
    ∃ t callback options next, .subscribe callback options (.store i next) ∈ (s.loc t).stack

variable [DecidableEq T] {setup : Setup T} {t : T} {m m' : DispatcherMem Q} {l l' : ThreadLoc Q}
  {c : DispatcherChoice Q}

/-- Where an executor gets its thread. -/
theorem StepShape.executor_started (h : StepShape setup t m l c m' l') (hm : Known m) {i : ℕ}
    (hnone : (m.subs i).executor = none) (hsome : (m'.subs i).executor ≠ none) :
    ∃ callback options next, .subscribe callback options (.store i next) ∈ l'.stack := by
  cases h with
  | call huser henter =>
      rw [(enter_holds henter i).2] at hsome
      exact absurd hnone hsome
  | frame hstack hstep =>
      obtain ⟨callback, options, next, rfl⟩ := hstep.executor_started hm hnone hsome
      exact ⟨callback, options, next, List.mem_cons_self⟩
  | _ => exact absurd hnone hsome

/-- A snapshot that is about to be stored is stored. -/
theorem StepShape.stored (h : StepShape setup t m l c m' l') (hl : InOrder l) {i : ℕ}
    {callback : Bool} {options : SubscriptionOptions} {next : List ℕ}
    (hmem : .subscribe callback options (.store i next) ∈ l.stack) :
    i ∈ m'.history.published := by
  cases hstack : l.stack with
  | nil =>
      rw [hstack] at hmem
      cases hmem
  | cons f rest =>
      rw [hstack] at hmem
      rcases List.mem_cons.mp hmem with rfl | hmem
      · obtain ⟨flag, q', contexts', f', hframe, rfl⟩ := h.top_frame hstack rfl rfl
        generalize hf : Frame.subscribe callback options (.store i next) = f at hframe
        cases hframe with
        | subscribeStore =>
            cases hf
            simp
        | invoke hinvoke => cases hinvoke <;> cases hf
        | stop hstop => cases hstop <;> cases hf
        | _ => cases hf
      · have huser := hl.suspended _ (by rw [hstack]; exact hmem)
        cases huser

/-- A thread leaves the executors that have not been started only by being started. -/
theorem StepShape.unstarted_cases (h : StepShape setup t m l c m' l') :
    m'.threads.unstarted = m.threads.unstarted ∨
      ∃ i u, u ∈ m.threads.unstarted ∧ m' = m.spawn i u := by
  rcases h.threads_cases with ⟨_, hsame, _⟩ | ⟨_, _, _, _, hthreads⟩ | ⟨_, _, _, _, _, rfl⟩ |
    ⟨_, i, u, _, _, hu, hspawn⟩
  · exact .inl hsame
  · rw [hthreads]
    exact .inl rfl
  · exact .inl rfl
  · exact .inr ⟨i, u, hu, hspawn⟩

section Run

variable {ok : Config T (DispatcherMem Q) (ThreadLoc Q) → T × DispatcherChoice Q → Prop}

/-- **Run lemma.** -/
theorem executorInv_reach [Fintype T] : ∀ s, (system setup Q).Reach ok s → ExecutorInv setup s := by
  refine interleave_invariant ?_ ?_
  · rintro s rfl
    refine ⟨by rintro i u ⟨⟩, by rintro i j u ⟨⟩, fun u hu => .inl hu, fun i hi => absurd rfl hi, ?_,
      fun i hi => absurd rfl hi⟩
    intro t f hf i options hi
    simp only [started] at hf
    split at hf
    · obtain rfl := List.mem_singleton.mp hf
      cases hi
    · cases hf
  · intro s t c m l hreach hinv _ hstep
    have hshape := step_shape hstep
    have hknown := (allotted_reach s hreach).mem
    have hthreads := threadInv_reach s hreach
    have hsubset : m.threads.unstarted ⊆ s.mem.threads.unstarted := by
      rcases hshape.unstarted_cases with hsame | ⟨i, u, _, rfl⟩
      · rw [hsame]
      · exact Finset.erase_subset _ _
    have hoptions : ∀ i, i < s.mem.registry.nextId → (m.subs i).options = (s.mem.subs i).options := by
      intro i hi
      obtain ⟨p, p', hpart, _⟩ := hshape.partStep hknown i
      exact hpart.options_eq.resolve_right hi.ne
    have hthere : ∀ {i}, (s.mem.subs i).executor ≠ none → i < s.mem.registry.nextId := by
      intro i hi
      by_contra hlt
      rw [hknown.fresh i (Nat.not_lt.mp hlt)] at hi
      exact hi rfl
    refine ⟨?_, ?_, ?_, ?_, ?_, ?_⟩
    · intro i u hu
      rcases hshape.executor_cases hknown i with hsame | ⟨hnone, _⟩ |
        ⟨v, f, rest, hv, _, _, hsome, hspawn⟩
      · obtain ⟨hmem, hnot⟩ := hinv.owned i u (by rw [← hsame]; exact hu)
        exact ⟨hmem, fun hin => hnot (hsubset hin)⟩
      · simp only [hnone] at hu
        cases hu
      · simp only [hsome, Option.some.injEq] at hu
        subst hu
        refine ⟨(hthreads.unstarted v hv).2.1, ?_⟩
        simp [hspawn]
    · intro i j u hi hj
      have hnew : ∀ {k v}, v ∈ s.mem.threads.unstarted → (s.mem.subs k).executor ≠ some v :=
        fun hv hk => (hinv.owned _ _ hk).2 hv
      rcases hshape.executor_cases hknown i with hsame | ⟨hnone, _⟩ |
        ⟨v, f, rest, hv, hstack, hf, hsome, _⟩
      · rcases hshape.executor_cases hknown j with hsame' | ⟨hnone', _⟩ |
          ⟨w, g, rest', hw, hstack', hg, hsome', _⟩
        · exact hinv.injective i j u (by rw [← hsame]; exact hi) (by rw [← hsame']; exact hj)
        · simp only [hnone'] at hj
          cases hj
        · simp only [hsome', Option.some.injEq] at hj
          subst hj
          exact absurd (by rw [← hsame]; exact hi) (hnew hw)
      · simp only [hnone] at hi
        cases hi
      · simp only [hsome, Option.some.injEq] at hi
        subst hi
        rcases hshape.executor_cases hknown j with hsame' | ⟨hnone', _⟩ |
          ⟨w, g, rest', hw, hstack', hg, hsome', _⟩
        · exact absurd (by rw [← hsame']; exact hj) (hnew hv)
        · simp only [hnone'] at hj
          cases hj
        · rw [hstack] at hstack'
          cases hstack'
          exact Option.some.inj (hf.symm.trans hg)
    · intro u hu
      rcases hinv.started u hu with hunstarted | hfinished | ⟨i, hi⟩
      · rcases hshape.unstarted_cases with hsame | ⟨i, v, _, rfl⟩
        · exact .inl (by rw [hsame]; exact hunstarted)
        · by_cases huv : u = v
          · subst huv
            exact .inr (.inr ⟨i, by simp⟩)
          · exact .inl (Finset.mem_erase.mpr ⟨huv, hunstarted⟩)
      · exact .inr (.inl (hshape.finished_subset hfinished))
      · by_cases hfinished : u ∈ s.mem.threads.finished
        · exact .inr (.inl (hshape.finished_subset hfinished))
        · exact .inr (.inr ⟨i, hthreads.executor_stays hshape hknown hi hfinished⟩)
    · intro i hi
      rcases hshape.executor_cases hknown i with hsame | ⟨hnone, _⟩ |
        ⟨u, f, rest, hu, hstack, hf, _, hspawn⟩
      · have hbefore : (s.mem.subs i).executor ≠ none := by
          rw [← hsame]
          exact hi
        rw [hoptions i (hthere hbefore)]
        exact hinv.isolated i hbefore
      · exact absurd hnone hi
      · have htop : f ∈ (s.loc t).stack := by
          rw [hstack]
          exact List.mem_cons_self
        obtain ⟨options, hbuilds⟩ := builds_of_constructs hf
        obtain ⟨flag, q', contexts', f', hframe, _⟩ :=
          hshape.top_frame hstack (quiet_of_constructs hf).1 (quiet_of_constructs hf).2
        have hdelivery := hframe.executor_isolated hbuilds hspawn hu
        rw [hspawn]
        simp [hinv.building t f htop i options hbuilds, hdelivery]
    · refine (Function.forall_update_iff s.loc fun _ l => ∀ f ∈ l.stack, ∀ i options,
        f.builds = some (i, options) → (m.subs i).options = options).mpr ⟨?_, ?_⟩
      · refine hshape.forall_frames (inOrder_reach s hreach t)
          (P := fun f => ∀ i options, f.builds = some (i, options) →
            (s.mem.subs i).options = options) (hinv.building t) ?_ ?_ ?_ ?_ ?_ ?_
        · intro f huser _ i options hi
          rw [user_builds huser] at hi
          cases hi
        · rintro i _ j options ⟨⟩
        · intro call f henter i options hi
          rw [enter_builds henter] at hi
          cases hi
        · intro f f' threw hfinish _ i options hi
          rw [finishUser_builds hfinish] at hi
          cases hi
        · intro f hin _ i options hi
          rw [inQueue_builds hin] at hi
          cases hi
        · intro flag q q' contexts contexts' f f' hframe hf g hg i options hi
          rcases hframe.builds_cases hg hi with ⟨hbefore, hsubs⟩ | hnow
          · rw [hsubs]
            exact hf i options hbefore
          · exact hnow
      · intro u _ f hf i options hi
        rw [hoptions i ((allotted_reach s hreach).frames u f hf i (mem_ids_of_builds hi))]
        exact hinv.building u f hf i options hi
    · intro i hi
      by_cases hnone : (s.mem.subs i).executor = none
      · obtain ⟨callback, options, next, hmem⟩ := hshape.executor_started hknown hnone hi
        exact .inr ⟨t, callback, options, next, by simpa using hmem⟩
      · rcases hinv.registered i hnone with hpublished | ⟨u, callback, options, next, hmem⟩
        · exact .inl (hshape.published_subset hpublished)
        · by_cases hut : u = t
          · subst hut
            exact .inl (hshape.stored (inOrder_reach s hreach u) hmem)
          · exact .inr ⟨u, callback, options, next, by simpa [Function.update_of_ne hut] using hmem⟩

/-- While the dispatcher is not running, no executor is started. -/
theorem alive_before [Fintype T] {s : Config T (DispatcherMem Q) (ThreadLoc Q)}
    (hs : (system setup Q).Reach ok s) (hstep : step setup t c s.mem (s.loc t) = some (m', l'))
    (hstate : s.mem.life.state ≠ .running) {i : ℕ} (hlive : Alive m' i) : Alive s.mem i := by
  have hshape := step_shape hstep
  obtain ⟨u, hu, hnot⟩ := hlive
  have hbefore : u ∉ s.mem.threads.finished := fun hfinished => hnot (hshape.finished_subset hfinished)
  rcases hshape.executor_cases (allotted_reach s hs).mem i with hsame | ⟨hnone, _⟩ |
    ⟨v, f, rest, _, hstack, hf, _, _⟩
  · exact ⟨u, by rw [← hsame]; exact hu, hbefore⟩
  · rw [hnone] at hu
    cases hu
  · have hrunning := (lifeInv_reach s hs).running t f (by rw [hstack]; exact List.mem_cons_self)
    refine absurd (hrunning ?_) hstate
    obtain ⟨options, hbuilds⟩ := builds_of_constructs hf
    unfold Frame.builds at hbuilds
    split at hbuilds <;> cases hbuilds <;> rfl

/-- The call that brings the dispatcher down, and the executors it has joined. -/
structure JoinInv (P : DispatcherMem Q → ℕ → Prop) (s : Config T (DispatcherMem Q) (ThreadLoc Q)) :
    Prop where
  progress : ∀ t, ∀ f ∈ (s.loc t).stack, f.Joins s.mem (P s.mem)
  stopped : s.mem.life.state = .stopped → ∀ i, P s.mem i → ¬ Alive s.mem i

/-- **Run lemma**, for any property of subscribers that is never gained and that only
subscribers of the snapshot have when it is loaded. -/
theorem joinInv_reach [Fintype T] {P : DispatcherMem Q → ℕ → Prop}
    (hclient : ∀ s, (system setup Q).Reach ok s → ∀ t, ∀ f ∈ (s.loc t).stack,
      f.owner.isSome = true → Client setup t)
    (hP : ∀ (s : Config T (DispatcherMem Q) (ThreadLoc Q)) t c m l, (system setup Q).Reach ok s →
      step setup t c s.mem (s.loc t) = some (m, l) → ∀ i, P m i → P s.mem i)
    (hload : ∀ (s : Config T (DispatcherMem Q) (ThreadLoc Q)) t c policy rest,
      (system setup Q).Reach ok s → ok s (t, c) →
      (s.loc t).stack = .shutdown policy .loadSnapshot :: rest →
      ∀ i, P s.mem i → Alive s.mem i → i ∈ s.mem.registry.current) :
    ∀ s, (system setup Q).Reach ok s → JoinInv P s := by
  refine interleave_invariant ?_ ?_
  · rintro s rfl
    refine ⟨?_, by rintro ⟨⟩⟩
    intro t f hf
    simp only [started] at hf
    split at hf
    · obtain rfl := List.mem_singleton.mp hf
      trivial
    · cases hf
  · intro s t c m l hreach hinv hok hstep
    have hshape := step_shape hstep
    have hlife := lifeInv_reach s hreach
    have hexecutor := executorInv_reach s hreach
    have hPs := hP s t c m l hreach hstep
    have hkept : s.mem.life.state ≠ .running → ∀ i, Alive m i → Alive s.mem i :=
      fun hstate i => alive_before hreach hstep hstate
    -- a frame with something to say stands in a dispatcher that has left `running`
    have howned : ∀ u, ∀ f ∈ (s.loc u).stack, f.owner.isSome = true →
        s.mem.life.state ≠ .running := by
      intro u f hf howner hrunning
      obtain ⟨policy, hpolicy⟩ := Option.isSome_iff_exists.mp howner
      have hstate := hlife.owned u f hf policy hpolicy
      rw [hrunning] at hstate
      cases policy <;> cases hstate
    have hstays : ∀ u, ∀ f ∈ (s.loc u).stack, f.Joins m (P m) := by
      intro u f hf
      cases howner : f.owner with
      | none => exact joins_of_not_owner howner _ _
      | some policy =>
          exact (hinv.progress u f hf).mono (hkept (howned u f hf (by rw [howner]; rfl))) hPs
    refine ⟨?_, ?_⟩
    · refine (Function.forall_update_iff s.loc fun _ l => ∀ f ∈ l.stack, f.Joins m (P m)).mpr
        ⟨?_, fun u _ => hstays u⟩
      intro g hg
      cases hshape with
      | constructed => exact hstays t g hg
      | start hstack =>
          obtain rfl := List.mem_singleton.mp hg
          trivial
      | call huser henter =>
          rcases List.mem_cons.mp hg with rfl | hg
          · exact joins_of_not_owner (enter_apart henter).1.owner _ _
          · exact hstays t g hg
      | finish hstack hfinish =>
          rcases List.mem_cons.mp hg with rfl | hg
          · exact joins_of_not_owner (finishUser_apart hfinish).owner _ _
          · exact hstays t g (by rw [hstack]; exact List.mem_cons_of_mem _ hg)
      | @frame _ _ _ _ _ f f' rest hstack hframe =>
          have htop : f ∈ (s.loc t).stack := by
            rw [hstack]
            exact List.mem_cons_self
          rcases List.mem_append.mp hg with hg | hg
          · cases howner : f.owner with
            | none => exact hframe.joins_begin howner g (by simpa using hg)
            | some policy =>
                have hsome : f.owner.isSome = true := by rw [howner]; rfl
                refine hframe.joins (hinv.progress t f htop) (hkept (howned t f htop hsome)) hPs
                  hexecutor.isolated ?_ ?_ g (by simpa using hg)
                · intro _ i hi
                  exact (hclient s hreach t f htop hsome).2 (hexecutor.owned i t hi).1
                · rintro policy rfl
                  exact hload s t _ policy rest hreach hok hstack
          · exact hstays t g (by rw [hstack]; exact List.mem_cons_of_mem _ hg)
      | queue hstack => exact hstays t g hg
    · intro hstopped i hi hlive
      rcases hshape.life_cases with hsame | ⟨hcreated, rfl, _⟩ |
        ⟨flag, f, f', rest, q, q', contexts, contexts', hstack, _, hframe⟩
      · have hbefore : s.mem.life.state = .stopped := by rw [← hsame]; exact hstopped
        refine hinv.stopped hbefore i (hPs i hi) (hkept (by rw [hbefore]; simp) i hlive)
      · cases hstopped
      · rcases hframe.state_cases with hsame | ⟨_, _, policy, _, hstate, _⟩ | ⟨_, _, policy, rfl, _⟩
        · have hbefore : s.mem.life.state = .stopped := by rw [← hsame]; exact hstopped
          refine hinv.stopped hbefore i (hPs i hi) (hkept (by rw [hbefore]; simp) i hlive)
        · rw [show m.life.state = .stopped from hstopped] at hstate
          cases policy <;> cases hstate
        · have htop : .shutdown policy .storeStopped ∈ (s.loc t).stack := by
            rw [hstack]
            exact List.mem_cons_self
          exact hinv.progress t _ htop i (hPs i hi) (hkept (howned t _ htop rfl) i hlive)

end Run

end Dispatcher

end EventDispatcher
