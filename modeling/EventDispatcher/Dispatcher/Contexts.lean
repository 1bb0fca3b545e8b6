import EventDispatcher.Dispatcher.Identifiers

/-!
# The `current_invocation_` chain

Only the top frame of a stack moves; the frames below it stand in user code.  The
thread-local chain of invocation contexts lists the callbacks on the stack, and the
`called_from_this_callback` of an `unsubscribe` on top says whether its subscriber is
among them.  All of this is about one thread: no step reads or changes it elsewhere.
-/

namespace EventDispatcher

open Transition SubscriberState

variable {T E : Type} {Q : QueuePolicy T (Publication E)}

/-- What the living `invocation_scope` has saved. -/
def CallbackPhase.scope : CallbackPhase → Option Contexts
  | .running previous => some previous
  | .countError previous => some previous
  | .leave previous _ => some previous
  | _ => none

/-- The stack that `callback_context` restores when `try_invoke` leaves its callback. -/
def InvokePhase.scope : InvokePhase → Option Contexts
  | .callback phase => phase.scope
  | _ => none

/-- The stack that `callback_context` restores when an executor leaves its callback. -/
def ExecutorPhase.scope {E : Type} : ExecutorPhase E → Option Contexts
  | .callback _ phase => phase.scope
  | _ => none

/-- The context that the frame has pushed, with the chain that it has saved. -/
def Frame.scope : Frame T E → Option (Option ℕ × Contexts)
  | .worker (.invoke _ _ _ _ i phase) => phase.scope.map fun previous => (some i, previous)
  | .executor i phase => phase.scope.map fun previous => (some i, previous)
  | .invoke i _ phase => phase.scope.map fun previous => (some i, previous)
  | .foreign (.running previous) => some (none, previous)
  | .foreign (.leave previous) => some (none, previous)
  | _ => none

/-- The subscriber of this dispatcher whose callback the frame is inside. -/
def Frame.callback (f : Frame T E) : Option ℕ := f.scope.bind Prod.fst

/-- With this scope the chain `contexts` stands on `base`. -/
def Encloses (contexts base : Contexts) : Option (Option ℕ × Contexts) → Prop
  | some (context, previous) => contexts = context :: previous ∧ base = previous
  | none => base = contexts

/-- The chain lists the callbacks on the stack. -/
def Chained : List (Frame T E) → Contexts → Prop
  | [], contexts => contexts = []
  | f :: rest, contexts => ∃ base, Encloses contexts base f.scope ∧ Chained rest base

/-- A callback that the chain lists is a frame of the stack. -/
theorem mem_of_chained {stack : List (Frame T E)} {contexts : Contexts} (h : Chained stack contexts)
    {i : ℕ} (hi : some i ∈ contexts) : ∃ f ∈ stack, f.callback = some i := by
  induction stack generalizing contexts with
  | nil =>
      rw [show contexts = [] from h] at hi
      cases hi
  | cons f rest ih =>
      obtain ⟨base, henc, hrest⟩ := h
      cases hscope : f.scope with
      | none =>
          rw [hscope] at henc
          obtain rfl : base = contexts := henc
          obtain ⟨g, hg, hcallback⟩ := ih hrest hi
          exact ⟨g, List.mem_cons_of_mem _ hg, hcallback⟩
      | some scope =>
          rw [hscope] at henc
          obtain ⟨rfl, rfl⟩ := henc
          rcases List.mem_cons.mp hi with heq | hi
          · exact ⟨f, List.mem_cons_self, by rw [Frame.callback, hscope]; exact heq.symm⟩
          · obtain ⟨g, hg, hcallback⟩ := ih hrest hi
            exact ⟨g, List.mem_cons_of_mem _ hg, hcallback⟩

section Steps

variable [DecidableEq T] {s s' : SubscriberState T E} {contexts contexts' base : Contexts}
  {flag : Bool} {t : T} {i : ℕ} {event : E}

omit [DecidableEq T] in
/-- A callback pushes its context when it enters and restores the chain when it
leaves. -/
theorem CallbackStep.encloses {phase phase' : CallbackPhase}
    (h : CallbackStep i s contexts event phase s' contexts' phase')
    (hbase : Encloses contexts base (phase.scope.map fun previous => (some i, previous))) :
    Encloses contexts' base (phase'.scope.map fun previous => (some i, previous)) := by
  cases h with
  | enter => exact ⟨rfl, hbase⟩
  | leave previous threw => exact hbase.2
  | _ => exact hbase

theorem InvokeStep.encloses {phase phase' : InvokePhase}
    (h : InvokeStep flag t i s contexts event phase s' contexts' phase')
    (hbase : Encloses contexts base (phase.scope.map fun previous => (some i, previous))) :
    Encloses contexts' base (phase'.scope.map fun previous => (some i, previous)) := by
  cases h with
  | callback hstep => exact hstep.encloses hbase
  | park hphase | overflow hphase | refused hphase | copyThrew hphase | mail hphase =>
      rcases hphase with rfl | ⟨rfl, _⟩ <;> exact hbase
  | _ => exact hbase

theorem ExecutorStep.encloses {phase phase' : ExecutorPhase E}
    (h : ExecutorStep t i s contexts phase s' contexts' phase')
    (hbase : Encloses contexts base (phase.scope.map fun previous => (some i, previous))) :
    Encloses contexts' base (phase'.scope.map fun previous => (some i, previous)) := by
  cases h with
  | callback hstep => exact hstep.encloses hbase
  | _ => exact hbase

end Steps

/-- `called_from_this_callback`, once `unsubscribe` has computed it. -/
def Frame.self : Frame T E → Option (ℕ × Bool)
  | .unsubscribe i (.retire self _) => some (i, self)
  | .unsubscribe i (.stop self _) => some (i, self)
  | .unsubscribe i .waitIdle => some (i, false)
  | .unsubscribe i .idleParked => some (i, false)
  | _ => none

/-- The state of one thread is in order. -/
structure InOrder (l : ThreadLoc Q) : Prop where
  suspended : ∀ f ∈ l.stack.tail, f.user = true
  chained : Chained l.stack l.contexts
  self : ∀ f rest i self, l.stack = f :: rest → f.self = some (i, self) →
    self = decide (some i ∈ l.contexts)

section Frames

variable [DecidableEq T] {setup : Setup T} {flag : Bool} {t : T} {m m' : DispatcherMem Q}
  {q q' : Q.Loc} {contexts contexts' base : Contexts} {f : Frame T E} {f' : Option (Frame T E)}

/-- The chain under the frame stays what it is. -/
theorem FrameStep.encloses (h : FrameStep setup flag t m q contexts f m' q' contexts' f')
    (hbase : Encloses contexts base f.scope) :
    Encloses contexts' base (f'.bind Frame.scope) := by
  cases h with
  | invoke hframe hstep =>
      cases hframe <;> exact hstep.encloses hbase
  | executor hstep => exact hstep.encloses hbase
  | stop hframe hstep => cases hframe <;> exact hbase
  | foreignEnter => exact ⟨rfl, hbase⟩
  | foreignLeave previous => exact hbase.2
  | _ => exact hbase

/-- `called_from_this_callback` is computed once. -/
theorem FrameStep.self_eq (h : FrameStep setup flag t m q contexts f m' q' contexts' f')
    (hself : ∀ i self, f.self = some (i, self) → self = decide (some i ∈ contexts)) :
    ∀ g ∈ f', ∀ i self, g.self = some (i, self) → self = decide (some i ∈ contexts') := by
  cases h with
  | invoke hframe hstep =>
      cases hframe <;>
        · intro g hg i self hg'
          cases hg
          cases hg'
  | executor hstep =>
      intro g hg i self hg'
      cases hg
      cases hg'
  | stop hframe hstep =>
      cases hframe with
      | unsubscribe self =>
          rintro g ⟨⟩
          exact hself
      | shutdown policy todo =>
          intro g hg i self hg'
          cases hg
          cases hg'
  | deactivate i | deactivateAgain i =>
      rintro g ⟨⟩ j self ⟨⟩
      rfl
  | foreignEnter =>
      rintro g ⟨⟩ i self ⟨⟩
  | _ =>
      intro g hg
      cases hg <;> exact hself

end Frames

namespace Dispatcher

theorem enter_entry {m m' : DispatcherMem Q} {call : Call T E} {f : Frame T E}
    (h : enter m call = some (m', f)) : f.scope = none ∧ f.self = none := by
  cases call with
  | unsubscribe i | invoke i event =>
      simp only [enter] at h
      split at h <;> cases h
      exact ⟨rfl, rfl⟩
  | _ =>
      cases h
      exact ⟨rfl, rfl⟩

theorem finishUser_scope {f f' : Frame T E} {threw : Bool} (h : f.finishUser threw = some f') :
    f'.scope = f.scope ∧ f'.self = none := by
  unfold Frame.finishUser at h
  split at h <;> cases h <;> cases threw <;> exact ⟨rfl, rfl⟩

theorem user_self {f : Frame T E} (h : f.user = true) : f.self = none := by
  unfold Frame.user at h
  split at h <;> first | rfl | cases h

variable [DecidableEq T] {setup : Setup T} {t : T} {m m' : DispatcherMem Q} {l l' : ThreadLoc Q}
  {c : DispatcherChoice Q}

/-- **Step lemma**, for a thread. -/
theorem StepShape.inOrder (h : StepShape setup t m l c m' l') (hl : InOrder l) : InOrder l' := by
  cases h with
  | constructed => exact hl
  | start hstack hentry =>
      have hchained := hl.chained
      rw [hstack] at hchained
      refine ⟨by simp, ⟨_, rfl, hchained⟩, ?_⟩
      rintro f rest i self ⟨⟩ ⟨⟩
  | call huser henter =>
      obtain ⟨hscope, hself⟩ := enter_entry henter
      refine ⟨?_, ⟨_, by rw [hscope]; rfl, hl.chained⟩, ?_⟩
      · intro f hf
        cases hstack : l.stack with
        | nil => simp [hstack] at hf
        | cons top rest =>
            rw [hstack] at huser
            have hsuspended := hl.suspended
            simp only [hstack, List.tail_cons] at hsuspended hf
            rcases List.mem_cons.mp hf with rfl | hf
            · exact huser
            · exact hsuspended f hf
      · rintro f rest i self ⟨⟩ hf
        rw [hself] at hf
        cases hf
  | finish hstack hfinish =>
      obtain ⟨hscope, hself⟩ := finishUser_scope hfinish
      obtain ⟨hsuspended, hchained, _⟩ := hl
      rw [hstack] at hsuspended hchained
      refine ⟨hsuspended, ?_, ?_⟩
      · obtain ⟨base, henc, hrest⟩ := hchained
        exact ⟨base, by rw [hscope]; exact henc, hrest⟩
      · rintro f rest i self ⟨⟩ hf
        rw [hself] at hf
        cases hf
  | @frame _ _ _ _ _ top top' rest hstack hstep =>
      obtain ⟨hsuspended, hchained, hself⟩ := hl
      rw [hstack] at hsuspended hchained
      obtain ⟨base, henc, hrest⟩ := hchained
      have henc' := hstep.encloses henc
      have hself' := hstep.self_eq fun i self => hself top rest i self hstack
      cases top' with
      | none =>
          obtain rfl : base = _ := henc'
          refine ⟨fun f hf => hsuspended f (List.mem_of_mem_tail hf), hrest, ?_⟩
          intro f rest' i self hrest' hf
          obtain rfl : rest = f :: rest' := hrest'
          rw [user_self (hsuspended f List.mem_cons_self)] at hf
          cases hf
      | some top' =>
          refine ⟨hsuspended, ⟨base, henc', hrest⟩, ?_⟩
          rintro f rest' i self ⟨⟩ hf
          exact hself' _ rfl i self hf
  | queue hstack hin hbusy hstep => exact ⟨hl.suspended, hl.chained, hl.self⟩

/-- **Frame rule**: what to show to carry a property of all the frames of the moving
thread over a step.  The frames below the top one stand in user code. -/
theorem StepShape.forall_frames {P P' : Frame T E → Prop} (h : StepShape setup t m l c m' l')
    (hl : InOrder l) (hbefore : ∀ f ∈ l.stack, P f)
    (hsuspended : ∀ f, f.user = true → P f → P' f)
    (hstart : ∀ i, m.threads.entry t = some i → P' (.executor i .lockMailbox))
    (hcall : ∀ call f, enter m call = some (m', f) → P' f)
    (hfinish : ∀ f f' threw, f.finishUser threw = some f' → P f → P' f')
    (hqueue : ∀ f, f.inQueue = true → P f → P' f)
    (hframe : ∀ {flag q q' contexts contexts' f f'}, FrameStep setup flag t m q contexts f m' q' contexts' f' →
      P f → ∀ g ∈ f', P' g) : ∀ f ∈ l'.stack, P' f := by
  have hrest : ∀ {top rest}, l.stack = top :: rest → ∀ f ∈ rest, P' f := by
    intro top rest hstack f hf
    have hsuspended' := hl.suspended
    rw [hstack] at hsuspended' hbefore
    exact hsuspended f (hsuspended' f hf) (hbefore f (List.mem_cons_of_mem _ hf))
  intro f hf
  cases h with
  | constructed hstack =>
      rw [hstack] at hf
      cases hf
  | start hstack hentry =>
      obtain rfl := List.mem_singleton.mp hf
      exact hstart _ hentry
  | call huser henter =>
      rcases List.mem_cons.mp hf with rfl | hf
      · exact hcall _ _ henter
      · cases hstack : l.stack with
        | nil =>
            rw [hstack] at hf
            cases hf
        | cons top rest =>
            rw [hstack] at hf huser
            rcases List.mem_cons.mp hf with rfl | hf
            · exact hsuspended f huser (hbefore f (by rw [hstack]; exact List.mem_cons_self))
            · exact hrest hstack f hf
  | finish hstack hdone =>
      rcases List.mem_cons.mp hf with rfl | hf
      · exact hfinish _ _ _ hdone (hbefore _ (by rw [hstack]; exact List.mem_cons_self))
      · exact hrest hstack f hf
  | frame hstack hstep =>
      rcases List.mem_append.mp hf with hf | hf
      · refine hframe hstep ?_ f (by simpa using hf)
        exact hbefore _ (by rw [hstack]; exact List.mem_cons_self)
      · exact hrest hstack f hf
  | queue hstack hin =>
      simp only [hstack] at hf
      rcases List.mem_cons.mp hf with rfl | hf
      · exact hqueue f hin (hbefore f (by rw [hstack]; exact List.mem_cons_self))
      · exact hrest hstack f hf

/-- A thread whose top frame is neither in user code nor in the queue takes a step of that
frame, with the flag of its label. -/
theorem StepShape.top_frame_flag (h : StepShape setup t m l c m' l') {f : Frame T E}
    {rest : List (Frame T E)} (hstack : l.stack = f :: rest) (huser : f.user = false)
    (hin : f.inQueue = false) :
    ∃ q' contexts' f', FrameStep setup c.flag t m l.queue l.contexts f m' q' contexts' f' ∧
      l' = ⟨q', contexts', f'.toList ++ rest⟩ := by
  cases h with
  | constructed hempty | start hempty =>
      rw [hstack] at hempty
      cases hempty
  | call hcode =>
      rw [hstack] at hcode
      rw [show f.user = true from hcode] at huser
      cases huser
  | finish htop hfinish =>
      rw [hstack] at htop
      cases htop
      unfold Frame.finishUser at hfinish
      split at hfinish <;> first | cases huser | cases hfinish
  | frame htop hstep =>
      rw [hstack] at htop
      cases htop
      exact ⟨_, _, _, hstep, rfl⟩
  | queue htop hqueue =>
      rw [hstack] at htop
      cases htop
      rw [hqueue] at hin
      cases hin

/-- The same where the flag does not matter. -/
theorem StepShape.top_frame (h : StepShape setup t m l c m' l') {f : Frame T E}
    {rest : List (Frame T E)} (hstack : l.stack = f :: rest) (huser : f.user = false)
    (hin : f.inQueue = false) :
    ∃ flag q' contexts' f', FrameStep setup flag t m l.queue l.contexts f m' q' contexts' f' ∧
      l' = ⟨q', contexts', f'.toList ++ rest⟩ :=
  ⟨c.flag, h.top_frame_flag hstack huser hin⟩

/-- **Run lemma.** -/
theorem inOrder_reach
    {ok : Config T (DispatcherMem Q) (ThreadLoc Q) → T × DispatcherChoice Q → Prop} :
    ∀ s, (system setup Q).Reach ok s → ∀ t, InOrder (s.loc t) := by
  refine interleave_invariant ?_ ?_
  · rintro s rfl t
    simp only [started]
    split
    · exact ⟨by simp, ⟨[], rfl, rfl⟩, by rintro f rest i self ⟨⟩ ⟨⟩⟩
    · exact ⟨by simp, rfl, by rintro f rest i self ⟨⟩⟩
  · intro s t c m l _ hinv _ hstep
    refine (Function.forall_update_iff s.loc fun _ l => InOrder l).mpr ⟨?_, ?_⟩
    · exact (step_shape hstep).inOrder (hinv t)
    · exact fun u _ => hinv u

/-- **Run rule** for a property of frames that comes from the calls that user code makes. -/
theorem frames_reach
    {ok : Config T (DispatcherMem Q) (ThreadLoc Q) → T × DispatcherChoice Q → Prop}
    {P : T → Frame T E → Prop} (hworker : ∀ t, P t (.worker (.callPop [])))
    (hexecutor : ∀ t i, P t (.executor i .lockMailbox))
    (hcall : ∀ (s : Config T (DispatcherMem Q) (ThreadLoc Q)) t call m f, ok s (t, .call call) →
      enter s.mem call = some (m, f) → P t f)
    (hfinish : ∀ t f f' threw, f.finishUser threw = some f' → P t f → P t f')
    (hframe : ∀ {flag t q q' contexts contexts' f f'} {m m' : DispatcherMem Q},
      FrameStep setup flag t m q contexts f m' q' contexts' f' → P t f → ∀ g ∈ f', P t g) :
    ∀ s, (system setup Q).Reach ok s → ∀ t, ∀ f ∈ (s.loc t).stack, P t f := by
  refine interleave_invariant ?_ ?_
  · rintro s rfl t f hf
    simp only [started] at hf
    split at hf
    · obtain rfl := List.mem_singleton.mp hf
      exact hworker t
    · cases hf
  · intro s t c m l _ hinv hok hstep
    refine (Function.forall_update_iff s.loc fun t l => ∀ f ∈ l.stack, P t f).mpr
      ⟨?_, fun u _ => hinv u⟩
    have hbefore := hinv t
    intro f hf
    cases step_shape hstep with
    | constructed | queue => exact hbefore f hf
    | start hstack =>
        obtain rfl := List.mem_singleton.mp hf
        exact hexecutor t _
    | call huser henter =>
        rcases List.mem_cons.mp hf with rfl | hf
        · exact hcall s t _ m f hok henter
        · exact hbefore f hf
    | finish hstack hdone =>
        rw [hstack] at hbefore
        rcases List.mem_cons.mp hf with rfl | hf
        · exact hfinish t _ f _ hdone (hbefore _ List.mem_cons_self)
        · exact hbefore f (List.mem_cons_of_mem _ hf)
    | frame hstack hmove =>
        rw [hstack] at hbefore
        rcases List.mem_append.mp hf with hf | hf
        · exact hframe hmove (hbefore _ List.mem_cons_self) f (by simpa using hf)
        · exact hbefore f (List.mem_cons_of_mem _ hf)

end Dispatcher

end EventDispatcher
