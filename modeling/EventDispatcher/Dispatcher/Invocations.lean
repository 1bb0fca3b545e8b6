import EventDispatcher.Dispatcher.Contexts
import EventDispatcher.Dispatcher.QueuePolicies

/-!
# Synchronous unsubscribe

`in_flight_` counts the invocations that `begin_invocation` has granted and
`finish_invocation` has not taken back: every step changes the counter by as much as
it changes the number of such frames (`Accounted`).  A subscriber that is inactive
stays so, and no invocation of it is granted any more.  So once an `unsubscribe` has
seen the counter at zero behind the deactivation, it stays at zero.

An `unsubscribe` skips that look only inside a callback of its own subscriber.
-/

namespace EventDispatcher

open Transition SubscriberState

variable {T E : Type} {Q : QueuePolicy T (Publication E)}

/-- Between `begin_invocation` and the critical section of `finish_invocation`. -/
def CallbackPhase.held : CallbackPhase → ℕ
  | .notifyIdle _ => 0
  | .done _ => 0
  | _ => 1

/-- The invocations that `try_invoke` holds. -/
def InvokePhase.held : InvokePhase → ℕ
  | .lockSerial => 1
  | .callback phase => phase.held
  | _ => 0

/-- The invocations that an executor holds. -/
def ExecutorPhase.held {E : Type} : ExecutorPhase E → ℕ
  | .callback _ phase => phase.held
  | _ => 0

/-- Where a context is pushed, an invocation is held. -/
theorem CallbackPhase.held_of_scope {phase : CallbackPhase} {previous : Contexts}
    (h : phase.scope = some previous) : phase.held = 1 := by
  cases phase <;> first | rfl | cases h

/-- The same inside `try_invoke`. -/
theorem InvokePhase.held_of_scope {phase : InvokePhase} {previous : Contexts}
    (h : phase.scope = some previous) : phase.held = 1 := by
  cases phase with
  | callback phase => exact CallbackPhase.held_of_scope h
  | _ => cases h

/-- The same on an executor. -/
theorem ExecutorPhase.held_of_scope {E : Type} {phase : ExecutorPhase E} {previous : Contexts}
    (h : phase.scope = some previous) : phase.held = 1 := by
  cases phase with
  | callback event phase => exact CallbackPhase.held_of_scope h
  | _ => cases h

/-- The invocations of subscriber `i` that the frame has been granted and has not
finished. -/
def Frame.holds (i : ℕ) : Frame T E → ℕ
  | .worker (.invoke _ _ _ _ j phase) => if j = i then phase.held else 0
  | .executor j phase => if j = i then phase.held else 0
  | .invoke j _ phase => if j = i then phase.held else 0
  | _ => 0

/-- The invocations of subscriber `i` under way on a thread. -/
def holdings (i : ℕ) (l : ThreadLoc Q) : ℕ := (l.stack.map (Frame.holds i)).sum

/-- The subscriber whose retirement closure the frame is running. -/
def Frame.retires : Frame T E → Option ℕ
  | .unsubscribe i (.retire _ _) => some i
  | _ => none

/-- The thread begins to run the retirement closure of subscriber `i`. -/
def StartsRetirement (i : ℕ) (l l' : ThreadLoc Q) : Prop :=
  l'.stack.head?.bind Frame.retires = some i ∧ l.stack.head?.bind Frame.retires ≠ some i

/-- The retirement closure is started with `retirement_started_`, and only then. -/
def RetiredOnce (s : SubscriberState T E) : Prop :=
  s.retirements = if s.retirementStarted then 1 else 0

/-- What a step can do to a subscriber while the invocations of it in the moving
frame change from `before` to `after`. -/
structure Accounted (s s' : SubscriberState T E) (before after : ℕ) : Prop where
  inFlight : s'.inFlight + before = s.inFlight + after
  inactive : s.active = false → s'.active = false ∧ s'.granted = s.granted ∧ after ≤ before
  retired : RetiredOnce s → RetiredOnce s'
  started : s.retirementStarted = true → s'.retirementStarted = true

namespace Accounted

variable {s s' : SubscriberState T E}

/-- A step that leaves the subscriber alone. -/
theorem refl (s : SubscriberState T E) (n : ℕ) : Accounted s s n n :=
  ⟨rfl, fun h => ⟨h, rfl, le_rfl⟩, id, id⟩

/-- A step that keeps the four fields. -/
theorem of_eq {before after : ℕ} (hheld : after = before)
    (hinFlight : s'.inFlight = s.inFlight) (hactive : s'.active = s.active)
    (hgranted : s'.granted = s.granted) (hretirements : s'.retirements = s.retirements)
    (hstarted : s'.retirementStarted = s.retirementStarted) : Accounted s s' before after :=
  ⟨by rw [hinFlight, hheld], fun h => ⟨by rw [hactive, h], hgranted, hheld.le⟩,
    fun h => by rw [RetiredOnce, hretirements, hstarted, h], fun h => by rw [hstarted, h]⟩

/-- The invocations of the frames below do not matter. -/
theorem add {before after : ℕ} (h : Accounted s s' before after) (n : ℕ) :
    Accounted s s' (before + n) (after + n) := by
  refine ⟨?_, ?_, h.retired, h.started⟩
  · have hinFlight := h.inFlight
    push_cast
    omega
  · intro hinactive
    obtain ⟨hactive, hgranted, hle⟩ := h.inactive hinactive
    exact ⟨hactive, hgranted, by omega⟩

/-- `begin_invocation` that succeeds. -/
theorem grant (hactive : s.active = true) : Accounted s s.grant 0 1 :=
  ⟨by simp, fun h => by simp [hactive] at h, id, id⟩

/-- `finish_invocation`. -/
theorem release (s : SubscriberState T E) : Accounted s s.release 1 0 :=
  ⟨by simp, fun h => ⟨h, rfl, by omega⟩, id, id⟩

/-- The first critical section of `unsubscribe`. -/
theorem deactivate (s : SubscriberState T E) (n : ℕ) : Accounted s s.deactivate n n := by
  refine ⟨rfl, fun _ => ⟨rfl, rfl, le_rfl⟩, ?_, fun _ => rfl⟩
  intro h
  unfold RetiredOnce at h ⊢
  rw [deactivate_retirements, deactivate_retirementStarted, h]
  cases s.retirementStarted <;> rfl

end Accounted

section Steps

variable [DecidableEq T] {s s' : SubscriberState T E} {contexts contexts' : Contexts}
  {flag : Bool} {t : T} {i : ℕ} {event : E}

omit [DecidableEq T] in
/-- **Step lemma**, for a callback. -/
theorem CallbackStep.accounted {phase phase' : CallbackPhase}
    (h : CallbackStep i s contexts event phase s' contexts' phase') :
    Accounted s s' phase.held phase'.held := by
  cases h with
  | finishIdle | finish => exact .release s
  | _ => exact .of_eq rfl rfl rfl rfl rfl rfl

/-- **Step lemma**, for `try_invoke`. -/
theorem InvokeStep.accounted {phase phase' : InvokePhase}
    (h : InvokeStep flag t i s contexts event phase s' contexts' phase') :
    Accounted s s' phase.held phase'.held := by
  cases h with
  | grantSerial hactive | grant hactive => exact .grant hactive
  | callback hstep => exact hstep.accounted
  | park hphase | overflow hphase | refused hphase | copyThrew hphase | mail hphase =>
      rcases hphase with rfl | ⟨rfl, _⟩ <;> exact .of_eq rfl rfl rfl rfl rfl rfl
  | _ => exact .of_eq rfl rfl rfl rfl rfl rfl

/-- **Step lemma**, for an executor. -/
theorem ExecutorStep.accounted {phase phase' : ExecutorPhase E}
    (h : ExecutorStep t i s contexts phase s' contexts' phase') :
    Accounted s s' phase.held phase'.held := by
  cases h with
  | grant event hactive => exact .grant hactive
  | callback hstep => exact hstep.accounted
  | _ => exact .of_eq rfl rfl rfl rfl rfl rfl

omit [DecidableEq T] in
/-- **Step lemma**, for `stop_delivery`. -/
theorem StopStep.accounted {finished : Finset T} {drain : Bool} {phase phase' : StopPhase}
    (h : StopStep t s finished drain phase s' phase') (n : ℕ) : Accounted s s' n n := by
  cases h with
  | stopMailbox =>
      unfold SubscriberState.stopMailbox
      split <;> exact .of_eq rfl rfl rfl rfl rfl rfl
  | _ => exact .of_eq rfl rfl rfl rfl rfl rfl

end Steps

section Frames

variable [DecidableEq T] {setup : Setup T} {flag : Bool} {t : T} {m m' : DispatcherMem Q}
  {q q' : Q.Loc} {contexts contexts' : Contexts} {f : Frame T E} {f' : Option (Frame T E)}

/-- The invocations of `i` in the frame that is left, if any. -/
def holdsNext (i : ℕ) (f' : Option (Frame T E)) : ℕ := (f'.toList.map (Frame.holds i)).sum

omit [DecidableEq T] in
/-- A write to one subscriber, seen from each. -/
theorem Accounted.setSub {i j : ℕ} {s : SubscriberState T (Publication E)} {before after : ℕ}
    (h : Accounted (m.subs j) s before after) :
    Accounted (m.subs i) ((m.setSub j s).subs i) (if j = i then before else 0)
      (if j = i then after else 0) := by
  by_cases hij : j = i
  · subst hij
    simpa using h
  · simpa [hij, Function.update_of_ne (Ne.symm hij)] using Accounted.refl (m.subs i) 0

/-- **Step lemma**, for the top frame. -/
theorem FrameStep.accounted (h : FrameStep setup flag t m q contexts f m' q' contexts' f')
    (hm : Known m) (i : ℕ) :
    Accounted (m.subs i) (m'.subs i) (f.holds i) (holdsNext i f') := by
  cases h with
  | invoke hframe hstep =>
      cases hframe <;>
        simpa [holdsNext, Frame.holds] using hstep.accounted.setSub
  | executor hstep => simpa [holdsNext, Frame.holds] using hstep.accounted.setSub
  | stop hframe hstep =>
      cases hframe <;> simpa [holdsNext, Frame.holds] using (hstep.accounted 0).setSub
  | subscribeConstruct callback options hvalid =>
      have hfresh := hm.fresh m.registry.nextId le_rfl
      have hnew : Accounted (m.allocateId.subs m.registry.nextId)
          ({ options := options } : SubscriberState T (Publication E)) 0 0 := by
        rw [DispatcherMem.allocateId_subs, hfresh]
        exact .of_eq rfl rfl rfl rfl rfl rfl
      simpa [holdsNext, Frame.holds] using hnew.setSub
  | subscribeSpawn callback options id next hisolated u hu =>
      have hnew : Accounted (m.subs id) ((m.subs id).startExecutor u) 0 0 :=
        .of_eq rfl rfl rfl rfl rfl rfl
      simpa [holdsNext, Frame.holds] using hnew.setSub
  | deactivate j | deactivateAgain j =>
      simpa [holdsNext, Frame.holds] using (Accounted.deactivate (m.subs j) 0).setSub
  | idlePark j | idleWake j =>
      have hnew : ∀ waiters, Accounted (m.subs j)
          { m.subs j with noCallbacks := waiters } 0 0 := fun _ => .of_eq rfl rfl rfl rfl rfl rfl
      simpa [holdsNext, Frame.holds] using (hnew _).setSub
  | publishCounted | publishNext =>
      simpa [holdsNext, Frame.holds] using Accounted.refl (m.subs i) 0
  | nextSub | invoked | invokeThrew | invokeReturned | executorDone =>
      simpa [holdsNext, Frame.holds, InvokePhase.held, ExecutorPhase.held] using
        Accounted.refl (m.subs i) 0
  | _ => exact .refl _ 0

/-- Whoever has come past the first critical section of `unsubscribe` has left the
subscriber inactive. -/
theorem FrameStep.deactivated (h : FrameStep setup flag t m q contexts f m' q' contexts' f') {i : ℕ}
    {self : Bool} (hself : ∃ g ∈ f', g.self = some (i, self)) :
    (∃ self', f.self = some (i, self')) ∨ (m'.subs i).active = false := by
  cases h with
  | invoke hframe hstep =>
      obtain ⟨g, hg, hself⟩ := hself
      cases hframe <;> cases hg <;> cases hself
  | stop hframe hstep =>
      obtain ⟨g, hg, hself⟩ := hself
      cases hframe <;> cases hg
      · exact .inl ⟨_, hself⟩
      · cases hself
  | deactivate j | deactivateAgain j =>
      obtain ⟨g, hg, hself⟩ := hself
      cases hg
      cases hself
      exact .inr (by simp)
  | stopDone j =>
      obtain ⟨g, hg, hself⟩ := hself
      cases hg
      cases hself
      exact .inl ⟨_, rfl⟩
  | _ =>
      obtain ⟨g, hg, hself⟩ := hself
      cases hg <;> exact .inl ⟨_, hself⟩

/-- The retirement closure is entered by the first `unsubscribe` that locks the state. -/
theorem FrameStep.retires_cases (h : FrameStep setup flag t m q contexts f m' q' contexts' f')
    {i : ℕ} (hretires : ∃ g ∈ f', g.retires = some i) :
    f.retires = some i ∨
      ((m.subs i).retirementStarted = false ∧ (m'.subs i).retirementStarted = true) := by
  obtain ⟨g, hg, hretires⟩ := hretires
  cases h with
  | invoke hframe hstep => cases hframe <;> cases hg <;> cases hretires
  | stop hframe hstep => cases hframe <;> cases hg <;> cases hretires
  | deactivate j hfirst =>
      cases hg
      cases hretires
      exact .inr ⟨hfirst, by simp⟩
  | _ => cases hg <;> first | exact .inl hretires | cases hretires

end Frames

namespace Dispatcher

variable [DecidableEq T] {setup : Setup T} {t : T} {m m' : DispatcherMem Q} {l l' : ThreadLoc Q}
  {c : DispatcherChoice Q}

omit [DecidableEq T] in
/-- A call begins without an invocation. -/
theorem enter_holds {call : Call T E} {f : Frame T E} (h : enter m call = some (m', f)) (i : ℕ) :
    f.holds i = 0 ∧ m'.subs i = m.subs i := by
  cases call with
  | unsubscribe j =>
      simp only [enter] at h
      split at h <;> cases h
      exact ⟨rfl, rfl⟩
  | invoke j event =>
      simp only [enter] at h
      split at h <;> cases h
      exact ⟨by simp [Frame.holds, InvokePhase.held], rfl⟩
  | _ =>
      cases h
      exact ⟨rfl, rfl⟩

omit [DecidableEq T] in
/-- The return of user code keeps the invocation. -/
theorem finishUser_holds {f f' : Frame T E} {threw : Bool} (h : f.finishUser threw = some f')
    (i : ℕ) : f'.holds i = f.holds i := by
  unfold Frame.finishUser at h
  split at h <;> cases h <;> cases threw <;> rfl

/-- **Step lemma**, for a thread. -/
theorem StepShape.accounted (h : StepShape setup t m l c m' l') (hm : Known m) (i : ℕ) :
    Accounted (m.subs i) (m'.subs i) (holdings i l) (holdings i l') := by
  cases h with
  | constructed => exact .refl _ _
  | start hstack hentry =>
      simp only [holdings, hstack]
      simpa [Frame.holds, ExecutorPhase.held] using Accounted.refl (m.subs i) 0
  | call huser henter =>
      obtain ⟨hholds, hsubs⟩ := enter_holds henter i
      simp only [holdings, List.map_cons, List.sum_cons, hholds, hsubs, zero_add]
      exact .refl _ _
  | finish hstack hfinish =>
      simp only [holdings, hstack, List.map_cons, List.sum_cons, finishUser_holds hfinish i]
      exact .refl _ _
  | frame hstack hstep =>
      have hframe := hstep.accounted hm i
      simp only [holdings, hstack, List.map_cons, List.sum_cons, List.map_append, List.sum_append]
      exact hframe.add _
  | queue => exact .refl _ _

/-- Who has looked at its own thread in `unsubscribe` has deactivated the subscriber. -/
theorem StepShape.deactivated (h : StepShape setup t m l c m' l') (hm : Known m)
    (hl : ∀ f ∈ l.stack, ∀ i self, f.self = some (i, self) → (m.subs i).active = false) :
    ∀ f ∈ l'.stack, ∀ i self, f.self = some (i, self) → (m'.subs i).active = false := by
  have hstable : ∀ i, (m.subs i).active = false → (m'.subs i).active = false :=
    fun i hi => ((h.accounted hm i).inactive hi).1
  intro f hf i self hself
  cases h with
  | constructed => exact hl f hf i self hself
  | start hstack hentry =>
      obtain rfl := List.mem_singleton.mp hf
      cases hself
  | call huser henter =>
      rcases List.mem_cons.mp hf with rfl | hf
      · rw [(enter_entry henter).2] at hself
        cases hself
      · exact hstable i (hl f hf i self hself)
  | finish hstack hfinish =>
      rcases List.mem_cons.mp hf with rfl | hf
      · rw [(finishUser_scope hfinish).2] at hself
        cases hself
      · exact hstable i (hl f (by rw [hstack]; exact List.mem_cons_of_mem _ hf) i self hself)
  | frame hstack hstep =>
      rw [hstack] at hl
      rcases List.mem_append.mp hf with hf | hf
      · rcases hstep.deactivated ⟨f, by simpa using hf, hself⟩ with ⟨self', hbefore⟩ | hnow
        · exact hstable i (hl _ List.mem_cons_self i self' hbefore)
        · exact hnow
      · exact hstable i (hl f (List.mem_cons_of_mem _ hf) i self hself)
  | queue => exact hl f hf i self hself

omit [DecidableEq T] in
/-- The retirement closure runs behind the look at the own thread. -/
theorem retires_self {f : Frame T E} {i : ℕ} (h : f.retires = some i) :
    ∃ self, f.self = some (i, self) := by
  unfold Frame.retires at h
  split at h
  · cases h
    exact ⟨_, rfl⟩
  · cases h

/-- **Step lemma**: a thread begins to run the retirement closure with
`retirement_started_`. -/
theorem StepShape.startsRetirement (h : StepShape setup t m l c m' l') (hl : InOrder l) {i : ℕ}
    (hstarts : StartsRetirement i l l') :
    (m.subs i).retirementStarted = false ∧ (m'.subs i).retirementStarted = true := by
  obtain ⟨hnow, hbefore⟩ := hstarts
  have hself : ∀ f : Frame T E, f.self = none → f.retires ≠ some i := by
    intro f hnone hretires
    obtain ⟨self, hsome⟩ := retires_self hretires
    rw [hnone] at hsome
    cases hsome
  cases h with
  | constructed | queue => exact absurd hnow hbefore
  | start => cases hnow
  | call huser henter => exact absurd hnow (hself _ (enter_entry henter).2)
  | finish hstack hfinish => exact absurd hnow (hself _ (finishUser_scope hfinish).2)
  | @frame _ _ _ _ _ top top' rest hstack hstep =>
      rw [hstack] at hbefore
      cases top' with
      | some g => exact (hstep.retires_cases ⟨g, rfl, hnow⟩).resolve_left hbefore
      | none =>
          -- what a returned frame uncovers is user code
          obtain ⟨g, hg, hretires⟩ := Option.bind_eq_some_iff.mp hnow
          have huser : g.user = true := by
            apply hl.suspended
            rw [hstack]
            exact List.mem_of_mem_head? hg
          exact absurd hretires (hself g (user_self huser))

omit [DecidableEq T] in
/-- A callback runs inside an invocation that was granted. -/
theorem holds_of_callback {f : Frame T E} {i : ℕ} (h : f.callback = some i) : f.holds i = 1 := by
  cases f with
  | worker phase =>
      cases phase with
      | invoke snapshot subs event events j phase =>
          obtain ⟨scope, hscope, hi⟩ := Option.bind_eq_some_iff.mp h
          obtain ⟨previous, hprevious, rfl⟩ := Option.map_eq_some_iff.mp hscope
          cases hi
          simp [Frame.holds, InvokePhase.held_of_scope hprevious]
      | _ => cases h
  | executor j phase =>
      obtain ⟨scope, hscope, hi⟩ := Option.bind_eq_some_iff.mp h
      obtain ⟨previous, hprevious, rfl⟩ := Option.map_eq_some_iff.mp hscope
      cases hi
      simp [Frame.holds, ExecutorPhase.held_of_scope hprevious]
  | invoke j event phase =>
      obtain ⟨scope, hscope, hi⟩ := Option.bind_eq_some_iff.mp h
      obtain ⟨previous, hprevious, rfl⟩ := Option.map_eq_some_iff.mp hscope
      cases hi
      simp [Frame.holds, InvokePhase.held_of_scope hprevious]
  | foreign phase => cases phase <;> cases h
  | _ => cases h

/-- The first critical section of `unsubscribe` leaves the subscriber inactive. -/
theorem deactivate_inactive {i : ℕ} {rest : List (Frame T E)}
    (hstack : l.stack = .unsubscribe i .deactivate :: rest)
    (hstep : step setup t c m l = some (m', l')) : (m'.subs i).active = false := by
  obtain ⟨flag, q', contexts', top', hframe, rfl⟩ := (step_shape hstep).top_frame hstack rfl rfl
  generalize hf : Frame.unsubscribe i .deactivate = f at hframe
  cases hframe with
  | deactivate j | deactivateAgain j =>
      cases hf
      simp
  | invoke hinvoke => cases hinvoke <;> cases hf
  | stop hstop => cases hstop <;> cases hf
  | _ => cases hf

section Run

variable [Fintype T] {s s' : Config T (DispatcherMem Q) (ThreadLoc Q)}
  {ok : Config T (DispatcherMem Q) (ThreadLoc Q) → T × DispatcherChoice Q → Prop}

/-- The bookkeeping of invocations and retirements. -/
structure InvocationInv (s : Config T (DispatcherMem Q) (ThreadLoc Q)) : Prop where
  counted : ∀ i, (s.mem.subs i).inFlight = (tally (holdings i) s.loc : ℕ)
  retired : ∀ i, RetiredOnce (s.mem.subs i)
  deactivated : ∀ t, ∀ f ∈ (s.loc t).stack, ∀ i self, f.self = some (i, self) →
    (s.mem.subs i).active = false

/-- **Run lemma.** -/
theorem invocationInv_reach : ∀ s, (system setup Q).Reach ok s → InvocationInv s := by
  refine interleave_invariant ?_ ?_
  · rintro s rfl
    refine ⟨?_, fun _ => rfl, ?_⟩
    · intro i
      rw [tally_eq_zero]
      · rfl
      · intro t
        simp only [started, holdings]
        split <;> rfl
    · intro t f hf
      simp only [started] at hf
      split at hf
      · obtain rfl := List.mem_singleton.mp hf
        rintro i self ⟨⟩
      · cases hf
  · intro s t c m l hreach hinv _ hstep
    have hknown := (allotted_reach s hreach).mem
    have hshape := step_shape hstep
    refine ⟨?_, ?_, ?_⟩
    · intro i
      have hinFlight := (hshape.accounted hknown i).inFlight
      have htally := tally_update (holdings i) s.loc t l
      have hcounted := hinv.counted i
      simp only
      omega
    · exact fun i => (hshape.accounted hknown i).retired (hinv.retired i)
    · refine (Function.forall_update_iff s.loc fun _ l => ∀ f ∈ l.stack, ∀ i self,
        f.self = some (i, self) → (m.subs i).active = false).mpr ⟨?_, ?_⟩
      · exact hshape.deactivated hknown (hinv.deactivated t)
      · intro u _ f hf i self hself
        exact ((hshape.accounted hknown i).inactive (hinv.deactivated u f hf i self hself)).1

omit [Fintype T] in
/-- Deactivation is for good: no invocation is granted from then on. -/
theorem inactive_steps {i : ℕ} (hs : (system setup Q).Reach ok s)
    (hlater : (system setup Q).Steps ok s s') (hinactive : (s.mem.subs i).active = false) :
    (s'.mem.subs i).active = false ∧ (s'.mem.subs i).granted = (s.mem.subs i).granted := by
  refine System.Steps.stable (I := fun s' => (s'.mem.subs i).active = false ∧
    (s'.mem.subs i).granted = (s.mem.subs i).granted) ?_ hs hlater ⟨hinactive, rfl⟩
  rintro m ⟨t, c⟩ m' hreach ⟨hactive, hgranted⟩ _ hstep
  obtain ⟨mem, l, hprog, rfl⟩ := Config.step_eq_some hstep
  obtain ⟨hactive', hgranted', _⟩ :=
    ((step_shape hprog).accounted (allotted_reach m hreach).mem i).inactive hactive
  exact ⟨hactive', hgranted'.trans hgranted⟩

omit [Fintype T] in
/-- `retirement_started_` is never taken back. -/
theorem started_steps {i : ℕ} (hs : (system setup Q).Reach ok s)
    (hlater : (system setup Q).Steps ok s s')
    (hstarted : (s.mem.subs i).retirementStarted = true) :
    (s'.mem.subs i).retirementStarted = true := by
  refine System.Steps.stable (I := fun s => (s.mem.subs i).retirementStarted = true) ?_ hs hlater
    hstarted
  rintro m ⟨t, c⟩ m' hreach hstarted _ hstep
  obtain ⟨mem, l, hprog, rfl⟩ := Config.step_eq_some hstep
  exact ((step_shape hprog).accounted (allotted_reach m hreach).mem i).started hstarted

omit [Fintype T] in
/-- No thread gets an invocation of an inactive subscriber. -/
theorem holdings_le {i : ℕ} {c : DispatcherChoice Q} (hs : (system setup Q).Reach ok s)
    (hinactive : (s.mem.subs i).active = false)
    (hstep : (system setup Q).step s (t, c) = some s') (u : T) :
    holdings i (s'.loc u) ≤ holdings i (s.loc u) := by
  obtain ⟨m, l, hprog, rfl⟩ := Config.step_eq_some hstep
  by_cases hut : u = t
  · subst hut
    simp only [Function.update_self]
    exact (((step_shape hprog).accounted (allotted_reach s hs).mem i).inactive hinactive).2.2
  · simp only [Function.update_of_ne hut]
    exact le_rfl

/-- An inactive subscriber without invocations stays without. -/
theorem idle_steps {i : ℕ} (hs : (system setup Q).Reach ok s)
    (hlater : (system setup Q).Steps ok s s') (hinactive : (s.mem.subs i).active = false)
    (hidle : (s.mem.subs i).inFlight = 0) : (s'.mem.subs i).inFlight = 0 := by
  refine (System.Steps.stable (I := fun s' => (s'.mem.subs i).active = false ∧
    (s'.mem.subs i).inFlight = 0) ?_ hs hlater ⟨hinactive, hidle⟩).2
  rintro m ⟨t, c⟩ m' hreach ⟨hactive, hzero⟩ _ hstep
  obtain ⟨mem, l, hprog, rfl⟩ := Config.step_eq_some hstep
  have haccounted := (step_shape hprog).accounted (allotted_reach m hreach).mem i
  obtain ⟨hactive', _, hle⟩ := haccounted.inactive hactive
  refine ⟨hactive', ?_⟩
  have hinFlight := haccounted.inFlight
  have hcounted := (invocationInv_reach m hreach).counted i
  have hthread := le_tally (holdings i) m.loc t
  simp only
  omega

omit [Fintype T] in
/-- An `unsubscribe` made outside the callbacks of its subscriber returns from its
look at the counter. -/
theorem unsubscribe_returned {i : ℕ} {c : DispatcherChoice Q} {phase : UnsubscribePhase}
    {rest : List (Frame T E)} (hl : InOrder l) (hstack : l.stack = .unsubscribe i phase :: rest)
    (hstep : step setup t c m l = some (m', l')) (hreturned : l'.stack = rest)
    (houtside : ∀ f ∈ rest, f.callback ≠ some i) :
    phase = .waitIdle ∧ (m.subs i).inFlight = 0 ∧ m' = m := by
  obtain ⟨flag, q', contexts', top', hframe, rfl⟩ := (step_shape hstep).top_frame hstack rfl rfl
  have hnone : top' = none := by
    cases top' with
    | none => rfl
    | some top' => simp at hreturned
  subst hnone
  generalize hf : Frame.unsubscribe i phase = f at hframe
  cases hframe with
  | selfReturned j =>
      cases hf
      have hself := hl.self _ _ i true hstack rfl
      obtain ⟨f, hf, hcallback⟩ := mem_of_chained hl.chained (of_decide_eq_true hself.symm)
      rw [hstack] at hf
      rcases List.mem_cons.mp hf with rfl | hf
      · cases hcallback
      · exact absurd hcallback (houtside f hf)
  | idleReturned j hidle =>
      cases hf
      exact ⟨rfl, hidle, rfl⟩
  | _ => cases hf

/-- **Synchronous unsubscribe**, for subscriber `i` in the state `s`. -/
structure SynchronousUnsubscribe (setup : Setup T) (i : ℕ)
    (s : Config T (DispatcherMem Q) (ThreadLoc Q)) : Prop where
  /-- `in_flight_` is the number of invocations granted and not finished -/
  counted : (s.mem.subs i).inFlight = (tally (holdings i) s.loc : ℕ)
  /-- once some thread has begun to run the retirement closure, none ever does again -/
  retiredOnce : ∀ t c s₁ s₂ u c' s₃, (system setup Q).step s (t, c) = some s₁ →
    StartsRetirement i (s.loc t) (s₁.loc t) →
    (system setup Q).Steps (fun _ _ => True) s₁ s₂ →
    (system setup Q).step s₂ (u, c') = some s₃ → ¬ StartsRetirement i (s₂.loc u) (s₃.loc u)
  retirements : (s.mem.subs i).retirements ≤ 1
  /-- no `begin_invocation` succeeds behind the first critical section of an
  `unsubscribe`, and no thread gets another invocation -/
  closed : ∀ t c rest s₁ s₂, (s.loc t).stack = .unsubscribe i .deactivate :: rest →
    (system setup Q).step s (t, c) = some s₁ →
    (system setup Q).Steps (fun _ _ => True) s₁ s₂ →
    (s₂.mem.subs i).active = false ∧ (s₂.mem.subs i).granted = (s₁.mem.subs i).granted ∧
      ∀ u c' s₃, (system setup Q).step s₂ (u, c') = some s₃ →
        ∀ v, holdings i (s₃.loc v) ≤ holdings i (s₂.loc v)
  /-- behind the return of an `unsubscribe` that was made outside the callbacks of `i`
  nothing is in flight and no callback of `i` is executing -/
  quiet : ∀ t c phase rest s₁ s₂, (s.loc t).stack = .unsubscribe i phase :: rest →
    (∀ f ∈ rest, f.callback ≠ some i) →
    (system setup Q).step s (t, c) = some s₁ → (s₁.loc t).stack = rest →
    (system setup Q).Steps (fun _ _ => True) s₁ s₂ →
    (s₂.mem.subs i).inFlight = 0 ∧
      ∀ u, ∀ f ∈ (s₂.loc u).stack, f.holds i = 0 ∧ f.callback ≠ some i

/-- **Synchronous unsubscribe.**  Whatever the delivery policy, the queue policy, the
nesting of callbacks and the interleaving. -/
theorem synchronous_unsubscribe (hs : (system setup Q).Reachable s) (i : ℕ) :
    SynchronousUnsubscribe setup i s := by
  have hinv := invocationInv_reach s hs
  refine ⟨hinv.counted i, ?_, ?_, ?_, ?_⟩
  · intro t c s₁ s₂ u c' s₃ hstep hstarts hlater hstep' hagain
    have hs₁ : (system setup Q).Reachable s₁ := .step hs trivial hstep
    have hs₂ := hs₁.steps hlater
    obtain ⟨m, l, hprog, rfl⟩ := Config.step_eq_some hstep
    obtain ⟨m', l', hprog', rfl⟩ := Config.step_eq_some hstep'
    simp only [Function.update_self] at hstarts hagain
    have hstarted := ((step_shape hprog).startsRetirement (inOrder_reach s hs t) hstarts).2
    have hfirst := ((step_shape hprog').startsRetirement (inOrder_reach s₂ hs₂ u) hagain).1
    rw [started_steps hs₁ hlater hstarted] at hfirst
    cases hfirst
  · have hretired := hinv.retired i
    unfold RetiredOnce at hretired
    rw [hretired]
    split <;> omega
  · intro t c rest s₁ s₂ hstack hstep hlater
    have hs₁ : (system setup Q).Reachable s₁ := .step hs trivial hstep
    have hinactive : (s₁.mem.subs i).active = false := by
      obtain ⟨m, l, hprog, rfl⟩ := Config.step_eq_some hstep
      exact deactivate_inactive hstack hprog
    obtain ⟨hactive, hgranted⟩ := inactive_steps hs₁ hlater hinactive
    exact ⟨hactive, hgranted, fun u c' s₃ hstep' => holdings_le (hs₁.steps hlater) hactive hstep'⟩
  · intro t c phase rest s₁ s₂ hstack houtside hstep hreturned hlater
    have hs₁ : (system setup Q).Reachable s₁ := .step hs trivial hstep
    have hquiet : (s₁.mem.subs i).active = false ∧ (s₁.mem.subs i).inFlight = 0 := by
      obtain ⟨m, l, hprog, rfl⟩ := Config.step_eq_some hstep
      simp only [Function.update_self] at hreturned
      obtain ⟨rfl, hidle, rfl⟩ :=
        unsubscribe_returned (inOrder_reach s hs t) hstack hprog hreturned houtside
      refine ⟨hinv.deactivated t (.unsubscribe i .waitIdle) ?_ i false rfl, hidle⟩
      rw [hstack]
      exact List.mem_cons_self
    have hzero := idle_steps hs₁ hlater hquiet.1 hquiet.2
    refine ⟨hzero, ?_⟩
    intro u f hf
    have hcounted := (invocationInv_reach s₂ (hs₁.steps hlater)).counted i
    have hthread := le_tally (holdings i) s₂.loc u
    have hframe : f.holds i ≤ holdings i (s₂.loc u) :=
      List.single_le_sum (fun _ _ => Nat.zero_le _) _ (List.mem_map_of_mem hf)
    refine ⟨by omega, ?_⟩
    intro hcallback
    have hone := holds_of_callback hcallback
    omega

end Run

/-- A callback is under way on the worker while the client has retired its subscriber and waits
in `unsubscribe`, and the theorem applies. -/
theorem synchronous_unsubscribe_during_callback :
    ∃ s : Config (Fin 3) (DispatcherMem (mutexPolicy (Fin 3) (Publication ℕ) 2)) (ThreadLoc _),
      SynchronousUnsubscribe smallSetup 1 s ∧ (s.mem.subs 1).inFlight = 1 ∧
        1 ∈ (s.mem.subs 1).noCallbacks := by
  obtain ⟨s, hs, hp⟩ := System.exists_reach_of_run
    (system smallSetup (mutexPolicy (Fin 3) (Publication ℕ) 2)) (fun _ _ => True)
    (fun _ _ => true) (s := started smallSetup _) rfl
    (List.flatten [[(1, .constructed)], subscribing {}, publishing 7, working 6,
      [(1, .call (.unsubscribe 1))], advance 1 9])
    (fun s => (s.mem.subs 1).inFlight = 1 && decide (1 ∈ (s.mem.subs 1).noCallbacks))
    (by simp) (by decide +kernel)
  simp only [Bool.and_eq_true, decide_eq_true_eq] at hp
  exact ⟨s, synchronous_unsubscribe hs 1, hp⟩

end Dispatcher

end EventDispatcher
