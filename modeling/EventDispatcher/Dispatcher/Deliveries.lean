import EventDispatcher.Dispatcher.DiscardAccounting
import EventDispatcher.Dispatcher.MailboxDrain

/-!
# What a broadcast hands over

A worker that has acquired a snapshot owes every subscriber in it every event of its batch.
`ahead` is what it still owes to one of them, in order, and `got` is what that subscriber has
taken.  A step hands one event over or loses it (`Handover`), and it loses one only where the
subscriber is inactive or its mailbox records the loss.  So nobody takes more than what has
been broadcast, and a subscriber whose handle was out when a publication began takes all of it
while it is active and misses nothing.
-/

namespace EventDispatcher

open Transition SubscriberState

variable {T E : Type} {Q : QueuePolicy T (Publication E)}

/-- `try_invoke` has not yet decided what becomes of the event. -/
def InvokePhase.undecided : InvokePhase → Bool
  | .offer => true
  | .lockMailbox => true
  | .spaceParked => true
  | .begin => true
  | .lockSerial => true
  | .callback .enter => true
  | _ => false

/-- What the subscriber has taken from the workers: into its mailbox if it is isolated, into
its callback if it is not. -/
def SubscriberState.got {E : Type} (s : SubscriberState T E) : List E :=
  if s.options.delivery = .isolated then s.mailed else s.received

/-- What a broadcast still has to offer to subscriber `i`. -/
def offers (i : ℕ) (snapshot subs : List ℕ) (event : Publication E)
    (events : List (Publication E)) : List (Publication E) :=
  List.replicate (subs.count i) event ++ events.flatMap (List.replicate (snapshot.count i))

/-- What the worker still owes to subscriber `i`. -/
def Frame.ahead (i : ℕ) : Frame T E → List (Publication E)
  | .worker (.next snapshot subs event events) => offers i snapshot subs event events
  | .worker (.handler snapshot subs event events) => offers i snapshot subs event events
  | .worker (.invoke snapshot subs event events j phase) =>
      (if j = i ∧ phase.undecided = true then [event] else []) ++
        offers i snapshot subs event events
  | _ => []

/-- What is left of it when the frame has moved. -/
def nextAhead (i : ℕ) : Option (Frame T E) → List (Publication E)
  | some f => f.ahead i
  | none => []

/-- What the thread still owes to subscriber `i`. -/
def ahead (i : ℕ) (l : ThreadLoc Q) : List (Publication E) := l.stack.flatMap (Frame.ahead i)

/-- The invocations of one callback. -/
def History.invoked (h : History T E) (i : ℕ) : List (Publication E) :=
  (h.invocations.filter fun p => p.1 = i).map Prod.snd

/-- The subscriber is active and, if it has a mailbox, has missed nothing. -/
def Undisturbed {E : Type} (s : SubscriberState T E) : Prop :=
  s.active = true ∧ (s.options.delivery = .isolated → s.missed = [])

/-- What a step of `t`, which owed `a` to subscriber `i` and owes `a'` now, does for it. -/
inductive Handover (t : T) (i : ℕ) (m m' : DispatcherMem Q) (a a' : List (Publication E)) : Prop
  | keep (hgot : (m'.subs i).got = (m.subs i).got)
      (hbatches : m'.history.batches = m.history.batches) (hahead : a' = a)
  | acquire (batch : List (Publication E)) (hrecorded : m' = m.recordBatch t batch)
      (hbefore : a = [])
      (hafter : a' = batch.flatMap (List.replicate (m.registry.current.count i)))
  | get (event : Publication E) (hgot : (m'.subs i).got = (m.subs i).got ++ [event])
      (hbatches : m'.history.batches = m.history.batches) (hbefore : a = event :: a')
  | lose (event : Publication E) (hgot : (m'.subs i).got = (m.subs i).got)
      (hbatches : m'.history.batches = m.history.batches) (hbefore : a = event :: a')
      (hlost : ¬ Undisturbed (m'.subs i))
      (hinactive : (m.subs i).options.delivery ≠ .isolated → (m.subs i).active = false)

section Steps

variable [DecidableEq T] {flag : Bool} {t : T} {next i : ℕ} {finished : Finset T}
  {s s' : SubscriberState T (Publication E)} {contexts contexts' : Contexts} {p p' : Part E}

omit [DecidableEq T] in
/-- A callback that is entered adds its event to what the subscriber has got. -/
theorem CallbackStep.got_cases {event : Publication E} {phase phase' : CallbackPhase}
    (h : CallbackStep i s contexts event phase s' contexts' phase')
    (hdirect : s.options.delivery ≠ .isolated) :
    (s'.got = s.got ∧ phase ≠ .enter ∧ phase' ≠ .enter) ∨
      (phase = .enter ∧ phase' ≠ .enter ∧ s'.got = s.got ++ [event]) := by
  cases h with
  | enter => exact .inr ⟨rfl, by simp, by simp [got, hdirect]⟩
  | _ => exact .inl ⟨rfl, by simp, by simp⟩

omit [DecidableEq T] in
/-- Whoever is about to look at the mailbox has not decided about its event. -/
theorem undecided_of_entering {phase : InvokePhase} (h : Entering t s phase) :
    phase.undecided = true ∧ phase.mails = true := by
  obtain rfl | ⟨rfl, _⟩ := h <;> exact ⟨rfl, rfl⟩

/-- An invocation is decided once its callback has been entered. -/
theorem undecided_callback {phase : CallbackPhase} :
    (InvokePhase.callback phase).undecided = decide (phase = .enter) := by
  cases phase <;> rfl

/-- Where an event is taken, and where it is lost. -/
theorem InvokeStep.got_cases {event : Publication E} {phase phase' : InvokePhase}
    (h : InvokeStep flag t i s contexts event phase s' contexts' phase')
    (hok : PartOk s (.invoke event phase)) :
    (s'.got = s.got ∧ phase'.undecided = phase.undecided) ∨
      (phase.undecided = true ∧ phase'.undecided = false ∧ s'.got = s.got ++ [event]) ∨
      (phase.undecided = true ∧ phase'.undecided = false ∧ s'.got = s.got ∧ ¬ Undisturbed s' ∧
        (s.options.delivery ≠ .isolated → s.active = false)) := by
  have hmissed : ∀ {phase : InvokePhase} {s₁ : SubscriberState T (Publication E)},
      Entering t s phase → PartOk s (.invoke event phase) → s₁.options = s.options →
      ¬ Undisturbed (s₁.miss event) := by
    intro phase s₁ hphase hok hoptions hun
    have hnone := hun.2 (by
      rw [miss_options, hoptions]
      exact hok.1 (undecided_of_entering hphase).2)
    simp at hnone
  cases h with
  | park hphase => exact .inl ⟨rfl, by rw [(undecided_of_entering hphase).1]; rfl⟩
  | overflow hphase =>
      exact .inr (.inr ⟨(undecided_of_entering hphase).1, rfl, rfl, hmissed hphase hok rfl,
        fun hdirect => absurd (hok.1 (undecided_of_entering hphase).2) hdirect⟩)
  | refused hphase =>
      exact .inr (.inr ⟨(undecided_of_entering hphase).1, rfl, rfl, hmissed hphase hok rfl,
        fun hdirect => absurd (hok.1 (undecided_of_entering hphase).2) hdirect⟩)
  | copyThrew hphase =>
      exact .inr (.inr ⟨(undecided_of_entering hphase).1, rfl, rfl, hmissed hphase hok rfl,
        fun hdirect => absurd (hok.1 (undecided_of_entering hphase).2) hdirect⟩)
  | mail hphase =>
      have hisolated := hok.1 (undecided_of_entering hphase).2
      exact .inr (.inl ⟨(undecided_of_entering hphase).1, rfl, by simp [got, hisolated]⟩)
  | inactive hinactive =>
      refine .inr (.inr ⟨rfl, rfl, rfl, ?_, fun _ => hinactive⟩)
      intro hun
      cases hinactive.symm.trans hun.1
  | callback hstep =>
      obtain ⟨hgot, hphase, hphase'⟩ | ⟨hphase, hphase', hgot⟩ := hstep.got_cases (hok.2 rfl)
      · refine .inl ⟨hgot, ?_⟩
        rw [undecided_callback, undecided_callback, decide_eq_false hphase, decide_eq_false hphase']
      · refine .inr (.inl ⟨?_, ?_, hgot⟩)
        · rw [undecided_callback, decide_eq_true hphase]
        · rw [undecided_callback, decide_eq_false hphase']
  | _ => exact .inl ⟨rfl, rfl⟩

/-- Only `try_invoke` gives a subscriber an event. -/
theorem PartStep.got_eq (h : PartStep flag t next i finished s p s' p')
    (hinvoke : ∀ event phase, p ≠ .invoke event phase)
    (hexecutor : ∀ phase, p = .executor phase → s.options.delivery = .isolated) :
    s'.got = s.got := by
  cases h with
  | construct options hnext hfresh =>
      rw [hfresh]
      simp [got]
  | invoke => exact absurd rfl (hinvoke _ _)
  | executor hstep =>
      have hisolated := hexecutor _ rfl
      unfold got
      rw [hstep.options_eq, if_pos hisolated, if_pos hisolated]
      cases hstep with
      | callback hstep => cases hstep <;> rfl
      | _ => rfl
  | @stop drain _ _ _ hstep =>
      cases hstep with
      | stopMailbox => cases drain <;> rfl
      | _ => rfl
  | _ => rfl

/-- What a subscriber has missed stays on its record. -/
theorem PartStep.missed_kept (h : PartStep flag t next i finished s p s' p') :
    s.missed <+: s'.missed := by
  have hsame : ∀ {l l' : List (Publication E)}, l' = l → l <+: l' := by
    intro l l' heq
    rw [heq]
  cases h with
  | construct options hnext hfresh => rw [hfresh]
  | invoke hstep =>
      cases hstep with
      | overflow | refused | copyThrew | reject => exact List.prefix_append _ _
      | callback hstep => cases hstep <;> exact hsame rfl
      | _ => exact hsame rfl
  | executor hstep =>
      cases hstep with
      | miss => exact List.prefix_append _ _
      | callback hstep => cases hstep <;> exact hsame rfl
      | _ => exact hsame rfl
  | @stop drain _ _ _ hstep =>
      cases hstep with
      | stopMailbox =>
          cases drain with
          | true => exact hsame rfl
          | false => exact List.prefix_append _ _
      | _ => exact hsame rfl
  | _ => exact hsame rfl

omit [DecidableEq T] in
/-- What a subscriber has received stays received, in a callback. -/
theorem CallbackStep.received_kept {event : Publication E} {phase phase' : CallbackPhase}
    (h : CallbackStep i s contexts event phase s' contexts' phase') :
    s.received <+: s'.received := by
  cases h with
  | enter => exact List.prefix_append _ _
  | _ => exact List.prefix_refl _

/-- The same, in `try_invoke`. -/
theorem InvokeStep.received_kept {event : Publication E} {phase phase' : InvokePhase}
    (h : InvokeStep flag t i s contexts event phase s' contexts' phase') :
    s.received <+: s'.received := by
  cases h with
  | callback hstep => exact hstep.received_kept
  | _ => exact List.prefix_refl _

/-- The same, on an executor. -/
theorem ExecutorStep.received_kept {phase phase' : ExecutorPhase (Publication E)}
    (h : ExecutorStep t i s contexts phase s' contexts' phase') : s.received <+: s'.received := by
  cases h with
  | callback hstep => exact hstep.received_kept
  | _ => exact List.prefix_refl _

end Steps

section Frames

variable [DecidableEq T] {setup : Setup T} {flag : Bool} {t : T} {m m' : DispatcherMem Q}
  {q q' : Q.Loc} {contexts contexts' : Contexts} {f : Frame T E} {f' : Option (Frame T E)}
  {i : ℕ} {rest : List (Publication E)}

omit [DecidableEq T] in
/-- The next subscriber of the snapshot is offered the event first. -/
theorem offers_cons (j : ℕ) (snapshot subs : List ℕ) (event : Publication E)
    (events : List (Publication E)) :
    offers i snapshot (j :: subs) event events =
      (if j = i then [event] else []) ++ offers i snapshot subs event events := by
  unfold offers
  by_cases hj : j = i
  · subst hj
    simp [List.replicate_succ]
  · simp [hj]

omit [DecidableEq T] in
/-- At the end of the snapshot the next event begins. -/
theorem offers_nil (snapshot : List ℕ) (last : Publication E) (events : List (Publication E)) :
    offers i snapshot [] last events = events.flatMap (List.replicate (snapshot.count i)) := by
  simp [offers]

omit [DecidableEq T] in
/-- A batch that has just begun is offered whole. -/
theorem offers_start (snapshot : List ℕ) (event : Publication E)
    (events : List (Publication E)) :
    offers i snapshot snapshot event events =
      (event :: events).flatMap (List.replicate (snapshot.count i)) :=
  rfl

omit [DecidableEq T] in
/-- Only a worker has deliveries ahead of it. -/
theorem ahead_of_not_base (h : f.base = false) : f.ahead i = [] := by
  cases f with
  | worker phase => cases h
  | _ => rfl

/-- **Step lemma for a frame.** -/
theorem FrameStep.handover (h : FrameStep setup flag t m q contexts f m' q' contexts' f')
    (hm : Known m) (hok : PartOk (m.subs i) (f.part i))
    (hexecutor : ∀ phase, f = .executor i phase → (m.subs i).options.delivery = .isolated)
    (hdirect : ∀ j event phase, f ≠ .invoke j event phase) (hrest : f.base = true → rest = []) :
    Handover t i m m' (f.ahead i ++ rest) (nextAhead i f' ++ rest) := by
  have hpart := h.partStep hm i
  have hgot : (∀ event phase, f.part i ≠ .invoke event phase) →
      (m'.subs i).got = (m.subs i).got := by
    intro hinvoke
    refine hpart.got_eq hinvoke ?_
    intro phase hphase
    exact hexecutor phase (part_executor_iff.mp hphase)
  cases h with
  | acquireNone =>
      rw [hrest rfl]
      exact .acquire [] rfl rfl rfl
  | acquire event events =>
      rw [hrest rfl]
      exact .acquire (event :: events) rfl rfl (by simp [nextAhead, Frame.ahead, offers_start])
  | nextSub snapshot subs event events j =>
      refine .keep rfl rfl ?_
      simp only [nextAhead, Frame.ahead, offers_cons, InvokePhase.undecided, and_true]
  | nextEvent snapshot last event events =>
      refine .keep rfl rfl ?_
      simp only [nextAhead, Frame.ahead, offers_nil, offers_start]
  | broadcastDone snapshot last =>
      refine .keep rfl rfl ?_
      simp only [nextAhead, Frame.ahead, offers_nil, List.flatMap_nil]
  | invoked snapshot subs event events j =>
      refine .keep rfl rfl ?_
      simp [nextAhead, Frame.ahead, InvokePhase.undecided]
  | invokeThrew snapshot subs event events j =>
      refine .keep rfl rfl ?_
      simp [nextAhead, Frame.ahead, InvokePhase.undecided]
  | @invoke j event _ hframe phase phase' s _ hstep =>
      cases hframe with
      | direct => exact absurd rfl (hdirect _ _ _)
      | worker snapshot subs events =>
          by_cases hj : j = i
          · subst hj
            simp only [Frame.part, if_true] at hok
            have hsub : (m.invokeSub j s).subs j = s := by simp
            obtain ⟨hsame, hphase⟩ | ⟨hphase, hphase', htaken⟩ | ⟨hphase, hphase', hsame, hlost,
              hinactive⟩ := hstep.got_cases hok
            · exact .keep (by rw [hsub, hsame]) rfl (by simp [nextAhead, Frame.ahead, hphase])
            · exact .get event (by rw [hsub, htaken]) rfl
                (by simp [nextAhead, Frame.ahead, hphase, hphase'])
            · exact .lose event (by rw [hsub, hsame]) rfl
                (by simp [nextAhead, Frame.ahead, hphase, hphase']) (by rw [hsub]; exact hlost)
                hinactive
          · refine .keep ?_ rfl (by simp [nextAhead, Frame.ahead, hj])
            rw [DispatcherMem.invokeSub_subs, Function.update_of_ne (Ne.symm hj)]
  | stop hframe hstep =>
      cases hframe with
      | unsubscribe self =>
          refine .keep (hgot ?_) rfl rfl
          intro event phase
          simp only [Frame.part]
          split <;> simp
      | shutdown policy todo =>
          refine .keep (hgot ?_) rfl rfl
          intro event phase
          simp only [Frame.part]
          split <;> simp
  | executor hstep =>
      refine .keep (hgot ?_) rfl rfl
      intro event phase
      simp only [Frame.part]
      split <;> simp
  | invokeReturned j event threw => exact absurd rfl (hdirect _ _ _)
  | deactivate j | deactivateAgain j => exact .keep (hgot (by simp [Frame.part])) (by simp) rfl
  | publishCounted | publishNext => exact .keep (by simp) (by simp) rfl
  | subscribeConstruct | subscribeSpawn => exact .keep (hgot (by simp [Frame.part])) rfl rfl
  | idlePark j | idleWake j => exact .keep (hgot (by simp [Frame.part])) rfl rfl
  | _ => exact .keep rfl rfl rfl

/-- Callbacks are entered in `try_invoke` and in `executor_loop` only, and the history counts
every one of them. -/
theorem FrameStep.received_cases (h : FrameStep setup flag t m q contexts f m' q' contexts' f')
    (hm : Known m) :
    (m'.history.invocations = m.history.invocations ∧
        ∀ j, (m'.subs j).received = (m.subs j).received) ∨
      ∃ j s, m' = m.invokeSub j s ∧ (m.subs j).received <+: s.received := by
  have hset : ∀ {j : ℕ} {s : SubscriberState T (Publication E)},
      s.received = (m.subs j).received →
      ∀ k, (Function.update m.subs j s k).received = (m.subs k).received := by
    intro j s hs k
    by_cases hk : k = j
    · subst hk
      simpa using hs
    · rw [Function.update_of_ne hk]
  cases h with
  | invoke hframe hstep => exact .inr ⟨_, _, rfl, hstep.received_kept⟩
  | executor hstep => exact .inr ⟨_, _, rfl, hstep.received_kept⟩
  | @stop j drain _ _ _ _ _ hstep =>
      refine .inl ⟨rfl, hset ?_⟩
      cases hstep with
      | stopMailbox => cases drain <;> rfl
      | _ => rfl
  | subscribeConstruct =>
      refine .inl ⟨rfl, hset ?_⟩
      rw [hm.fresh m.registry.nextId le_rfl]
  | subscribeSpawn callback options id next hisolated u hu => exact .inl ⟨rfl, hset rfl⟩
  | idlePark j | idleWake j => exact .inl ⟨rfl, hset rfl⟩
  | deactivate j | deactivateAgain j =>
      refine .inl ⟨by simp, ?_⟩
      intro k
      rw [DispatcherMem.recordUnsubscribed_subs]
      exact hset (deactivate_received (m.subs j)) k
  | publishCounted | publishNext => exact .inl (by simp)
  | _ => exact .inl ⟨rfl, fun _ => rfl⟩

omit [DecidableEq T] in
/-- The return of a publication does not touch what is due. -/
theorem DispatcherMem.recordPublication_due (id : ℕ) (outcome : PushOutcome) :
    (m.recordPublication id outcome).history.due = m.history.due :=
  rfl

omit [DecidableEq T] in
/-- A publication is due to whoever has been subscribed when it begins. -/
theorem DispatcherMem.beginPublication_due :
    m.beginPublication.history.due =
      Function.update m.history.due m.history.begun m.subscribed :=
  rfl

/-- What a step does to the record of the publications begun. -/
theorem FrameStep.due_cases (h : FrameStep setup flag t m q contexts f m' q' contexts' f') :
    (m'.history.begun = m.history.begun ∧ m'.history.due = m.history.due) ∨
      m'.history.due = Function.update m.history.due m.history.begun m.subscribed := by
  cases h with
  | publishNext =>
      right
      simp [DispatcherMem.beginPublication_due, DispatcherMem.recordPublication_due,
        DispatcherMem.subscribed]
  | publishCounted => exact .inl (by simp [DispatcherMem.recordPublication_due])
  | deactivate | deactivateAgain => exact .inl (by simp)
  | _ => exact .inl ⟨rfl, rfl⟩

/-- A handle stays out. -/
theorem FrameStep.subscribed_subset (h : FrameStep setup flag t m q contexts f m' q' contexts' f')
    {j : ℕ} (hj : j ∈ m.subscribed) : j ∈ m'.subscribed := by
  unfold DispatcherMem.subscribed at hj ⊢
  cases h with
  | subscribeReturned =>
      simp only [DispatcherMem.recordSubscription_history_subscriptions,
        DispatcherMem.setMutex_history, List.filterMap_append]
      exact List.mem_append_left _ hj
  | publishCounted | publishNext | deactivate | deactivateAgain => simpa using hj
  | _ => exact hj

end Frames

namespace Dispatcher

/-- The return of user code does not touch the deliveries ahead. -/
theorem finishUser_ahead {f f' : Frame T E} {threw : Bool} (h : f.finishUser threw = some f')
    (i : ℕ) : f'.ahead i = f.ahead i := by
  unfold Frame.finishUser at h
  split at h <;> cases h <;> first | rfl | skip
  cases threw <;> rfl

/-- A call records nothing but the publication that it begins. -/
theorem enter_history {m m' : DispatcherMem Q} {call : Call T E} {f : Frame T E}
    (h : enter m call = some (m', f)) :
    m'.subs = m.subs ∧ m'.history.batches = m.history.batches ∧
      m'.history.invocations = m.history.invocations ∧
      ((m'.history.begun = m.history.begun ∧ m'.history.due = m.history.due) ∨
        m'.history.due = Function.update m.history.due m.history.begun m.subscribed) := by
  cases call with
  | unsubscribe i | invoke i event =>
      simp only [enter] at h
      split at h <;> cases h
      exact ⟨rfl, rfl, rfl, .inl ⟨rfl, rfl⟩⟩
  | publish | publishBatch =>
      cases h
      exact ⟨rfl, rfl, rfl, .inr rfl⟩
  | _ =>
      cases h
      exact ⟨rfl, rfl, rfl, .inl ⟨rfl, rfl⟩⟩

variable [DecidableEq T] {setup : Setup T} {t : T} {m m' : DispatcherMem Q} {l l' : ThreadLoc Q}
  {c : DispatcherChoice Q}

/-- Only the begin of a publication writes what is due. -/
theorem StepShape.due_cases (h : StepShape setup t m l c m' l') :
    (m'.history.begun = m.history.begun ∧ m'.history.due = m.history.due) ∨
      m'.history.due = Function.update m.history.due m.history.begun m.subscribed := by
  cases h with
  | call huser henter => exact (enter_history henter).2.2.2
  | frame hstack hstep => exact hstep.due_cases
  | _ => exact .inl ⟨rfl, rfl⟩

/-- A subscriber whose handle is out stays in the books. -/
theorem StepShape.subscribed_subset (h : StepShape setup t m l c m' l') {j : ℕ}
    (hj : j ∈ m.subscribed) : j ∈ m'.subscribed := by
  cases h with
  | call huser henter =>
      rw [(enter_registry henter).2.2]
      exact hj
  | frame hstack hstep => exact hstep.subscribed_subset hj
  | _ => exact hj

/-- **Step lemma.**  Every step keeps what is owed, or hands over one event of it. -/
theorem StepShape.handover (h : StepShape setup t m l c m' l') (hm : Known m) {i : ℕ}
    (hbottom : Bottomed l.stack) (hok : ∀ p ∈ parts i l.stack, PartOk (m.subs i) p)
    (hexecutor : ∀ phase, .executor i phase ∈ l.stack → (m.subs i).options.delivery = .isolated)
    (hdirect : ∀ j event phase, .invoke j event phase ∉ l.stack) :
    Handover t i m m' (ahead i l) (ahead i l') := by
  unfold ahead
  cases h with
  | constructed hstack => exact .keep rfl rfl rfl
  | start hstack hentry =>
      rw [hstack]
      exact .keep rfl rfl rfl
  | call huser henter =>
      obtain ⟨hsubs, hbatches, _⟩ := enter_history henter
      refine .keep (by rw [hsubs]) hbatches ?_
      rw [List.flatMap_cons, ahead_of_not_base (enter_base henter).1]
      rfl
  | finish hstack hfinish =>
      refine .keep rfl rfl ?_
      rw [hstack, List.flatMap_cons, List.flatMap_cons, finishUser_ahead hfinish]
  | @frame _ _ _ _ _ f f' rest hstack hstep =>
      have hmem : f ∈ l.stack := by
        rw [hstack]
        exact List.mem_cons_self
      have hnext : (f'.toList ++ rest).flatMap (Frame.ahead i) =
          nextAhead i f' ++ rest.flatMap (Frame.ahead i) := by
        cases f' with
        | none => rfl
        | some g => rfl
      rw [hstack, List.flatMap_cons]
      rw [hstack] at hbottom
      simp only [hnext]
      refine hstep.handover hm (hok _ (List.mem_map_of_mem hmem)) ?_ ?_ ?_
      · rintro phase rfl
        exact hexecutor phase hmem
      · rintro j event phase rfl
        exact hdirect j event phase hmem
      · intro hbase
        rw [hbottom.1 hbase]
        rfl
  | queue hstack => exact .keep rfl rfl rfl

/-- A subscriber that is undisturbed has been so all the time. -/
theorem undisturbed_before
    {ok : Config T (DispatcherMem Q) (ThreadLoc Q) → T × DispatcherChoice Q → Prop}
    {s : Config T (DispatcherMem Q) (ThreadLoc Q)} (hs : (system setup Q).Reach ok s)
    (hstep : step setup t c s.mem (s.loc t) = some (m', l')) {i : ℕ}
    (h : Undisturbed (m'.subs i)) : Undisturbed (s.mem.subs i) := by
  refine ⟨active_before hs hstep h.1, ?_⟩
  intro hisolated
  have hknown := (allotted_reach s hs).mem
  obtain ⟨p, p', hpart, _⟩ := (step_shape hstep).partStep hknown i
  rcases hpart.options_eq with hoptions | hnext
  · have hmissed := hpart.missed_kept
    rw [h.2 (by rw [hoptions, hisolated])] at hmissed
    exact List.prefix_nil.mp hmissed
  · rw [hknown.fresh i hnext.ge]

/-- A step enters no callback, or one. -/
theorem StepShape.received_cases (h : StepShape setup t m l c m' l') (hm : Known m) :
    (m'.history.invocations = m.history.invocations ∧
        ∀ j, (m'.subs j).received = (m.subs j).received) ∨
      ∃ j s, m' = m.invokeSub j s ∧ (m.subs j).received <+: s.received := by
  cases h with
  | call huser henter =>
      obtain ⟨hsubs, _, hinvocations, _⟩ := enter_history henter
      exact .inl ⟨hinvocations, by simp [hsubs]⟩
  | frame hstack hstep => exact hstep.received_cases hm
  | _ => exact .inl ⟨rfl, fun _ => rfl⟩

/-- What a callback has received stays on the record. -/
theorem StepShape.received_kept (h : StepShape setup t m l c m' l') (hm : Known m) (i : ℕ) :
    (m.subs i).received <+: (m'.subs i).received := by
  rcases h.received_cases hm with ⟨_, hsame⟩ | ⟨j, s, rfl, hkept⟩
  · rw [hsame i]
  · by_cases hi : i = j
    · subst hi
      simpa using hkept
    · rw [DispatcherMem.invokeSub_subs, Function.update_of_ne hi]

/-- **Run lemma**: the history of the invocations is what the callbacks have received. -/
theorem invoked_eq {ok : Config T (DispatcherMem Q) (ThreadLoc Q) → T × DispatcherChoice Q → Prop} :
    ∀ s, (system setup Q).Reach ok s → ∀ i, s.mem.history.invoked i = (s.mem.subs i).received := by
  refine interleave_invariant ?_ ?_
  · intro s hs i
    rw [show s = _ from hs]
    rfl
  · intro s t c m l hs hinv _ hstep i
    have hbefore := hinv i
    unfold History.invoked at hbefore ⊢
    rcases (step_shape hstep).received_cases (allotted_reach s hs).mem with
      ⟨hsame, hreceived⟩ | ⟨j, s', heq, hkept⟩
    · simp only [hsame, hreceived i, hbefore]
    · simp only [heq, DispatcherMem.invokeSub_history_invocations, DispatcherMem.invokeSub_subs,
        List.filter_append, List.map_append, hbefore, List.filter_map]
      by_cases hi : j = i
      · subst hi
        obtain ⟨new, hnew⟩ := hkept
        simp [← hnew, Function.comp_def]
      · rw [Function.update_of_ne (Ne.symm hi)]
        simp [hi, Function.comp_def]

section Run

variable [Fintype T] {M : QueueModel Q}
  {ok : Config T (DispatcherMem Q) (ThreadLoc Q) → T × DispatcherChoice Q → Prop}
  {s : Config T (DispatcherMem Q) (ThreadLoc Q)}

/-- What subscriber `i` has taken, and what it is still owed. -/
def handed (i : ℕ) (s : Config T (DispatcherMem Q) (ThreadLoc Q)) : Multiset (Publication E) :=
  ((s.mem.subs i).got : Multiset (Publication E)) +
    tally (fun l => (ahead i l : Multiset (Publication E))) s.loc

/-- Every step of a run is a handover for every subscriber. -/
theorem handover_of_reach (hdirect : ∀ s a, ok s a → NoDirectCalls s a)
    (hs : (system setup Q).Reach ok s)
    (hstep : step setup t c s.mem (s.loc t) = some (m', l')) (i : ℕ) :
    Handover t i s.mem m' (ahead i (s.loc t)) (ahead i l') := by
  have hthreads := threadInv_reach s hs
  refine (step_shape hstep).handover (allotted_reach s hs).mem (hthreads.bottomed t)
    (partOk_reach s hs i t) ?_ (noDirectCalls_reach hdirect s hs t)
  intro phase hmem
  refine (executorInv_reach s hs).isolated i ?_
  rw [(hthreads.placed t _ hmem).1]
  simp

/-- What a handover does to the accounts of the subscriber. -/
theorem handed_cases {i : ℕ} (h : Handover t i s.mem m' (ahead i (s.loc t)) (ahead i l')) :
    (handed i ⟨m', Function.update s.loc t l'⟩ = handed i s ∧
        m'.books.broadcast = s.mem.books.broadcast) ∨
      (∃ batch : List (Publication E), m' = s.mem.recordBatch t batch ∧
        m'.books.broadcast = s.mem.books.broadcast + batch ∧
        handed i ⟨m', Function.update s.loc t l'⟩ = handed i s +
          (batch.flatMap (List.replicate (s.mem.registry.current.count i)) : List (Publication E))) ∨
      ∃ event, handed i s = event ::ₘ handed i ⟨m', Function.update s.loc t l'⟩ ∧
        m'.books.broadcast = s.mem.books.broadcast ∧ ¬ Undisturbed (m'.subs i) := by
  have htally := tally_update (fun l => (ahead i l : Multiset (Publication E))) s.loc t l'
  have hsame : m'.history.batches = s.mem.history.batches →
      m'.books.broadcast = s.mem.books.broadcast := by
    intro hbatches
    simp [Books.broadcast, hbatches]
  simp only [handed]
  cases h with
  | keep hgot hbatches hahead =>
      refine .inl ⟨?_, hsame hbatches⟩
      rw [hahead] at htally
      rw [hgot, add_right_cancel htally]
  | acquire batch hrecorded hbefore hafter =>
      refine .inr (.inl ⟨batch, hrecorded, ?_, ?_⟩)
      · simp [Books.broadcast, hrecorded]
      · rw [hbefore, hafter] at htally
        rw [add_assoc, ← htally, hrecorded]
        simp
  | get event hgot hbatches hbefore =>
      refine .inl ⟨?_, hsame hbatches⟩
      rw [hbefore, ← Multiset.cons_coe, ← Multiset.singleton_add, ← add_assoc] at htally
      rw [hgot, ← add_right_cancel htally, ← Multiset.coe_add, Multiset.coe_singleton]
      abel
  | lose event hgot hbatches hbefore hlost =>
      refine .inr (.inr ⟨event, ?_, hsame hbatches, hlost⟩)
      rw [hbefore, ← Multiset.cons_coe, ← Multiset.singleton_add, ← add_assoc] at htally
      rw [hgot, ← add_right_cancel htally, ← Multiset.singleton_add]
      abel

/-- A snapshot names a subscriber at most once. -/
theorem count_current_le (hs : (system setup Q).Reach ok s) (i : ℕ) :
    s.mem.registry.current.count i ≤ 1 := by
  have hnodup : s.mem.registry.current.Nodup :=
    (registryInv_reach s hs).ok.sorted.imp fun hlt => hlt.ne
  exact List.nodup_iff_count_le_one.mp hnodup i

omit [DecidableEq T] [Fintype T] in
/-- A batch to a subscriber that is in the snapshot once at most. -/
theorem replicate_zero_or_one {n : ℕ} (h : n ≤ 1) (batch : List (Publication E)) :
    batch.flatMap (List.replicate n) = if n = 0 then [] else batch := by
  obtain rfl | rfl : n = 0 ∨ n = 1 := by omega
  · simp
  · rw [if_neg one_ne_zero]
    induction batch with
    | nil => rfl
    | cons event batch ih => rw [List.flatMap_cons, ih]; rfl

/-- **Nobody takes more than has been broadcast.** -/
theorem handed_le (hdirect : ∀ s a, ok s a → NoDirectCalls s a) :
    ∀ s, (system setup Q).Reach ok s → ∀ i, handed i s ≤ s.mem.books.broadcast := by
  refine interleave_invariant ?_ ?_
  · intro s hs i
    rw [show s = _ from hs]
    have hnone : tally (fun l => (ahead i l : Multiset (Publication E)))
        (started setup Q).loc = 0 := by
      refine tally_eq_zero fun t => ?_
      simp only [started, ahead]
      split <;> rfl
    rw [handed, hnone]
    exact le_rfl
  · intro s t c m l hs hinv _ hstep i
    have hbefore := hinv i
    obtain ⟨hhanded, hbroadcast⟩ | ⟨batch, _, hbroadcast, hhanded⟩ |
      ⟨event, hhanded, hbroadcast, _⟩ := handed_cases (handover_of_reach hdirect hs hstep i)
    · rw [hhanded, hbroadcast]
      exact hbefore
    · rw [hhanded, hbroadcast, replicate_zero_or_one (count_current_le hs i)]
      refine add_le_add hbefore ?_
      split
      · exact Multiset.zero_le _
      · exact le_rfl
    · rw [hbroadcast]
      rw [hhanded] at hbefore
      exact (Multiset.le_cons_self _ event).trans hbefore

omit [Fintype T] in
/-- A subscriber that is due has handed out its handle. -/
theorem due_subscribed : ∀ s, (system setup Q).Reach ok s → ∀ k, ∀ i ∈ s.mem.history.due k,
    i ∈ s.mem.subscribed := by
  refine interleave_invariant ?_ ?_
  · intro s hs k i hi
    rw [show s = _ from hs] at hi
    cases hi
  · intro s t c m l _ hinv _ hstep k i hi
    have hshape := step_shape hstep
    apply hshape.subscribed_subset
    simp only at hi
    rcases hshape.due_cases with ⟨_, hdue⟩ | hdue
    · rw [hdue] at hi
      exact hinv k i hi
    · rw [hdue] at hi
      by_cases hk : k = s.mem.history.begun
      · subst hk
        simpa using hi
      · rw [Function.update_of_ne hk] at hi
        exact hinv k i hi

/-- What has been broadcast has been accepted. -/
theorem Ledger.broadcast_le (hledger : Ledger M s) :
    s.mem.books.broadcast ≤ (s.mem.books.accepted : Multiset (Publication E)) := by
  have htaken : s.mem.books.taken ≤ (s.mem.books.accepted : Multiset (Publication E)) := by
    rw [hledger.transit, Books.settled, add_assoc, add_assoc]
    exact Multiset.le_add_right _ _
  refine le_trans ?_ htaken
  rw [hledger.batches]
  exact Multiset.le_add_right _ _

/-- The number of an accepted event has been given out. -/
theorem Ledger.accepted_lt (hledger : Ledger M s) {event : Publication E}
    (h : event ∈ s.mem.history.accepted) : event.id < s.mem.history.begun := by
  have hid : event.id ∈ s.mem.books.acceptedIds := List.mem_map_of_mem h
  exact Multiset.mem_range.mp (Multiset.mem_of_le hledger.acceptedIds_le hid)

/-- The number that a new publication gets has not been broadcast. -/
theorem StepShape.due_filter (h : StepShape setup t s.mem (s.loc t) c m' l')
    (hledger : Ledger M s) (i : ℕ) :
    s.mem.books.broadcast.filter (fun event => i ∈ m'.history.due event.id) =
      s.mem.books.broadcast.filter (fun event => i ∈ s.mem.history.due event.id) := by
  refine Multiset.filter_congr fun event hevent => ?_
  have hlt := hledger.accepted_lt (Multiset.mem_of_le hledger.broadcast_le hevent)
  rcases h.due_cases with ⟨_, hdue⟩ | hdue
  · rw [hdue]
  · rw [hdue, Function.update_of_ne hlt.ne]

/-- **An undisturbed subscriber is handed all that was published after it had its handle.** -/
theorem due_le_handed (hdirect : ∀ s a, ok s a → NoDirectCalls s a)
    (hempty : Q.contents Q.mem₀ = []) (hidle : M.view Q.loc₀ = .outside none) :
    ∀ s, (system setup Q).Reach ok s → ∀ i, Undisturbed (s.mem.subs i) →
      s.mem.books.broadcast.filter (fun event => i ∈ s.mem.history.due event.id) ≤ handed i s := by
  refine interleave_invariant ?_ ?_
  · intro s hs i _
    rw [show s = _ from hs]
    exact Multiset.zero_le _
  · intro s t c m l hs hinv _ hstep i hun
    have hshape := step_shape hstep
    have hledger := ledger_reach hempty hidle s hs.reachable
    have hbefore := hinv i (undisturbed_before hs hstep hun)
    have hdue : s.mem.books.broadcast.filter (fun event => i ∈ m.history.due event.id) ≤
        handed i s := by
      rw [hshape.due_filter hledger i]
      exact hbefore
    obtain ⟨hhanded, hbroadcast⟩ | ⟨batch, hrecorded, hbroadcast, hhanded⟩ |
      ⟨event, _, _, hlost⟩ := handed_cases (handover_of_reach hdirect hs hstep i)
    · rw [hhanded, hbroadcast]
      exact hdue
    · rw [hhanded, hbroadcast, Multiset.filter_add]
      refine add_le_add hdue ?_
      rw [replicate_zero_or_one (count_current_le hs i)]
      split
      · next habsent =>
          -- a subscriber whose handle is out and who is active is in the snapshot
          refine (Multiset.filter_eq_nil.mpr fun event _ hmem => ?_).le
          have hregistry := (registryInv_reach s hs).ok
          rw [hrecorded] at hmem hun
          have hcurrent := hregistry.complete i
            (hregistry.handles i (due_subscribed s hs _ i hmem)) hun.1
          exact List.count_eq_zero.mp habsent hcurrent
      · exact Multiset.filter_le _ _
    · exact absurd hun hlost

/-- A callback receives what its subscriber has taken. -/
theorem received_le_handed (hs : (system setup Q).Reach ok s) (i : ℕ) :
    ((s.mem.subs i).received : Multiset (Publication E)) ≤ handed i s := by
  refine le_trans ?_ (Multiset.le_add_right _ _)
  unfold got
  split
  · next hisolated =>
      obtain ⟨o, ho⟩ := exists_runs i s
      exact Multiset.coe_le.mpr
        (fifoAt_reach s hs i o ho hisolated).received_in_order.sublist.subperm
  · exact le_rfl

/-- A callback receives nothing that has not been broadcast, and nothing more often. -/
theorem received_le (hdirect : ∀ s a, ok s a → NoDirectCalls s a)
    (hs : (system setup Q).Reach ok s) (i : ℕ) :
    ((s.mem.subs i).received : Multiset (Publication E)) ≤ s.mem.books.broadcast :=
  (received_le_handed hs i).trans (handed_le hdirect s hs i)

/-- The numbers of the events that a callback has received. -/
theorem received_nodup (hdirect : ∀ s a, ok s a → NoDirectCalls s a)
    (hledger : Ledger M s) (hs : (system setup Q).Reach ok s) (i : ℕ) :
    ((s.mem.subs i).received.map Publication.id).Nodup := by
  have hle := Multiset.map_le_map (f := Publication.id)
    ((received_le hdirect hs i).trans hledger.broadcast_le)
  exact Multiset.coe_nodup.mp
    (Multiset.nodup_of_le hle (Multiset.coe_nodup.mpr hledger.accepted_nodup))

end Run

/-- Pairs are distinct if they are so for each first component. -/
theorem nodup_of_fibers {A B C : Type} [DecidableEq A] (f : A × B → C) {pairs : List (A × B)}
    (h : ∀ a, ((pairs.filter fun p => p.1 = a).map f).Nodup) :
    (pairs.map fun p => (p.1, f p)).Nodup := by
  induction pairs with
  | nil => exact List.nodup_nil
  | cons p pairs ih =>
      rw [List.map_cons, List.nodup_cons]
      refine ⟨?_, ih fun a => ?_⟩
      · intro hmem
        have hfiber := h p.1
        rw [List.filter_cons_of_pos (by simp), List.map_cons, List.nodup_cons] at hfiber
        obtain ⟨r, hr, heq⟩ := List.mem_map.mp hmem
        obtain ⟨hfst, hsnd⟩ := Prod.mk.inj heq
        refine hfiber.1 (List.mem_map.mpr ⟨r, ?_, hsnd⟩)
        exact List.mem_filter.mpr ⟨hr, by simpa using hfst⟩
      · exact (h a).sublist (((List.sublist_cons_self p pairs).filter _).map f)

section Pairs

variable [Fintype T] {M : QueueModel Q}
  {ok : Config T (DispatcherMem Q) (ThreadLoc Q) → T × DispatcherChoice Q → Prop}
  {s : Config T (DispatcherMem Q) (ThreadLoc Q)}

/-- No callback is entered twice for one publication. -/
theorem nodup_invocations (hdirect : ∀ s a, ok s a → NoDirectCalls s a) (hledger : Ledger M s)
    (hs : (system setup Q).Reach ok s) :
    (s.mem.history.invocations.map fun p => (p.1, p.2.id)).Nodup := by
  refine nodup_of_fibers (fun p : ℕ × Publication E => p.2.id) fun i => ?_
  have hnodup := received_nodup hdirect hledger hs i
  rw [← invoked_eq s hs i, History.invoked, List.map_map] at hnodup
  exact hnodup

/-- A callback is entered with what has been broadcast. -/
theorem broadcast_of_invoked (hdirect : ∀ s a, ok s a → NoDirectCalls s a)
    (hs : (system setup Q).Reach ok s) {p : ℕ × Publication E}
    (hp : p ∈ s.mem.history.invocations) : p.2 ∈ s.mem.books.broadcast := by
  refine Multiset.mem_of_le (received_le hdirect hs p.1) ?_
  rw [← invoked_eq s hs p.1]
  exact List.mem_map_of_mem (List.mem_filter.mpr ⟨hp, by simp⟩)

/-- Only accepted events are delivered. -/
theorem accepted_of_invoked (hdirect : ∀ s a, ok s a → NoDirectCalls s a) (hledger : Ledger M s)
    (hs : (system setup Q).Reach ok s) {p : ℕ × Publication E}
    (hp : p ∈ s.mem.history.invocations) : p.2 ∈ s.mem.history.accepted :=
  Multiset.mem_of_le hledger.broadcast_le (broadcast_of_invoked hdirect hs hp)

end Pairs

/-- **At most once, and only what was accepted.**  Whatever the queue policy, the callbacks and
the ways of shutting down, no callback is entered twice for one publication, and none for an
event that the queue has not accepted and a worker has not broadcast. -/
theorem delivered_at_most_once [Fintype T] (kind : PolicyKind) (hadmitted : kind.Admitted)
    (setup : Setup T) {s : Config T (DispatcherMem (kind.policy T (Publication E))) (ThreadLoc _)}
    (hs : (system setup _).Reach NoDirectCalls s) :
    (s.mem.history.invocations.map fun p => (p.1, p.2.id)).Nodup ∧
      ∀ p ∈ s.mem.history.invocations,
        p.2 ∈ s.mem.history.accepted ∧ ∃ b ∈ s.mem.history.batches, p.2 ∈ b.2 := by
  have hledger := ledger_reach (M := kind.model T (Publication E) hadmitted)
    (kind.contents_init T (Publication E)) (kind.view_init T (Publication E) hadmitted) s
    hs.reachable
  refine ⟨nodup_invocations (fun _ _ h => h) hledger hs, ?_⟩
  intro p hp
  exact ⟨accepted_of_invoked (fun _ _ h => h) hledger hs hp,
    List.mem_flatMap.mp (broadcast_of_invoked (fun _ _ h => h) hs hp)⟩

/-- The theorem applies where a callback has been entered while its event is still being
broadcast. -/
theorem delivered_at_most_once_of_one :
    ∃ h : History (Fin 3) ℕ, h.invocations = [(1, ⟨0, 7⟩)] ∧
      (h.invocations.map fun p => (p.1, p.2.id)).Nodup ∧
      ∀ p ∈ h.invocations, p.2 ∈ h.accepted ∧ ∃ b ∈ h.batches, p.2 ∈ b.2 := by
  obtain ⟨s, hs, hp⟩ := System.exists_reach_of_run
    (system smallSetup (mutexPolicy (Fin 3) (Publication ℕ) 2)) NoDirectCalls
    (fun _ a => drainTest smallSetup a) (s := started smallSetup _) rfl
    (List.flatten [[(1, .constructed)], subscribing {}, publishing 7, working 6])
    (fun s => decide (s.mem.history.invocations = [(1, ⟨0, 7⟩)]))
    (fun a _ s htest => (drainTest_sound htest).2.1) (by decide +kernel)
  exact ⟨s.mem.history, of_decide_eq_true hp,
    delivered_at_most_once (.mutex 2) (by decide : 2 ≠ 0) smallSetup hs⟩

end Dispatcher

end EventDispatcher
