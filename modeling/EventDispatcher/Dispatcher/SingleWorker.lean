import EventDispatcher.Dispatcher.DrainDelivery

/-!
# One worker keeps the order

With a single worker the queue, the hands of the worker and the batches it has broadcast are
one list in the order of acceptance (`Ordered`), whatever the batch size.  A subscriber that is
called by the worker itself is called along that list: from some point on it gets everything,
until it is deactivated (`Following`).
-/

namespace EventDispatcher

open Transition SubscriberState

variable {T E : Type}

namespace OpView

/-- The event that a pop has taken out of the queue. -/
def inTransit {A : Type} : OpView A → List A
  | .pop (some event) => [event]
  | .outside (some (.pop (.success event))) => [event]
  | _ => []

end OpView

/-- What a worker has taken out of the queue and not yet broadcast, in order. -/
def Frame.hand (v : OpView (Publication E)) : Frame T E → List (Publication E)
  | .worker (.callPop batch) => batch
  | .worker (.popping batch) => batch ++ v.inTransit
  | .worker (.acquire batch) => batch
  | _ => []

/-- What the frame holds after its step, none if it is gone. -/
def nextHand (v : OpView (Publication E)) : Option (Frame T E) → List (Publication E)
  | some f => f.hand v
  | none => []

/-- The events broadcast, in order. -/
def History.order (h : History T E) : List (Publication E) := h.batches.flatMap Prod.snd

section Frames

variable [DecidableEq T] {Q : QueuePolicy T (Publication E)} {M : QueueModel Q} {setup : Setup T}
  {flag : Bool} {t : T} {m m' : DispatcherMem Q} {q q' : Q.Loc} {contexts contexts' : Contexts}
  {f : Frame T E} {f' : Option (Frame T E)}

/-- A step of a frame outside the queue. -/
structure HandKept (m m' : DispatcherMem Q) (a a' : List (Publication E)) : Prop where
  accepted : m'.history.accepted = m.history.accepted
  destroyed : m'.history.destroyed = m.history.destroyed
  contents : Q.contents m'.queue = Q.contents m.queue
  order : m'.history.order ++ a' = m.history.order ++ a

/-- **Step lemma for a frame.** -/
theorem FrameStep.handKept (h : FrameStep setup flag t m q contexts f m' q' contexts' f')
    (hfits : f.Fits (M.view q)) :
    HandKept m m' (f.hand (M.view q)) (nextHand (M.view q') f') := by
  cases h with
  | callPop batch hstep =>
      obtain ⟨hview, _, hcontents, _⟩ := M.call hstep
      refine ⟨rfl, rfl, hcontents, ?_⟩
      rw [hview]
      simp [nextHand, Frame.hand, OpView.start, OpView.inTransit, History.order]
  | poppedMore batch hidle hlast | poppedLast batch hidle hlast =>
      rw [M.outside_of_idle hidle hlast]
      exact ⟨rfl, rfl, rfl, rfl⟩
  | @batchEnded batch result hidle hlast hresult =>
      rw [M.outside_of_idle hidle hlast]
      refine ⟨rfl, rfl, rfl, ?_⟩
      cases result with
      | success event => exact absurd rfl (hresult event)
      | _ => simp [nextHand, Frame.hand, OpView.inTransit]
  | popAgain hidle hlast =>
      rw [M.outside_of_idle hidle hlast]
      exact ⟨rfl, rfl, rfl, rfl⟩
  | workerDone hidle hlast hresult =>
      rw [M.outside_of_idle hidle hlast]
      obtain rfl | rfl := hresult <;> exact ⟨rfl, rfl, rfl, rfl⟩
  | acquireNone => exact ⟨rfl, rfl, rfl, by simp [nextHand, Frame.hand, History.order]⟩
  | acquire event events =>
      exact ⟨rfl, rfl, rfl, by simp [nextHand, Frame.hand, History.order]⟩
  | publishCall event kind stop rest hstep | callClose policy hstep =>
      exact ⟨rfl, rfl, (M.call hstep).2.2.1, rfl⟩
  | stopIssued target htarget hstep => exact ⟨rfl, rfl, (M.requestStop hstep).2, rfl⟩
  | publishCounted | publishNext | deactivate | deactivateAgain =>
      exact ⟨by simp, by simp, by simp, by simp [nextHand, Frame.hand, History.order]⟩
  | invoke hframe hstep => cases hframe <;> exact ⟨rfl, rfl, rfl, rfl⟩
  | stop hframe hstep => cases hframe <;> exact ⟨rfl, rfl, rfl, rfl⟩
  | _ => exact ⟨rfl, rfl, rfl, rfl⟩

end Frames

section Queue

variable {xs xs' : List (Publication E)} {v v' : OpView (Publication E)}

/-- Every event that enters the queue does so at its end. -/
theorem QueueMove.pushed_cases {event : Publication E} {kind : PushKind} {stop : Bool} {rest : List E}
    (hmove : QueueMove xs v xs' v')
    (hfits : (Frame.publish event kind stop rest .pushing : Frame T E).Fits v) :
    ∃ new, xs' = xs ++ new := by
  obtain ⟨built, rfl⟩ | ⟨outcome, rfl | rfl⟩ := hfits
  · cases hmove with
    | enter => exact ⟨_, rfl⟩
    | _ => exact ⟨[], (List.append_nil _).symm⟩
  · cases hmove <;> exact ⟨[], (List.append_nil _).symm⟩
  · cases hmove
    exact ⟨[], (List.append_nil _).symm⟩

/-- What a step inside the queue does to the order. -/
theorem QueueMove.hand_cases {f : Frame T E} (hin : f.inQueue = true) (hfits : f.Fits v)
    (hmove : QueueMove xs v xs' v') (b : Books T E) :
    (f.hand v' = f.hand v ∧ ∃ new, (b.moved xs xs' f).accepted = b.accepted ++ new ∧
        (b.moved xs xs' f).destroyed ++ xs' = b.destroyed ++ xs ++ new) ∨
      ∃ event, xs = event :: xs' ∧ f.hand v' = f.hand v ++ [event] ∧
        (b.moved xs xs' f).accepted = b.accepted ∧ (b.moved xs xs' f).destroyed = b.destroyed := by
  unfold Frame.inQueue at hin
  split at hin
  · next batch =>
      have hsame : ∀ {v v' : OpView (Publication E)}, v'.inTransit = v.inTransit →
          ((Frame.worker (.popping batch) : Frame T E).hand v' =
              (Frame.worker (.popping batch) : Frame T E).hand v ∧
            ∃ new, (b.moved xs xs (.worker (.popping batch))).accepted = b.accepted ++ new ∧
              (b.moved xs xs (.worker (.popping batch))).destroyed ++ xs =
                b.destroyed ++ xs ++ new) := by
        intro v v' htransit
        exact ⟨by simp only [Frame.hand, htransit], [], by simp [Books.moved]⟩
      obtain ⟨taken, rfl⟩ | ⟨result, rfl⟩ := hfits
      · cases hmove with
        | quiet | popReturn => exact .inl (hsame rfl)
        | @popFail result hfail =>
            refine .inl (hsame ?_)
            cases result with
            | success event => exact absurd rfl (hfail event)
            | _ => rfl
        | take hhead =>
            exact .inr ⟨_, hhead, by simp [Frame.hand, OpView.inTransit], by simp [Books.moved]⟩
      · cases hmove with
        | quiet => exact .inl (hsame rfl)
  · obtain ⟨new, rfl⟩ := hmove.pushed_cases hfits
    exact .inl ⟨rfl, new, by simp [Books.moved]⟩
  · obtain rfl | ⟨last, rfl⟩ := hfits
    · cases hmove <;> exact .inl ⟨rfl, [], by simp [Books.moved]⟩
    · cases hmove
      exact .inl ⟨rfl, [], by simp [Books.moved]⟩
  · next policy =>
      obtain ⟨count, rfl⟩ | ⟨rfl, rfl⟩ | ⟨count, rfl, rfl⟩ := hfits
      · cases policy with
        | drain =>
            change QueueMove xs (.close false count) xs' v' at hmove
            cases hmove <;> exact .inl ⟨rfl, [], by simp [Books.moved]⟩
        | discard =>
            change QueueMove xs (.close true count) xs' v' at hmove
            cases hmove with
            | discard hsplit => exact .inl ⟨rfl, [], by simp [Books.moved, hsplit]⟩
            | _ => exact .inl ⟨rfl, [], by simp [Books.moved]⟩
      · cases hmove
        exact .inl ⟨rfl, [], by simp [Books.moved]⟩
      · cases hmove
        exact .inl ⟨rfl, [], by simp [Books.moved]⟩
  · cases hin

end Queue

namespace Dispatcher

variable [DecidableEq T] {Q : QueuePolicy T (Publication E)} {M : QueueModel Q} {setup : Setup T}
  {t w : T} {m' : DispatcherMem Q} {l' : ThreadLoc Q} {c : DispatcherChoice Q}
  {s : Config T (DispatcherMem Q) (ThreadLoc Q)}

/-- What a thread has taken out of the queue and not yet broadcast. -/
def hand (M : QueueModel Q) (l : ThreadLoc Q) : List (Publication E) :=
  nextHand (M.view l.queue) l.stack.head?

omit [DecidableEq T] in
theorem user_hand {f : Frame T E} (h : f.user = true) (v : OpView (Publication E)) :
    f.hand v = [] := by
  unfold Frame.user at h
  split at h <;> first | rfl | cases h

omit [DecidableEq T] in
theorem hand_of_not_base {f : Frame T E} (h : f.base = false) (v : OpView (Publication E)) :
    f.hand v = [] := by
  cases f with
  | worker phase => cases h
  | _ => rfl

/-- A thread that runs user code has nothing in its hands. -/
theorem hand_of_user {l : ThreadLoc Q} (h : ∀ f ∈ l.stack.head?, f.user = true) :
    hand M l = [] := by
  unfold hand
  cases htop : l.stack.head? with
  | none => rfl
  | some f => exact user_hand (h f htop) _

/-- **Step lemma**, for the moving thread. -/
theorem StepShape.hand_cases (hs : (system setup Q).Reachable s) (hl : Coherent M (s.loc t))
    (h : StepShape setup t s.mem (s.loc t) c m' l') :
    (m'.history.order ++ hand M l' = s.mem.history.order ++ hand M (s.loc t) ∧
        ∃ new, m'.history.accepted = s.mem.history.accepted ++ new ∧
          m'.history.destroyed ++ Q.contents m'.queue =
            s.mem.history.destroyed ++ Q.contents s.mem.queue ++ new) ∨
      ∃ event, Q.contents s.mem.queue = event :: Q.contents m'.queue ∧
        m'.history.order = s.mem.history.order ∧ hand M l' = hand M (s.loc t) ++ [event] ∧
        m'.history.accepted = s.mem.history.accepted ∧
        m'.history.destroyed = s.mem.history.destroyed := by
  have horder := inOrder_reach s hs t
  have hsame : ∀ {l : ThreadLoc Q}, hand M l = [] → hand M (s.loc t) = [] →
      m'.history.order = s.mem.history.order → m'.history.accepted = s.mem.history.accepted →
      m'.history.destroyed = s.mem.history.destroyed → m'.queue = s.mem.queue →
      m'.history.order ++ hand M l = s.mem.history.order ++ hand M (s.loc t) ∧
        ∃ new, m'.history.accepted = s.mem.history.accepted ++ new ∧
          m'.history.destroyed ++ Q.contents m'.queue =
            s.mem.history.destroyed ++ Q.contents s.mem.queue ++ new := by
    intro l hafter hbefore hbroadcast haccepted hdestroyed hqueue
    refine ⟨by rw [hafter, hbefore, hbroadcast], [], ?_, ?_⟩
    · rw [haccepted, List.append_nil]
    · rw [hdestroyed, hqueue, List.append_nil]
  cases h with
  | constructed hstack =>
      have hnone : hand M (s.loc t) = [] := hand_of_user (by simp [hstack])
      exact .inl (hsame hnone hnone rfl rfl rfl rfl)
  | start hstack hentry =>
      exact .inl (hsame rfl (hand_of_user (by simp [hstack])) rfl rfl rfl rfl)
  | call huser henter =>
      have htop : ∀ f ∈ (s.loc t).stack.head?, f.user = true := by
        intro f hf
        cases hstack : (s.loc t).stack with
        | nil => simp [hstack] at hf
        | cons g rest =>
            rw [hstack] at hf huser
            cases hf
            exact huser
      obtain ⟨_, hbatches, _⟩ := enter_history henter
      obtain ⟨_, haccepted, hdestroyed⟩ := enter_records henter
      refine .inl (hsame ?_ (hand_of_user htop) (by simp only [History.order, hbatches]) haccepted
        hdestroyed (enter_queue henter))
      exact hand_of_not_base (enter_base henter).1 _
  | finish hstack hfinish =>
      refine .inl (hsame ?_ (hand_of_user ?_) rfl rfl rfl rfl)
      · unfold Frame.finishUser at hfinish
        split at hfinish <;> cases hfinish <;> rfl
      · rw [hstack]
        intro f hf
        cases hf
        exact (finishUser_account hfinish (.outside none)).1
  | @frame flag thread _ q' contexts' f f' rest hstack hstep =>
      have hfits : f.Fits (M.view (s.loc t).queue) := hl.1 f (by rw [hstack]; rfl)
      have hbefore : hand M (s.loc t) = f.hand (M.view (s.loc t).queue) := by
        rw [hand, hstack]
        rfl
      have hafter : hand M ⟨q', contexts', f'.toList ++ rest⟩ = nextHand (M.view q') f' := by
        cases f' with
        | some g => rfl
        | none =>
            refine hand_of_user fun f hf => ?_
            have hsuspended := horder.suspended
            rw [hstack] at hsuspended
            exact hsuspended f (List.mem_of_mem_head? hf)
      obtain ⟨haccepted, hdestroyed, hcontents, hbroadcast⟩ := hstep.handKept hfits
      refine .inl ⟨by rw [hbefore, hafter, hbroadcast], [], ?_, ?_⟩
      · rw [haccepted, List.append_nil]
      · rw [hdestroyed, hcontents, List.append_nil]
  | @queue choice qm q' f rest hstack hin hbusy hstep =>
      have hfits : f.Fits (M.view (s.loc t).queue) := hl.1 f (by rw [hstack]; rfl)
      have hmove := (M.move (queue_reach s hs) hbusy hstep).1
      have hbefore : hand M (s.loc t) = f.hand (M.view (s.loc t).queue) := by
        rw [hand, hstack]
        rfl
      have hafter : hand M { s.loc t with queue := q' } = f.hand (M.view q') := by
        rw [hand]
        change nextHand _ (s.loc t).stack.head? = _
        rw [hstack]
        rfl
      obtain ⟨hkept, new, haccepted, hdestroyed⟩ | ⟨event, hhead, htaken, haccepted, hdestroyed⟩ :=
        hmove.hand_cases hin hfits s.mem.books
      · exact .inl ⟨by rw [hbefore, hafter, hkept]; rfl, new, haccepted, hdestroyed⟩
      · exact .inr ⟨event, hhead, rfl, by rw [hbefore, hafter, htaken], haccepted, hdestroyed⟩

section Run

variable [Fintype T]
  {ok : Config T (DispatcherMem Q) (ThreadLoc Q) → T × DispatcherChoice Q → Prop}

omit [Fintype T] in
theorem reach_of_step (hs : (system setup Q).Reach ok s) (hok : ok s (t, c))
    (hstep : step setup t c s.mem (s.loc t) = some (m', l')) :
    (system setup Q).Reach ok ⟨m', Function.update s.loc t l'⟩ :=
  .step hs hok (by simp only [system, interleave, Config.step, hstep]; rfl)

/-- The batches, the hands of worker `w`, what has been destroyed and the queue are the events
in the order of acceptance. -/
def Ordered (M : QueueModel Q) (w : T) (s : Config T (DispatcherMem Q) (ThreadLoc Q)) : Prop :=
  s.mem.history.accepted = s.mem.history.order ++ hand M (s.loc w) ++
    (s.mem.history.destroyed ++ Q.contents s.mem.queue)

/-- Only a worker that has not finished has taken an event out of the queue. -/
theorem hand_of_not_worker (hs : (system setup Q).Reach ok s)
    (hnot : t ∈ setup.workers → t ∈ s.mem.threads.finished) : hand M (s.loc t) = [] := by
  unfold hand
  cases htop : (s.loc t).stack.head? with
  | none => rfl
  | some f =>
      cases f with
      | worker phase =>
          obtain ⟨hworker, hunfinished⟩ :=
            (threadInv_reach s hs).placed t _ (List.mem_of_mem_head? htop)
          exact absurd (hnot hworker) hunfinished
      | _ => rfl

/-- **Run lemma.** -/
theorem ordered_reach (hone : setup.workers = [w]) (hempty : Q.contents Q.mem₀ = [])
    (hidle : M.view Q.loc₀ = .outside none)
    (hclear : ∀ s, (system setup Q).Reach ok s → s.mem.history.destroyed ≠ [] →
      Q.contents s.mem.queue = []) :
    ∀ s, (system setup Q).Reach ok s → Ordered M w s := by
  refine interleave_invariant ?_ ?_
  · intro s hs
    have hnone : hand M (s.loc w) = [] := by
      rw [show s = _ from hs]
      simp [started, hone, hand, nextHand, Frame.hand]
    rw [Ordered, hnone, show s = _ from hs]
    simp [started, History.order, hempty]
  · intro s t c m l hs hinv hok hstep
    have hs' := reach_of_step hs hok hstep
    have hcases := (step_shape hstep).hand_cases hs.reachable
      ((ledger_reach hempty hidle s hs.reachable).coherent t)
    unfold Ordered at hinv ⊢
    simp only
    by_cases ht : t = w
    · subst ht
      rw [Function.update_self]
      obtain ⟨hbroadcast, new, haccepted, hdestroyed⟩ |
        ⟨event, hhead, hbroadcast, htaken, haccepted, hdestroyed⟩ := hcases
      · rw [hbroadcast, haccepted, hdestroyed, hinv]
        simp
      · -- an event is only taken while nothing has been destroyed
        have hnone : s.mem.history.destroyed = [] := by
          by_contra hsome
          rw [hclear s hs hsome] at hhead
          cases hhead
        rw [hbroadcast, haccepted, hdestroyed, hinv, htaken, hnone, hhead]
        simp
    · have hmine : t ∉ setup.workers := by simpa [hone] using ht
      have hbefore : hand M (s.loc t) = [] := hand_of_not_worker hs fun hw => absurd hw hmine
      have hafter : hand M l = [] := by
        have hthere : hand M (Function.update s.loc t l t) = [] :=
          hand_of_not_worker hs' fun hw => absurd hw hmine
        rwa [Function.update_self] at hthere
      rw [Function.update_of_ne (Ne.symm ht)]
      rw [hbefore, hafter, List.append_nil, List.append_nil] at hcases
      obtain ⟨hbroadcast, new, haccepted, hdestroyed⟩ | ⟨event, _, _, htaken, _⟩ := hcases
      · rw [hbroadcast, haccepted, hdestroyed, hinv]
        simp
      · cases htaken

end Run

end Dispatcher

namespace MutexQueueThreads

variable {E : Type} [DecidableEq T] {t : T} {m m' : MutexQueueMem T E} {l l' : MutexQueueLoc E}

/-- Inside `close_and_discard`, after its critical section. -/
theorem seals_of_discard {c : MutexQueueChoice T E} {count : ℕ}
    (h : step t c m l = some (m', l')) (hview : view l = .close true count) :
    seals l' = true := by
  cases l with
  | discard =>
      cases c with
      | lock throws =>
          cases h
          rfl
      | _ => cases h
  | discardNotifyEmpty n | discardNotifyFull n =>
      cases c with
      | notifyAll =>
          cases h
          rfl
      | _ => cases h
  | _ => cases hview

end MutexQueueThreads

namespace Dispatcher

/-- **The mutex-based queue destroys everything at once.** -/
theorem sealed_of_destroyed [DecidableEq T] [Fintype T] {capacity : ℕ} (hcap : capacity ≠ 0)
    {setup : Setup T}
    {ok : Config T (DispatcherMem (mutexPolicy T (Publication E) capacity)) (ThreadLoc _) →
      T × DispatcherChoice (mutexPolicy T (Publication E) capacity) → Prop} :
    ∀ s, (system setup (mutexPolicy T (Publication E) capacity)).Reach ok s →
      s.mem.history.destroyed ≠ [] → MutexQueueThreads.Sealed s.mem.queue := by
  refine interleave_invariant ?_ ?_
  · intro s hs hsome
    rw [show s = _ from hs] at hsome
    exact absurd rfl hsome
  · intro s t c m l hs hinv _ hstep hsome
    have hshape := step_shape hstep
    have hkeep := hshape.closed (mutexSeal T (Publication E) hcap) hs.reachable
    by_cases hbefore : s.mem.history.destroyed = []
    · cases hshape with
      | call huser henter =>
          rw [(enter_records henter).2.2] at hsome
          exact absurd hbefore hsome
      | frame hstack hframe =>
          rw [hframe.destroyed_eq] at hsome
          exact absurd hbefore hsome
      | @queue choice qm q' f rest hstack hin hbusy hqueue =>
          have hfits := (ledger_reach (M := mutexModel T (Publication E) hcap) rfl rfl s
            hs.reachable).coherent t |>.1 f (by rw [hstack]; rfl)
          simp only [DispatcherMem.setQueue_history_destroyed, hbefore, List.nil_append] at hsome
          unfold destroyed at hsome
          split at hsome
          · next phase =>
              cases phase with
              | closing =>
                  obtain ⟨count, hview⟩ | ⟨hdrain, _⟩ | ⟨count, _, hview⟩ := hfits
                  · have hrep := mutex_represents T _ hcap (queue_reach s hs)
                    have hseals := MutexQueueThreads.seals_of_discard hqueue hview
                    rcases (MutexQueueThreads.step_effect hqueue).seals hrep hseals with
                      hearlier | hnow
                    · exact hkeep (MutexQueueThreads.sealed_reach (Nat.pos_of_ne_zero hcap) _
                        (mutex_reach T _ (queue_reach s hs)) t hearlier)
                    · exact hnow
                  · cases hdrain
                  · have hidle := ((mutexModel T (Publication E) hcap).idle_iff _).mpr (by
                      rw [← (mutexModel T (Publication E) hcap).outside_last _ _ hview, hview])
                    rw [hidle] at hbusy
                    cases hbusy
              | _ => cases hin
          · exact absurd rfl hsome
      | _ => exact absurd hbefore hsome
    · exact hkeep (hinv hbefore)

end Dispatcher

/-- The subscriber has let the callback in, and it has not been entered. -/
def Part.granted : Part E → Bool
  | .invoke _ .lockSerial => true
  | .invoke _ (.callback .enter) => true
  | _ => false

/-- The thread is about to enter the callback of subscriber `i`. -/
def Granted {Q : QueuePolicy T (Publication E)} (i : ℕ) (l : ThreadLoc Q) : Prop :=
  ∃ p ∈ parts i l.stack, p.granted = true

section Steps

variable [DecidableEq T] {flag : Bool} {t : T} {next i : ℕ} {finished : Finset T}
  {s s' : SubscriberState T (Publication E)} {contexts contexts' : Contexts} {p p' : Part E}

/-- Only an active subscriber lets a callback in. -/
theorem InvokeStep.granted_cases {event : Publication E} {phase phase' : InvokePhase}
    (h : InvokeStep flag t i s contexts event phase s' contexts' phase')
    (hgranted : (Part.invoke event phase').granted = true) :
    phase.undecided = true ∧ phase'.undecided = true ∧
      ((Part.invoke event phase).granted = true ∨ s.active = true) := by
  cases h with
  | grantSerial hactive | grant hactive => exact ⟨rfl, rfl, .inr hactive⟩
  | lockSerial => exact ⟨rfl, rfl, .inl rfl⟩
  | callback hstep => cases hstep <;> cases hgranted
  | _ => cases hgranted

/-- Without an executor only a callback that has been let in is entered. -/
theorem PartStep.received_eq (h : PartStep flag t next i finished s p s' p')
    (hgranted : p.granted = false) (hexecutor : ∀ phase, p ≠ .executor phase) :
    s'.received = s.received := by
  cases h with
  | construct options hnext hfresh => rw [hfresh]
  | invoke hstep =>
      cases hstep with
      | callback hstep =>
          cases hstep with
          | enter => cases hgranted
          | _ => rfl
      | _ => rfl
  | executor => exact absurd rfl (hexecutor _)
  | @stop drain _ _ _ hstep =>
      cases hstep with
      | stopMailbox => cases drain <;> rfl
      | _ => rfl
  | _ => rfl

end Steps

section Frames

variable [DecidableEq T] {Q : QueuePolicy T (Publication E)} {setup : Setup T} {flag : Bool} {t : T}
  {m m' : DispatcherMem Q} {q q' : Q.Loc} {contexts contexts' : Contexts} {f : Frame T E}
  {f' : Option (Frame T E)} {i : ℕ}

/-- **Step lemma for a frame.**  A step that leads to a callback owes what it owed before. -/
theorem FrameStep.granted_cases (h : FrameStep setup flag t m q contexts f m' q' contexts' f')
    (hgranted : (nextPart i f').granted = true) :
    nextAhead i f' = f.ahead i ∧ ((f.part i).granted = true ∨ (m.subs i).active = true) := by
  cases h with
  | @invoke j event _ hframe phase phase' s _ hstep =>
      cases hframe with
      | worker snapshot subs events =>
          by_cases hj : j = i
          · subst hj
            simp only [nextPart, Frame.part, if_true] at hgranted ⊢
            obtain ⟨hphase, hphase', hcases⟩ := hstep.granted_cases hgranted
            exact ⟨by simp only [nextAhead, Frame.ahead, hphase, hphase'], hcases⟩
          · simp [nextPart, Frame.part, hj, Part.granted] at hgranted
      | direct =>
          by_cases hj : j = i
          · subst hj
            simp only [nextPart, Frame.part, if_true] at hgranted ⊢
            exact ⟨rfl, (hstep.granted_cases hgranted).2.2⟩
          · simp [nextPart, Frame.part, hj, Part.granted] at hgranted
  | stop hframe hstep =>
      cases hframe with
      | unsubscribe self | shutdown policy todo =>
          simp only [nextPart, Frame.part] at hgranted
          split at hgranted <;> cases hgranted
  | executor hstep =>
      simp only [nextPart, Frame.part] at hgranted
      split at hgranted <;> cases hgranted
  | nextSub | deactivateAgain | retireUnlock =>
      simp only [nextPart, Frame.part] at hgranted
      split at hgranted <;> cases hgranted
  | loadSnapshot policy =>
      cases hcurrent : m.registry.current with
      | nil => simp [nextPart, Frame.part, hcurrent, Part.granted] at hgranted
      | cons j todo =>
          simp only [nextPart, Frame.part, hcurrent] at hgranted
          split at hgranted <;> cases hgranted
  | stopNext policy j todo =>
      cases todo with
      | nil => cases hgranted
      | cons k todo =>
          simp only [nextPart, Frame.part] at hgranted
          split at hgranted <;> cases hgranted
  | _ => cases hgranted

end Frames

namespace Dispatcher

section Granted

variable {Q : QueuePolicy T (Publication E)} {i : ℕ}

theorem user_granted {f : Frame T E} (h : f.user = true) : (f.part i).granted = false := by
  unfold Frame.user at h
  split at h <;> first | contradiction | rfl | (simp only [Frame.part]; split <;> rfl)

theorem finishUser_granted {f f' : Frame T E} {threw : Bool} (h : f.finishUser threw = some f') :
    (f'.part i).granted = false := by
  unfold Frame.finishUser at h
  split at h <;> cases h <;> first | rfl | skip
  all_goals
    simp only [Frame.part]
    split
    · cases threw <;> rfl
    · rfl

theorem enter_granted {m m' : DispatcherMem Q} {call : Call T E} {f : Frame T E}
    (h : enter m call = some (m', f)) : (f.part i).granted = false := by
  cases call with
  | unsubscribe j =>
      simp only [enter] at h
      split at h <;> cases h
      rfl
  | invoke j event =>
      simp only [enter] at h
      split at h <;> cases h
      simp only [Frame.part]
      split <;> rfl
  | _ =>
      cases h
      rfl

variable [DecidableEq T] {setup : Setup T} {t : T} {m m' : DispatcherMem Q} {l l' : ThreadLoc Q}
  {c : DispatcherChoice Q}

/-- **Step lemma**, for a thread. -/
theorem StepShape.granted_cases (h : StepShape setup t m l c m' l') (horder : InOrder l)
    (hgranted : Granted i l') :
    ahead i l' = ahead i l ∧ (Granted i l ∨ (m.subs i).active = true) := by
  obtain ⟨p, hp, hpart⟩ := hgranted
  obtain ⟨g, hg, rfl⟩ := List.mem_map.mp hp
  have hthere : g ∈ l.stack → Granted i l := fun hmem => ⟨_, List.mem_map_of_mem hmem, hpart⟩
  unfold ahead
  cases h with
  | constructed hstack | queue hstack => exact ⟨rfl, .inl (hthere hg)⟩
  | start hstack =>
      obtain rfl := List.mem_singleton.mp hg
      simp only [Frame.part] at hpart
      split at hpart <;> cases hpart
  | call huser henter =>
      rcases List.mem_cons.mp hg with rfl | hg
      · rw [enter_granted henter] at hpart
        cases hpart
      · refine ⟨?_, .inl (hthere hg)⟩
        rw [List.flatMap_cons, ahead_of_not_base (enter_base henter).1]
        rfl
  | finish hstack hfinish =>
      rcases List.mem_cons.mp hg with rfl | hg
      · rw [finishUser_granted hfinish] at hpart
        cases hpart
      · refine ⟨?_, .inl (hthere (by rw [hstack]; exact List.mem_cons_of_mem _ hg))⟩
        rw [hstack, List.flatMap_cons, List.flatMap_cons, finishUser_ahead hfinish]
  | @frame _ _ _ _ _ f f' rest hstack hstep =>
      have hsuspended := horder.suspended
      rw [hstack] at hsuspended
      rcases List.mem_append.mp hg with hg | hg
      · obtain rfl : f' = some g := by simpa using hg
        obtain ⟨hahead, hcases⟩ := hstep.granted_cases hpart
        refine ⟨?_, hcases.imp_left fun hf => ?_⟩
        · rw [hstack]
          exact congrArg (· ++ rest.flatMap (Frame.ahead i)) hahead
        · exact ⟨_, List.mem_map_of_mem (by rw [hstack]; exact List.mem_cons_self), hf⟩
      · rw [user_granted (hsuspended g hg)] at hpart
        cases hpart

omit [DecidableEq T] in
/-- A callback that is about to be entered is owed its event. -/
theorem ahead_of_granted (hdirect : ∀ j event phase, .invoke j event phase ∉ l.stack)
    (h : Granted i l) : ahead i l ≠ [] := by
  obtain ⟨p, hp, hgranted⟩ := h
  obtain ⟨f, hf, rfl⟩ := List.mem_map.mp hp
  intro hnone
  have hnothing := List.flatMap_eq_nil_iff.mp hnone f hf
  cases hpart : f.part i with
  | invoke event phase =>
      rw [hpart] at hgranted
      rcases part_invoke_cases hpart with ⟨snapshot, subs, events, rfl⟩ | rfl
      · have hphase : phase.undecided = true := by
          cases phase with
          | lockSerial => rfl
          | callback phase =>
              cases phase with
              | enter => rfl
              | _ => cases hgranted
          | _ => cases hgranted
        simp [Frame.ahead, hphase] at hnothing
      · exact hdirect _ _ _ hf
  | _ =>
      rw [hpart] at hgranted
      cases hgranted

/-- Without an executor only a callback that has been let in is entered. -/
theorem StepShape.received_eq (h : StepShape setup t m l c m' l') (hm : Known m)
    (hgranted : ¬ Granted i l) (hexecutor : ∀ phase, .executor i phase ∉ l.stack) :
    (m'.subs i).received = (m.subs i).received := by
  obtain ⟨p, p', hpart, hreplaced⟩ := h.partStep hm i
  refine hpart.received_eq ?_ ?_
  · rw [← Bool.not_eq_true]
    intro hp
    by_cases hidle : p = .idle
    · subst hidle
      cases hp
    · exact hgranted ⟨p, hreplaced.mem_of_ne hidle, hp⟩
  · rintro phase rfl
    obtain ⟨f, hf, hfpart⟩ := List.mem_map.mp (hreplaced.mem_of_ne (by simp))
    rw [part_executor_iff.mp hfpart] at hf
    exact hexecutor phase hf

end Granted

section Following

variable [DecidableEq T] [Fintype T] {Q : QueuePolicy T (Publication E)} {M : QueueModel Q}
  {setup : Setup T} {t w : T} {i a : ℕ} {m' : DispatcherMem Q} {l' : ThreadLoc Q}
  {c : DispatcherChoice Q} {s : Config T (DispatcherMem Q) (ThreadLoc Q)}
  {ok : Config T (DispatcherMem Q) (ThreadLoc Q) → T × DispatcherChoice Q → Prop}

omit [Fintype T] in
/-- **Run lemma**: who has been deactivated while the workers run has been unsubscribed. -/
theorem unsubscribed_or_gone : ∀ s, (system setup Q).Reach ok s → ∀ i,
    (s.mem.subs i).active = true ∨ i ∈ s.mem.history.unsubscribed ∨ WorkersGone setup s.mem := by
  refine interleave_invariant ?_ ?_
  · intro s hs i
    rw [show s = _ from hs]
    exact .inl rfl
  · intro s t c m l hs hinv _ hstep i
    have hshape := step_shape hstep
    have hlater : i ∈ s.mem.history.unsubscribed ∨ WorkersGone setup s.mem →
        i ∈ m.history.unsubscribed ∨ WorkersGone setup m :=
      Or.imp hshape.unsubscribed_subset fun hgone =>
        workersGone_mono hgone hshape.finished_subset
    rcases hinv i with hactive | hsettled
    · rcases hshape.active_cases with ⟨hkeep, _⟩ | ⟨j, heq⟩
      · exact .inl (hkeep i hactive)
      · by_cases hij : i = j
        · subst hij
          right
          by_cases hreturned : s.mem.shutdownReturned = true
          · have hshutdown := shutdownInv_reach s hs
            exact hlater (.inr (hshutdown.stopped (hshutdown.returned hreturned)))
          · left
            simp only [heq]
            exact mem_recordUnsubscribed hreturned
        · left
          simp only [heq, DispatcherMem.recordUnsubscribed_subs, DispatcherMem.setSub_subs]
          rwa [Function.update_of_ne hij]
    · exact .inr (hlater hsettled)

/-- A subscriber that has never been in a snapshot has been handed nothing. -/
theorem handed_of_unpublished (hdirect : ∀ s a, ok s a → NoDirectCalls s a) :
    ∀ s, (system setup Q).Reach ok s → ∀ i, i ∉ s.mem.history.published → handed i s = 0 := by
  refine interleave_invariant ?_ ?_
  · intro s hs i _
    have hle := handed_le hdirect s (.init hs) i
    rw [show s = _ from hs] at hle ⊢
    exact Multiset.le_zero.mp hle
  · intro s t c m l hs hinv _ hstep i hi
    have hshape := step_shape hstep
    have hbefore := hinv i fun hthere => hi (hshape.published_subset hthere)
    obtain ⟨hhanded, _⟩ | ⟨batch, _, _, hhanded⟩ | ⟨event, hhanded, _⟩ :=
      handed_cases (handover_of_reach hdirect hs hstep i)
    · rw [hhanded, hbefore]
    · have habsent : s.mem.registry.current.count i = 0 := by
        refine List.count_eq_zero.mpr fun hcurrent => hi (hshape.published_subset ?_)
        exact (registryInv_reach s hs).ok.subset i hcurrent
      rw [hhanded, hbefore, habsent, replicate_zero_or_one (Nat.zero_le 1)]
      rfl
    · rw [hbefore] at hhanded
      exact absurd hhanded.symm (Multiset.cons_ne_zero)

/-- Subscriber `i` gets the events that worker `w` broadcasts, from the `a`-th on: all of them,
or until it has been unsubscribed. -/
inductive Along (w : T) (i a : ℕ) (s : Config T (DispatcherMem Q) (ThreadLoc Q)) : Prop
  | intact (hsegment : s.mem.history.order.drop a =
      (s.mem.subs i).received ++ ahead i (s.loc w))
  | left (hinactive : (s.mem.subs i).active = false) (hleft : i ∈ s.mem.history.unsubscribed)
      (hnever : ¬ Granted i (s.loc w))
      (hsegment : (s.mem.subs i).received <+: s.mem.history.order.drop a)

/-- It begins no later than the first event that was published after it had its handle. -/
structure Following (w : T) (i a : ℕ) (s : Config T (DispatcherMem Q) (ThreadLoc Q)) : Prop where
  start : a ≤ s.mem.history.order.length
  due : ∀ j event, s.mem.history.accepted[j]? = some event → i ∈ s.mem.history.due event.id → a ≤ j
  along : Along w i a s

/-- The events due to a subscriber stay behind its start. -/
theorem due_step (hledger : Ledger M s) (hshape : StepShape setup t s.mem (s.loc t) c m' l')
    (hs : (system setup Q).Reachable s) (hordered : Ordered M w s)
    (hstart : a ≤ s.mem.history.order.length)
    (hdue : ∀ j event, s.mem.history.accepted[j]? = some event →
      i ∈ s.mem.history.due event.id → a ≤ j) :
    ∀ j event, m'.history.accepted[j]? = some event → i ∈ m'.history.due event.id → a ≤ j := by
  intro j event hj hmem
  obtain ⟨new, hnew⟩ : ∃ new, m'.history.accepted = s.mem.history.accepted ++ new := by
    rcases hshape.hand_cases hs (hledger.coherent t) with ⟨_, new, hnew, _⟩ | ⟨_, _, _, _, hsame, _⟩
    · exact ⟨new, hnew⟩
    · exact ⟨[], by rw [hsame, List.append_nil]⟩
  by_cases hold : j < s.mem.history.accepted.length
  · rw [hnew, List.getElem?_append_left hold] at hj
    have hlt := hledger.accepted_lt (List.mem_of_getElem? hj)
    refine hdue j event hj ?_
    rcases hshape.due_cases with ⟨_, hsame⟩ | hupdated
    · rwa [hsame] at hmem
    · rwa [hupdated, Function.update_of_ne hlt.ne] at hmem
  · have hlength := congrArg List.length hordered
    simp only [List.length_append] at hlength
    omega

/-- A subscriber without a mailbox has no executor. -/
theorem no_executor (hs : (system setup Q).Reach ok s)
    (hdelivery : (s.mem.subs i).options.delivery ≠ .isolated) (t : T)
    (phase : ExecutorPhase (Publication E)) : .executor i phase ∉ (s.loc t).stack := by
  intro hmem
  refine hdelivery ((executorInv_reach s hs).isolated i ?_)
  rw [((threadInv_reach s hs).placed t _ hmem).1]
  simp

/-- **Step lemma**, for a step of another thread. -/
theorem Along.of_ne (h : Along w i a s) (hdirect : ∀ s a, ok s a → NoDirectCalls s a)
    (hs : (system setup Q).Reach ok s)
    (hstep : step setup t c s.mem (s.loc t) = some (m', l')) (htw : t ≠ w)
    (ht : t ∉ setup.workers) (hdelivery : (s.mem.subs i).options.delivery ≠ .isolated) :
    Along w i a ⟨m', Function.update s.loc t l'⟩ := by
  have hshape := step_shape hstep
  have hknown := (allotted_reach s hs).mem
  have horder : m'.history.order = s.mem.history.order := by
    unfold History.order
    rw [hshape.batches_of_not_worker ((threadInv_reach s hs).placed t) fun hw => absurd hw ht]
  have hreceived : (m'.subs i).received = (s.mem.subs i).received := by
    refine hshape.received_eq hknown ?_ (no_executor hs hdelivery t)
    intro hgranted
    refine ahead_of_granted (noDirectCalls_reach hdirect s hs t) hgranted ?_
    exact ahead_of_not_worker hs (fun hw => absurd hw ht) i
  have hloc : Function.update s.loc t l' w = s.loc w := Function.update_of_ne (Ne.symm htw) _ _
  cases h with
  | intact hsegment => exact .intact (by simp only [horder, hreceived, hloc, hsegment])
  | left hinactive hleft hnever hsegment =>
      refine .left ((hshape.accounted hknown i).inactive hinactive).1
        (hshape.unsubscribed_subset hleft) (by simpa only [hloc] using hnever) ?_
      simpa only [horder, hreceived] using hsegment

/-- **Step lemma**, for a step of the worker. -/
theorem Following.step_worker (h : Following w i a s) (hdirect : ∀ s a, ok s a → NoDirectCalls s a)
    (hs : (system setup Q).Reach ok s)
    (hstep : step setup w c s.mem (s.loc w) = some (m', l'))
    (hdelivery : (s.mem.subs i).options.delivery ≠ .isolated)
    (hoptions : (m'.subs i).options.delivery ≠ .isolated) :
    ∃ b, (b = a ∨ i ∉ m'.history.published) ∧
      b ≤ m'.history.order.length ∧ Along w i b ⟨m', Function.update s.loc w l'⟩ := by
  have hshape := step_shape hstep
  have hknown := (allotted_reach s hs).mem
  have hinactive' : (s.mem.subs i).active = false → (m'.subs i).active = false :=
    fun hinactive => ((hshape.accounted hknown i).inactive hinactive).1
  have hgot : ∀ {s : SubscriberState T (Publication E)}, s.options.delivery ≠ .isolated →
      s.got = s.received := fun hne => if_neg hne
  have hgranted := hshape.granted_cases (i := i) (inOrder_reach s hs w)
  have hempty := ahead_of_granted (i := i) (noDirectCalls_reach hdirect s hs w)
  have hunsubscribed : (s.mem.subs i).active = false → ¬ WorkersGone setup s.mem →
      i ∈ s.mem.history.unsubscribed := by
    intro hinactive hworking
    rcases unsubscribed_or_gone s hs i with hactive | hleft | hgone
    · rw [hinactive] at hactive
      cases hactive
    · exact hleft
    · exact absurd hgone hworking
  -- a subscriber that has left is not called again
  have hdead : (s.mem.subs i).active = false → ¬ Granted i (s.loc w) → ¬ Granted i l' := by
    intro hinactive hnever hthere
    rcases (hgranted hthere).2 with hbefore | hactive
    · exact hnever hbefore
    · rw [hinactive] at hactive
      cases hactive
  obtain ⟨hstart, hdue, halong⟩ := h
  cases handover_of_reach hdirect hs hstep i with
  | keep hsame hbatches hahead =>
      rw [hgot hoptions, hgot hdelivery] at hsame
      have horder : m'.history.order = s.mem.history.order := by
        unfold History.order
        rw [hbatches]
      refine ⟨a, .inl rfl, by rw [horder]; exact hstart, ?_⟩
      cases halong with
      | intact hsegment =>
          exact .intact (by simp only [horder, hsame, Function.update_self, hahead, hsegment])
      | left hinactive hleft hnever hsegment =>
          refine .left (hinactive' hinactive) (hshape.unsubscribed_subset hleft) ?_ ?_
          · simpa only [Function.update_self] using hdead hinactive hnever
          · simpa only [horder, hsame] using hsegment
  | get event htaken hbatches hbefore =>
      rw [hgot hoptions, hgot hdelivery] at htaken
      have horder : m'.history.order = s.mem.history.order := by
        unfold History.order
        rw [hbatches]
      refine ⟨a, .inl rfl, by rw [horder]; exact hstart, ?_⟩
      cases halong with
      | intact hsegment =>
          refine .intact ?_
          simp only [horder, htaken, Function.update_self, hsegment, hbefore]
          simp
      | left hinactive hleft hnever hsegment =>
          have hsame := hshape.received_eq hknown hnever (no_executor hs hdelivery w)
          rw [hsame] at htaken
          simp at htaken
  | lose event hsame hbatches hbefore hlost hinactive =>
      rw [hgot hoptions, hgot hdelivery] at hsame
      have horder : m'.history.order = s.mem.history.order := by
        unfold History.order
        rw [hbatches]
      have hnow := hinactive hdelivery
      refine ⟨a, .inl rfl, by rw [horder]; exact hstart, ?_⟩
      cases halong with
      | intact hsegment =>
          refine .left (hinactive' hnow) (hshape.unsubscribed_subset (hunsubscribed hnow ?_)) ?_ ?_
          · intro hgone
            rw [ahead_of_not_worker hs (hgone w) i] at hbefore
            cases hbefore
          · simp only [Function.update_self]
            intro hthere
            have hsame := (hgranted hthere).1
            rw [hbefore] at hsame
            exact absurd (congrArg List.length hsame) (by simp)
          · simp only [horder, hsame, hsegment]
            exact List.prefix_append _ _
      | left _ hleft hnever hsegment =>
          refine .left (hinactive' hnow) (hshape.unsubscribed_subset hleft) ?_ ?_
          · simpa only [Function.update_self] using hdead hnow hnever
          · simpa only [horder, hsame] using hsegment
  | acquire batch hrecorded hbefore hafter =>
      have horder : m'.history.order = s.mem.history.order ++ batch := by
        rw [hrecorded]
        simp [History.order]
      have hreceived : (m'.subs i).received = (s.mem.subs i).received := by rw [hrecorded]; rfl
      have hlonger : a ≤ m'.history.order.length := by
        rw [horder, List.length_append]
        omega
      have hdrop : m'.history.order.drop a = s.mem.history.order.drop a ++ batch := by
        rw [horder, List.drop_append_of_le_length hstart]
      have hnever : ¬ Granted i (s.loc w) := fun hthere => hempty hthere hbefore
      rw [replicate_zero_or_one (count_current_le hs i)] at hafter
      cases halong with
      | intact hsegment =>
          rw [hbefore, List.append_nil] at hsegment
          split at hafter
          · next habsent =>
              have hcurrent := List.count_eq_zero.mp habsent
              cases hactive : (s.mem.subs i).active with
              | true =>
                  -- it is not in any snapshot yet, and begins behind this batch
                  have hnew : i ∉ s.mem.history.published := fun hthere =>
                    hcurrent ((registryInv_reach s hs).ok.complete i hthere hactive)
                  refine ⟨m'.history.order.length, .inr (by rw [hrecorded]; exact hnew), le_rfl,
                    .intact ?_⟩
                  have hnothing := handed_of_unpublished hdirect s hs i hnew
                  have hnone : (s.mem.subs i).got = [] := by
                    have hzero := (add_eq_zero.mp hnothing).1
                    simpa using hzero
                  rw [hgot hdelivery] at hnone
                  simp only [Function.update_self, hafter, hreceived, hnone, List.drop_length]
                  rfl
              | false =>
                  refine ⟨a, .inl rfl, hlonger, .left (hinactive' hactive)
                    (hshape.unsubscribed_subset (hunsubscribed hactive ?_)) ?_ ?_⟩
                  · -- a worker that broadcasts has not finished
                    intro hgone
                    have hsame := hshape.batches_of_not_worker ((threadInv_reach s hs).placed w)
                      (hgone w)
                    rw [hrecorded] at hsame
                    simp at hsame
                  · simpa only [Function.update_self] using hdead hactive hnever
                  · simp only [hreceived, hdrop, hsegment]
                    exact List.prefix_append _ _
          · refine ⟨a, .inl rfl, hlonger, .intact ?_⟩
            simp only [Function.update_self, hafter, hreceived, hdrop, hsegment]
      | left hinactive hleft _ hsegment =>
          refine ⟨a, .inl rfl, hlonger, .left (hinactive' hinactive)
            (hshape.unsubscribed_subset hleft) ?_ ?_⟩
          · simpa only [Function.update_self] using hdead hinactive hnever
          · simp only [hreceived, hdrop]
            exact hsegment.trans (List.prefix_append _ _)

omit [Fintype T] in
/-- The way a subscriber is delivered to does not change. -/
theorem StepShape.not_isolated_before (h : StepShape setup t s.mem (s.loc t) c m' l')
    (hm : Known s.mem) (hafter : (m'.subs i).options.delivery ≠ .isolated) :
    (s.mem.subs i).options.delivery ≠ .isolated := by
  obtain ⟨p, p', hpart, _⟩ := h.partStep hm i
  rcases hpart.options_eq with hsame | hnext
  · rwa [hsame] at hafter
  · rw [hm.fresh i hnext.ge]
    simp

/-- **Run lemma.** -/
theorem following_reach (hone : setup.workers = [w])
    (hdirect : ∀ s a, ok s a → NoDirectCalls s a) (hempty : Q.contents Q.mem₀ = [])
    (hidle : M.view Q.loc₀ = .outside none)
    (hordered : ∀ s, (system setup Q).Reach ok s → Ordered M w s) :
    ∀ s, (system setup Q).Reach ok s → ∀ i, (s.mem.subs i).options.delivery ≠ .isolated →
      ∃ a, Following w i a s := by
  refine interleave_invariant ?_ ?_
  · intro s hs i _
    have hahead : ahead i (s.loc w) = [] := by
      rw [show s = _ from hs]
      simp [started, hone, ahead, Frame.ahead]
    refine ⟨0, Nat.zero_le _, fun j event _ _ => Nat.zero_le j, .intact ?_⟩
    rw [hahead, show s = _ from hs]
    rfl
  · intro s t c m l hs hinv hok hstep i hoptions
    have hs' := reach_of_step hs hok hstep
    have hshape := step_shape hstep
    have hdelivery := hshape.not_isolated_before (allotted_reach s hs).mem hoptions
    obtain ⟨a, hfollowing⟩ := hinv i hdelivery
    have hdue := due_step (ledger_reach hempty hidle s hs.reachable) hshape hs.reachable
      (hordered s hs) hfollowing.start hfollowing.due
    by_cases htw : t = w
    · subst htw
      obtain ⟨b, hcases, hstart, halong⟩ := hfollowing.step_worker hdirect hs hstep hdelivery hoptions
      refine ⟨b, hstart, ?_, halong⟩
      rcases hcases with rfl | hnew
      · exact hdue
      · -- nothing is due to a subscriber that is not in any snapshot
        intro j event _ hmem
        have hhandle := due_subscribed _ hs' event.id i hmem
        exact absurd ((registryInv_reach _ hs').ok.handles i hhandle) hnew
    · have ht : t ∉ setup.workers := by simpa [hone] using htw
      refine ⟨a, ?_, hdue, hfollowing.along.of_ne hdirect hs hstep htw ht hdelivery⟩
      have hbatches := hshape.batches_of_not_worker ((threadInv_reach s hs).placed t)
        fun hw => absurd hw ht
      simpa only [History.order, hbatches] using hfollowing.start

end Following

end Dispatcher

end EventDispatcher
