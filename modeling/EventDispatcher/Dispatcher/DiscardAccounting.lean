import EventDispatcher.Dispatcher.Accounting
import EventDispatcher.Queue.QueueSeals

/-!
# The accounts after a discarding shutdown

A `shutdown(discard)` returns from `close_and_discard` with the queue sealed: empty, and
closed to every producer, also to one that had passed the lifecycle check before.  So when
it has joined the workers, an event that the queue ever accepted has been broadcast or
destroyed, and the books of the dispatcher can be balanced against its metrics.
-/

namespace EventDispatcher

open Transition

/-- What a queue policy promises of its `close_and_discard`. -/
structure QueueSeal {T E : Type} [DecidableEq T] {Q : QueuePolicy T E} (M : QueueModel Q) where
  /-- empty, and nothing can enter any more -/
  closed : Q.Mem → Prop
  contents : ∀ {m}, closed m → Q.contents m = []
  step : ∀ {s : Config T Q.Mem Q.Loc} {t c m' l'}, (queueSystem Q).Reachable s →
    closed s.mem → Q.step t c s.mem (s.loc t) = some (m', l') → closed m'
  discarded : ∀ {s : Config T Q.Mem Q.Loc} {t c m' l' count}, (queueSystem Q).Reachable s →
    M.view (s.loc t) = .close true count → Q.step t c s.mem (s.loc t) = some (m', l') →
    M.view l' = .outside (some (.discarded count)) → closed m'

section Seals

variable (T E : Type) [DecidableEq T] {capacity : ℕ}

/-- How the mutex-based queue is sealed. -/
def mutexSeal (hcap : capacity ≠ 0) : QueueSeal (mutexModel T E hcap) where
  closed := MutexQueueThreads.Sealed
  contents h := h.2
  step := by
    intro s t c m' l' hs hsealed hstep
    exact (MutexQueueThreads.step_effect hstep).sealed (mutex_represents T E hcap hs) hsealed
  discarded := by
    intro s t c m' l' count hs hview hstep hview'
    have hrep := mutex_represents T E hcap hs
    have hseals : MutexQueueThreads.seals l' = true := by
      cases l' <;> cases hview'
      rfl
    have heffect := MutexQueueThreads.step_effect hstep
    rcases heffect.seals hrep hseals with hbefore | hnow
    · exact heffect.sealed hrep
        (MutexQueueThreads.sealed_reach (Nat.pos_of_ne_zero hcap) s (mutex_reach T E hs) t hbefore)
    · exact hnow

variable [Fintype T]

/-- How the lock-free queue is sealed. -/
def lockFreeSeal (hcap : LockFreeQueue.Admitted capacity) : QueueSeal (lockFreeModel T E hcap) where
  closed := LockFreeQueue.Sealed
  contents h := by
    simp [lockFreePolicy, SlotStore.contents, h.2]
  step := by
    intro s t c m' l' hs hsealed hstep
    exact LockFreeQueue.sealed_step (LockFreeQueue.closeInv_reach s hs) hsealed hstep
  discarded := by
    intro s t c m' l' count hs hview hstep hview'
    rw [LockFreeQueue.view_outside hview'] at hstep
    exact LockFreeQueue.discard_seals (LockFreeQueue.closeInv_reach s hs) hview hstep

omit [Fintype T] in
/-- Either queue begins empty. -/
theorem PolicyKind.contents_init (kind : PolicyKind) :
    (kind.policy T E).contents (kind.policy T E).mem₀ = [] := by
  cases kind <;> rfl

/-- Either queue begins with nobody inside. -/
theorem PolicyKind.view_init (kind : PolicyKind) (h : kind.Admitted) :
    (kind.model T E h).view (kind.policy T E).loc₀ = .outside none := by
  cases kind <;> rfl

/-- How the queue of the policy is sealed. -/
def PolicyKind.seal : (kind : PolicyKind) → (h : kind.Admitted) → QueueSeal (kind.model T E h)
  | .mutex _, hcap => mutexSeal T E hcap
  | .lockFree _, hcap => lockFreeSeal T E hcap

end Seals

variable {T E : Type}

/-- `close_and_discard` returns its own count. -/
theorem QueueMove.discarded_count {xs xs' : List E} {discard : Bool} {count count' : ℕ}
    (h : QueueMove xs (.close discard count) xs' (.outside (some (.discarded count')))) :
    count = count' := by
  cases h
  rfl

/-- A `shutdown` that has come back from closing the queue. -/
def ShutdownPhase.Sealing (v : OpView (Publication E)) : ShutdownPhase T → Prop
  | .closing => ∃ count, v = .outside (some (.discarded count))
  | .callClose => False
  | phase => phase.owns = true

/-- A `shutdown(discard)` that has come back from `close_and_discard`. -/
def Frame.Sealing (v : OpView (Publication E)) : Frame T E → Prop
  | .shutdown policy phase => policy = .discard ∧ phase.Sealing v
  | _ => False

namespace Dispatcher

section Frames

variable [DecidableEq T] {Q : QueuePolicy T (Publication E)} {M : QueueModel Q} {setup : Setup T}
  {flag : Bool} {t : T} {m m' : DispatcherMem Q} {q q' : Q.Loc} {contexts contexts' : Contexts}
  {f : Frame T E} {f' : Option (Frame T E)}

/-- Only the return from `close_and_discard` makes a `shutdown` one that has come back. -/
theorem FrameStep.sealing (h : FrameStep setup flag t m q contexts f m' q' contexts' f')
    {g : Frame T E} (hg : g ∈ f') (hsealing : g.Sealing (M.view q')) : f.Sealing (M.view q) := by
  cases h with
  | callClose policy hstep =>
      cases hg
      obtain ⟨_, count, hview⟩ := hsealing
      rw [(M.call hstep).1] at hview
      cases policy <;> cases hview
  | discarded hidle hlast => exact ⟨rfl, _, M.outside_of_idle hidle hlast⟩
  | shutdownGuard | shutdownWait | shutdownWaitOn | storeStopped =>
      cases hg
      cases hsealing.2
  | shutdownBegin =>
      cases hg
      exact hsealing.2.elim
  | closed =>
      cases hg
      cases hsealing.1
  | invoke hframe hstep => cases hframe <;> cases hg <;> exact hsealing.elim
  | stop hframe hstep => cases hframe <;> cases hg <;> exact hsealing
  | _ => cases hg <;> exact hsealing

end Frames

variable {Q : QueuePolicy T (Publication E)}

/-- User code seals nothing. -/
theorem user_sealing {f : Frame T E} (h : f.user = true) (v : OpView (Publication E)) :
    ¬ f.Sealing v := by
  unfold Frame.user at h
  split at h <;> first | exact id | cases h

/-- Nor does a frame to which user code returns. -/
theorem finishUser_sealing {f f' : Frame T E} {threw : Bool} (h : f.finishUser threw = some f')
    (v : OpView (Publication E)) : ¬ f'.Sealing v := by
  unfold Frame.finishUser at h
  split at h <;> cases h <;> exact id

/-- Nor does a call that has just been made. -/
theorem enter_sealing {m m' : DispatcherMem Q} {call : Call T E} {f : Frame T E}
    (h : enter m call = some (m', f)) (v : OpView (Publication E)) : ¬ f.Sealing v := by
  cases call with
  | unsubscribe i | invoke i event =>
      simp only [enter] at h
      split at h <;> cases h
      exact id
  | shutdown policy =>
      cases h
      intro hsealing
      cases hsealing.2
  | _ =>
      cases h
      exact id

variable [DecidableEq T] {M : QueueModel Q} {setup : Setup T} {t : T} {m' : DispatcherMem Q}
  {l' : ThreadLoc Q} {c : DispatcherChoice Q} {s : Config T (DispatcherMem Q) (ThreadLoc Q)}

/-- **Step lemma**, for the queue: once sealed it stays so. -/
theorem StepShape.closed (S : QueueSeal M) (hs : (system setup Q).Reachable s)
    (h : StepShape setup t s.mem (s.loc t) c m' l') (hclosed : S.closed s.mem.queue) :
    S.closed m'.queue := by
  rcases h.queue_cases with ⟨hsame, _⟩ | ⟨choice, hstep⟩
  · rw [hsame]
    exact hclosed
  · exact S.step (queue_reach s hs) hclosed hstep

/-- **Step lemma**, for the moving thread. -/
theorem StepShape.sealing (S : QueueSeal M) (hs : (system setup Q).Reachable s)
    (hl : Coherent M (s.loc t))
    (hbefore : ∀ f ∈ (s.loc t).stack.head?, f.Sealing (M.view (s.loc t).queue) →
      S.closed s.mem.queue)
    (h : StepShape setup t s.mem (s.loc t) c m' l') :
    ∀ f ∈ l'.stack.head?, f.Sealing (M.view l'.queue) → S.closed m'.queue := by
  intro g hg hsealing
  have hkeep := h.closed S hs
  cases h with
  | constructed hstack => exact hkeep (hbefore g hg hsealing)
  | start hstack hentry =>
      cases hg
      exact hsealing.elim
  | call huser henter =>
      cases hg
      exact absurd hsealing (enter_sealing henter _)
  | finish hstack hfinish =>
      cases hg
      exact absurd hsealing (finishUser_sealing hfinish _)
  | @frame flag thread _ q' contexts' f f' rest hstack hstep =>
      cases f' with
      | some next =>
          cases hg
          have hcurrent := FrameStep.sealing hstep rfl hsealing
          exact hkeep (hbefore f (by rw [hstack]; rfl) hcurrent)
      | none =>
          have hsuspended := (inOrder_reach s hs t).suspended
          rw [hstack] at hsuspended
          exact absurd hsealing (user_sealing (hsuspended g (List.mem_of_mem_head? hg)) _)
  | @queue choice qm q' f rest hstack hin hbusy hstep =>
      have hg' : g ∈ (s.loc t).stack.head? := hg
      rw [hstack] at hg'
      obtain rfl : f = g := Option.some.inj hg'
      have hfits : f.Fits (M.view (s.loc t).queue) := hl.1 f (by rw [hstack]; rfl)
      have hmove := (M.move (queue_reach s hs) hbusy hstep).1
      unfold Frame.inQueue at hin
      split at hin
      · exact hsealing.elim
      · exact hsealing.elim
      · exact hsealing.elim
      · obtain ⟨rfl, count, hview'⟩ := hsealing
        rcases hfits with ⟨taken, hview⟩ | ⟨hdrain, _⟩ | ⟨taken, _, hview⟩
        · change QueueMove _ (M.view (s.loc t).queue) _ _ at hmove
          rw [hview, show M.view q' = _ from hview'] at hmove
          obtain rfl := hmove.discarded_count
          exact S.discarded (queue_reach s hs) hview hstep hview'
        · cases hdrain
        · -- a thread outside the queue does not move in it
          have hidle := (M.idle_iff (s.loc t).queue).mpr (by
            rw [← M.outside_last _ _ hview, hview])
          rw [hidle] at hbusy
          cases hbusy
      · cases hin

variable [Fintype T]

/-- **Run lemma**: a `shutdown` that has come back from `close_and_discard` has sealed the
queue. -/
theorem sealing_reach (S : QueueSeal M) (hempty : Q.contents Q.mem₀ = [])
    (hidle : M.view Q.loc₀ = .outside none) :
    ∀ s, (system setup Q).Reachable s → ∀ t, ∀ f ∈ (s.loc t).stack.head?,
      f.Sealing (M.view (s.loc t).queue) → S.closed s.mem.queue := by
  refine interleave_invariant ?_ ?_
  · intro s hs t f hf hsealing
    rw [hs] at hf
    simp only [started] at hf
    split at hf
    · cases hf
      exact hsealing.elim
    · cases hf
  · intro s t c m l hs hinv _ hstep
    have hshape := step_shape hstep
    have hcoherent := (ledger_reach hempty hidle s hs).coherent t
    refine (Function.forall_update_iff s.loc fun _ l => ∀ f ∈ l.stack.head?,
      f.Sealing (M.view l.queue) → S.closed m.queue).mpr ⟨?_, ?_⟩
    · exact hshape.sealing S hs hcoherent (hinv t)
    · intro u _ f hf hsealing
      exact hshape.closed S hs (hinv u f hf hsealing)

/-- **A discarding shutdown seals the queue.** -/
theorem sealed_of_discard (S : QueueSeal M) (hempty : Q.contents Q.mem₀ = [])
    (hidle : M.view Q.loc₀ = .outside none)
    {s₁ s : Config T (DispatcherMem Q) (ThreadLoc Q)} (hs₁ : (system setup Q).Reachable s₁)
    (hdiscard : s₁.mem.life.state = .discardStopping)
    (hs : (system setup Q).Steps (fun _ _ => True) s₁ s) :
    s.mem.life.state = .discardStopping ∨
      (s.mem.life.state = .stopped ∧ S.closed s.mem.queue) := by
  refine System.Steps.stable (I := fun s => s.mem.life.state = .discardStopping ∨
    (s.mem.life.state = .stopped ∧ S.closed s.mem.queue)) ?_ hs₁ hs (.inl hdiscard)
  rintro s ⟨t, c⟩ s' hreach hI _ hstep
  obtain ⟨m, l, hprog, rfl⟩ := Config.step_eq_some hstep
  have hshape := step_shape hprog
  have hkeep := hshape.closed S hreach
  have hsame : m.life.state = s.mem.life.state → m.life.state = .discardStopping ∨
      (m.life.state = .stopped ∧ S.closed m.queue) := by
    intro heq
    rw [heq]
    exact hI.imp id fun h => ⟨h.1, hkeep h.2⟩
  rcases hshape.life_cases with hlife | ⟨hcreated, _⟩ |
    ⟨flag, f, f', rest, q, q', contexts, contexts', hstack, _, hframe⟩
  · exact hsame (by rw [hlife])
  · rw [hcreated] at hI
    rcases hI with h | ⟨h, _⟩ <;> cases h
  · rcases hframe.state_cases with heq | ⟨_, hstate, _⟩ | ⟨_, hstopped, policy, rfl, _⟩
    · exact hsame heq
    · rcases hstate with hstate | hstate <;> rw [hstate] at hI <;>
        rcases hI with h | ⟨h, _⟩ <;> cases h
    · refine .inr ⟨hstopped, ?_⟩
      rcases hI with hbefore | ⟨_, hclosed⟩
      · -- the thread that stores `stopped` is the one that has discarded
        have howned := (lifeInv_reach s hreach).owned t (.shutdown policy .storeStopped)
          (by rw [hstack]; exact List.mem_cons_self) policy rfl
        rw [hbefore] at howned
        cases policy with
        | drain => cases howned
        | discard =>
            exact hkeep (sealing_reach S hempty hidle s hreach t (.shutdown .discard .storeStopped)
              (by rw [hstack]; rfl) ⟨rfl, rfl⟩)
      · exact hkeep hclosed

end Dispatcher

/-- Who broadcast which event. -/
def History.broadcasts (h : History T E) : List (T × Publication E) :=
  h.batches.flatMap fun b => b.2.map (Prod.mk b.1)

/-- The broadcast events in their order. -/
theorem History.map_broadcasts (h : History T E) :
    h.broadcasts.map Prod.snd = h.batches.flatMap Prod.snd := by
  simp [History.broadcasts, List.map_flatMap, Function.comp_def]

/-- What has become of the events when the dispatcher is down. -/
structure DiscardAccounts (h : History T E) (metrics : DispatcherMetrics) : Prop where
  /-- the accepted events are those whose publication returned `success` -/
  accepted_iff : ∀ id, id ∈ h.accepted.map Publication.id ↔ (id, .returned .success) ∈ h.returned
  /-- no two of them belong to one publication -/
  distinct : (h.accepted.map Publication.id).Nodup
  /-- nothing is broadcast or destroyed twice, and nothing that was not accepted -/
  settled : (h.broadcasts.map Prod.snd ++ h.destroyed).Perm h.accepted
  /-- an accepted event was broadcast by one worker, or destroyed, and not both -/
  either : ∀ event ∈ h.accepted,
    ((∃! worker, (worker, event) ∈ h.broadcasts) ∧ event ∉ h.destroyed) ∨
      ((∀ worker, (worker, event) ∉ h.broadcasts) ∧ event ∈ h.destroyed)
  dropped : metrics.dropped = UInt64.ofNat h.destroyed.length
  accepted : metrics.accepted = UInt64.ofNat h.broadcasts.length + metrics.dropped
  /-- a publication that threw is not counted -/
  counted : metrics.accepted + metrics.rejected =
    UInt64.ofNat (h.returned.countP fun r => r.2 ≠ .threw)

/-- What is in one of two lists that together hold nothing twice. -/
theorem either_of_nodup {pairs : List (T × Publication E)} {gone : List (Publication E)}
    (hnodup : (pairs.map Prod.snd ++ gone).Nodup) {event : Publication E}
    (hmem : event ∈ pairs.map Prod.snd ++ gone) :
    ((∃! worker, (worker, event) ∈ pairs) ∧ event ∉ gone) ∨
      ((∀ worker, (worker, event) ∉ pairs) ∧ event ∈ gone) := by
  obtain ⟨hpairs, _, hdisjoint⟩ := List.nodup_append'.mp hnodup
  rcases List.mem_append.mp hmem with hin | hgone
  · left
    refine ⟨?_, hdisjoint hin⟩
    obtain ⟨⟨worker, event'⟩, hpair, heq⟩ := List.mem_map.mp hin
    cases heq
    refine ⟨worker, hpair, ?_⟩
    intro other hother
    have hsame := List.inj_on_of_nodup_map hpairs hother hpair rfl
    exact congrArg Prod.fst hsame
  · right
    refine ⟨?_, hgone⟩
    intro worker hpair
    exact hdisjoint (List.mem_map.mpr ⟨_, hpair, rfl⟩) hgone

/-- Successes and refusals are all the publications that did not throw. -/
theorem card_outcomes (returned : List (ℕ × PushOutcome)) :
    (successes returned).card + (refusals returned).card =
      returned.countP fun r => r.2 ≠ .threw := by
  induction returned with
  | nil => rfl
  | cons r rest ih =>
      simp only [successes, refusals, Multiset.coe_card, List.length_map] at ih ⊢
      rw [List.countP_cons, ← ih, List.filter_cons, List.filter_cons]
      obtain ⟨id, outcome⟩ := r
      cases outcome with
      | threw => simp
      | returned status => cases status <;> simp <;> omega

/-- What it means for a publication to be among the successes. -/
theorem mem_successes {returned : List (ℕ × PushOutcome)} {id : ℕ} :
    id ∈ successes returned ↔ (id, .returned .success) ∈ returned := by
  simp [successes]

namespace Dispatcher

variable [DecidableEq T] [Fintype T]

/-- **Discard accounting.**  Take any run in which the first `shutdown` to be heard asked for
`discard`.  When a `shutdown` has returned and no publication is under way any more, every
event that the queue accepted has been broadcast by one worker or destroyed, and the metrics
say so. -/
theorem discard_accounting (kind : PolicyKind) (hadmitted : kind.Admitted) (setup : Setup T)
    {s₁ s : Config T (DispatcherMem (kind.policy T (Publication E))) (ThreadLoc _)}
    (hs₁ : (system setup _).Reachable s₁) (hdiscard : s₁.mem.life.state = .discardStopping)
    (hs : (system setup _).Steps (fun _ _ => True) s₁ s)
    (hreturned : s.mem.shutdownReturned = true) (hquiet : ¬ InPublication s) :
    DiscardAccounts s.mem.history s.mem.metrics := by
  have hempty := kind.contents_init T (Publication E)
  have hidle := kind.view_init T (Publication E) hadmitted
  have hreach := hs₁.steps hs
  have hstopped := (shutdownInv_reach s hreach).returned hreturned
  have hledger := ledger_reach hempty hidle s hreach
  obtain ⟨haccepted, htaken, hids, hbegun, hdropped⟩ :=
    hledger.settle fun t => account_of_stopped hreach hstopped hquiet t
  have hcontents : (kind.policy T (Publication E)).contents s.mem.queue = [] := by
    rcases sealed_of_discard (kind.seal T (Publication E) hadmitted) hempty hidle hs₁ hdiscard hs with
      hstate | ⟨_, hclosed⟩
    · rw [hstopped] at hstate
      cases hstate
    · exact (kind.seal T (Publication E) hadmitted).contents hclosed
  have hperm : (s.mem.history.broadcasts.map Prod.snd ++ s.mem.history.destroyed).Perm
      s.mem.history.accepted := by
    refine Multiset.coe_eq_coe.mp ?_
    rw [History.map_broadcasts, ← Multiset.coe_add]
    refine Eq.trans ?_ haccepted.symm
    rw [Books.settled, htaken, DispatcherMem.books_contents, hcontents]
    exact (add_zero _).symm
  have hnodup := hledger.accepted_nodup
  have hcard : (successes s.mem.history.returned).card = s.mem.history.accepted.length := by
    rw [← show s.mem.books.acceptedIds = successes s.mem.history.returned from hids]
    simp [Books.acceptedIds]
  exact
    { accepted_iff := by
        intro id
        rw [← mem_successes, ← show s.mem.books.acceptedIds = successes s.mem.history.returned
          from hids]
        rfl
      distinct := hnodup
      settled := hperm
      either := by
        intro event hevent
        exact either_of_nodup (hperm.nodup_iff.mpr hnodup.of_map) (hperm.mem_iff.mpr hevent)
      dropped := hdropped
      accepted := by
        rw [hledger.accepted, hcard, hdropped, ← hperm.length_eq, List.length_append,
          List.length_map, UInt64.ofNat_add]
      counted := by
        rw [hledger.accepted, hledger.rejected, ← UInt64.ofNat_add, card_outcomes] }

/-- Two events are accepted; the worker broadcasts the first, `shutdown(discard)` destroys the
second, and the theorem applies. -/
theorem discard_accounting_of_two :
    ∃ (h : History (Fin 3) ℕ) (metrics : DispatcherMetrics), DiscardAccounts h metrics ∧
      h.broadcasts = [(0, ⟨0, 7⟩)] ∧ h.destroyed = [⟨1, 8⟩] ∧ metrics.accepted = 2 ∧
      metrics.dropped = 1 := by
  have hrun : (((system smallSetup (mutexPolicy (Fin 3) (Publication ℕ) 2)).run
      (fun _ _ => true) (started smallSetup _) (List.flatten [[(1, .constructed)], publishing 7,
        working 3, publishing 8, [(1, .call (.shutdown .discard))], advance 1 2])).any fun s₁ =>
      decide (s₁.mem.life.state = .discardStopping) &&
      ((system smallSetup (mutexPolicy (Fin 3) (Publication ℕ) 2)).run (fun _ _ => true) s₁ (List.flatten [advance 1 1,
        [(1, .queue (.lock false)), (1, .queue .notifyAll), (1, .queue .notifyAll)], advance 1 4,
        leavingOn 0, advance 1 4])).any fun s =>
      s.mem.shutdownReturned && decide (∀ t, (s.loc t).stack = []) &&
      decide (s.mem.history.broadcasts = [(0, ⟨0, 7⟩)]) &&
      decide (s.mem.history.destroyed = [⟨1, 8⟩]) && decide (s.mem.metrics.accepted = 2) &&
      decide (s.mem.metrics.dropped = 1)) = true := by
    decide +kernel
  obtain ⟨s₁, hrun₁, h⟩ := (Option.any_eq_true _ _).mp hrun
  rw [Bool.and_eq_true, decide_eq_true_eq] at h
  obtain ⟨hdiscard, h⟩ := h
  obtain ⟨s, hrun, h⟩ := (Option.any_eq_true _ _).mp h
  simp only [Bool.and_eq_true, decide_eq_true_eq] at h
  obtain ⟨⟨⟨⟨⟨hreturned, hstacks⟩, hbroadcasts⟩, hdestroyed⟩, haccepted⟩, hdropped⟩ := h
  have hquiet : ¬ InPublication s := by
    rintro ⟨t, _, _, _, _, _, hmem⟩
    rw [hstacks t] at hmem
    cases hmem
  exact ⟨s.mem.history, s.mem.metrics, discard_accounting (.mutex 2) (by decide : 2 ≠ 0) smallSetup
    (System.run_reach (.init rfl) (fun _ _ _ _ _ => trivial) hrun₁) hdiscard
    (System.run_steps (fun _ _ _ => trivial) hrun) hreturned hquiet,
    hbroadcasts, hdestroyed, haccepted, hdropped⟩

end Dispatcher

end EventDispatcher
