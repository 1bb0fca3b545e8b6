import EventDispatcher.Dispatcher.Invocations

/-!
# A step as one subscriber sees it

Most steps of the dispatcher do not concern a given subscriber.  `Frame.part` is what a
frame is doing with subscriber `i`, and `PartStep` lists what a step can do to the
subscriber together with the part of the moving frame.  A statement about one subscriber
is proved from this list; `StepShape.partStep` brings it to the steps of a thread.
-/

namespace EventDispatcher

open Transition SubscriberState

variable {T E : Type} {Q : QueuePolicy T (Publication E)}

/-- What a frame is doing with one subscriber. -/
inductive Part (E : Type)
  | idle
  | invoke (event : Publication E) (phase : InvokePhase)
  | executor (phase : ExecutorPhase (Publication E))
  | stop (drain : Bool) (phase : StopPhase)
  deriving DecidableEq

/-- What the frame is doing with subscriber `i`. -/
def Frame.part (i : ℕ) : Frame T E → Part E
  | .worker (.invoke _ _ event _ j phase) => if j = i then .invoke event phase else .idle
  | .invoke j event phase => if j = i then .invoke event phase else .idle
  | .executor j phase => if j = i then .executor phase else .idle
  | .unsubscribe j (.stop _ phase) => if j = i then .stop false phase else .idle
  | .shutdown policy (.stop (j :: _) phase) =>
      if j = i then .stop (policy = .drain) phase else .idle
  | _ => .idle

/-- The part of the frame that is left, if any. -/
def nextPart (i : ℕ) : Option (Frame T E) → Part E
  | none => .idle
  | some f => f.part i

/-- The parts of the frames of a thread. -/
def parts (i : ℕ) (stack : List (Frame T E)) : List (Part E) := stack.map (Frame.part i)

/-- What a thread is doing with subscriber `i` in its top frame. -/
def topPart (i : ℕ) (stack : List (Frame T E)) : Part E := (parts i stack).headD .idle

/-- What a step can do to subscriber `i` and to the part of the moving frame; `next` is the
next identifier. -/
inductive PartStep [DecidableEq T] (flag : Bool) (t : T) (next i : ℕ) (finished : Finset T)
    (s : SubscriberState T (Publication E)) :
    Part E → SubscriberState T (Publication E) → Part E → Prop
  | quiet : PartStep flag t next i finished s .idle s .idle
  | construct (options : SubscriptionOptions) (hnext : i = next) (hfresh : s = { options := {} }) :
      PartStep flag t next i finished s .idle { options := options } .idle
  | startExecutor (u : T) : PartStep flag t next i finished s .idle (s.startExecutor u) .idle
  | deactivate : PartStep flag t next i finished s .idle s.deactivate .idle
  | deactivateAgain :
      PartStep flag t next i finished s .idle s.deactivate (.stop false .lockMailbox)
  | noCallbacks (waiters : Finset T) :
      PartStep flag t next i finished s .idle { s with noCallbacks := waiters } .idle
  -- `try_invoke`
  | offer (event : Publication E) : PartStep flag t next i finished s .idle s (.invoke event .offer)
  | invoke {event : Publication E} {phase phase' : InvokePhase}
      {s' : SubscriberState T (Publication E)} {contexts contexts' : Contexts}
      (hstep : InvokeStep flag t i s contexts event phase s' contexts' phase') :
      PartStep flag t next i finished s (.invoke event phase) s' (.invoke event phase')
  | finishInvoke (event : Publication E) (previous : Contexts) (threw : Bool) :
      PartStep flag t next i finished s (.invoke event (.callback (.running previous))) s
        (.invoke event (.callback (Frame.afterCallback previous threw)))
  | returned (event : Publication E) (threw : Bool) :
      PartStep flag t next i finished s (.invoke event (.done threw)) s .idle
  -- `executor_loop`
  | startThread : PartStep flag t next i finished s .idle s (.executor .lockMailbox)
  | executor {phase phase' : ExecutorPhase (Publication E)}
      {s' : SubscriberState T (Publication E)} {contexts contexts' : Contexts}
      (hstep : ExecutorStep t i s contexts phase s' contexts' phase') :
      PartStep flag t next i finished s (.executor phase) s' (.executor phase')
  | finishExecutor (event : Publication E) (previous : Contexts) (threw : Bool) :
      PartStep flag t next i finished s (.executor (.callback event (.running previous))) s
        (.executor (.callback event (Frame.afterCallback previous threw)))
  | handled : PartStep flag t next i finished s (.executor .handler) s (.executor .lockMailbox)
  | executorDone : PartStep flag t next i finished s (.executor .done) s .idle
  -- `stop_delivery`
  | stopBegin (drain : Bool) : PartStep flag t next i finished s .idle s (.stop drain .lockMailbox)
  | stop {drain : Bool} {phase phase' : StopPhase} {s' : SubscriberState T (Publication E)}
      (hstep : StopStep t s finished drain phase s' phase') :
      PartStep flag t next i finished s (.stop drain phase) s' (.stop drain phase')
  | stopDone (drain : Bool) : PartStep flag t next i finished s (.stop drain .done) s .idle
  | stopNext (drain : Bool) :
      PartStep flag t next i finished s (.stop drain .done) s (.stop drain .lockMailbox)

section Frames

variable [DecidableEq T] {setup : Setup T} {flag : Bool} {t : T} {m m' : DispatcherMem Q}
  {q q' : Q.Loc} {contexts contexts' : Contexts} {f : Frame T E} {f' : Option (Frame T E)}

/-- A step of subscriber `j` is one of subscriber `i` exactly if `i` is `j`. -/
theorem PartStep.setSub {next i j : ℕ} {finished : Finset T} {s : SubscriberState T (Publication E)}
    {p p' : Part E} (h : PartStep flag t next j finished (m.subs j) p s p') :
    PartStep flag t next i finished (m.subs i) (if j = i then p else .idle)
      (Function.update m.subs j s i) (if j = i then p' else .idle) := by
  by_cases hij : j = i
  · subst hij
    simpa using h
  · have hquiet : PartStep flag t next i finished (m.subs i) .idle (m.subs i) .idle := .quiet
    simpa [hij, Function.update_of_ne (Ne.symm hij)] using hquiet

/-- **Step lemma**, for the top frame. -/
theorem FrameStep.partStep (h : FrameStep setup flag t m q contexts f m' q' contexts' f')
    (hm : Known m) (i : ℕ) :
    PartStep flag t m.registry.nextId i m.threads.finished (m.subs i) (f.part i) (m'.subs i) (nextPart i f') := by
  have hquiet : PartStep flag t m.registry.nextId i m.threads.finished (m.subs i) .idle (m.subs i) .idle := .quiet
  -- steps that leave every subscriber as it is, but begin or end a part with one
  have hmove : ∀ {j : ℕ} {p p' : Part E},
      PartStep flag t m.registry.nextId j m.threads.finished (m.subs j) p (m.subs j) p' →
      PartStep flag t m.registry.nextId i m.threads.finished (m.subs i) (if j = i then p else .idle) (m.subs i)
        (if j = i then p' else .idle) := by
    intro j p p' hpart
    simpa using hpart.setSub (i := i)
  cases h with
  | invoke hframe hstep => cases hframe <;> exact (PartStep.invoke hstep).setSub
  | executor hstep => exact (PartStep.executor hstep).setSub
  | stop hframe hstep => cases hframe <;> exact (PartStep.stop hstep).setSub
  | subscribeConstruct callback options hvalid =>
      have hnew : PartStep flag t m.registry.nextId m.registry.nextId m.threads.finished
          (m.subs m.registry.nextId) .idle { options := options } .idle :=
        .construct options rfl (hm.fresh m.registry.nextId le_rfl)
      have hset := hnew.setSub (i := i)
      rw [ite_self] at hset
      exact hset
  | subscribeSpawn callback options id next hisolated u hu =>
      have hnew : PartStep flag t m.registry.nextId id m.threads.finished (m.subs id) .idle
        ((m.subs id).startExecutor u) .idle := .startExecutor u
      simpa [Frame.part, nextPart] using hnew.setSub (i := i)
  | deactivate j =>
      have hnew : PartStep flag t m.registry.nextId j m.threads.finished (m.subs j) .idle (m.subs j).deactivate
        .idle := .deactivate
      simpa [Frame.part, nextPart] using hnew.setSub (i := i)
  | deactivateAgain j =>
      have hnew : PartStep flag t m.registry.nextId j m.threads.finished (m.subs j) .idle (m.subs j).deactivate
        (.stop false .lockMailbox) := .deactivateAgain
      simpa [Frame.part, nextPart] using hnew.setSub (i := i)
  | idlePark j | idleWake j =>
      have hnew : ∀ waiters, PartStep flag t m.registry.nextId j m.threads.finished (m.subs j) .idle
        { m.subs j with noCallbacks := waiters } .idle := .noCallbacks
      simpa [Frame.part, nextPart] using (hnew _).setSub (i := i)
  | publishCounted | publishNext => simpa [Frame.part, nextPart] using hquiet
  | nextSub snapshot subs event events j =>
      simpa [Frame.part, nextPart] using hmove (.offer event)
  | invoked snapshot subs event events j | invokeThrew snapshot subs event events j =>
      simpa [Frame.part, nextPart] using hmove (.returned event _)
  | invokeReturned j event threw => simpa [Frame.part, nextPart] using hmove (.returned event threw)
  | executorDone j => simpa [Frame.part, nextPart] using hmove .executorDone
  | retireUnlock j self => simpa [Frame.part, nextPart] using hmove (.stopBegin false)
  | selfReturned j | stopDone j => simpa [Frame.part, nextPart] using hmove (.stopDone false)
  | loadSnapshot policy =>
      cases hcurrent : m.registry.current with
      | nil => simpa [Frame.part, nextPart, hcurrent] using hquiet
      | cons j todo =>
          simpa [Frame.part, nextPart, hcurrent] using hmove (.stopBegin (policy = .drain))
  | stopNext policy j todo =>
      cases todo with
      | nil => simpa [Frame.part, nextPart] using hmove (.stopDone (policy = .drain))
      | cons k todo =>
          by_cases hj : j = i <;> by_cases hk : k = i
          · simpa [Frame.part, nextPart, hj, hk] using PartStep.stopNext (policy = .drain)
          · simpa [Frame.part, nextPart, hj, hk] using PartStep.stopDone (policy = .drain)
          · simpa [Frame.part, nextPart, hj, hk] using PartStep.stopBegin (policy = .drain)
          · simpa [Frame.part, nextPart, hj, hk] using hquiet
  | _ => exact hquiet

end Frames

/-- Two lists of parts agree but for one entry in front, `p` in the first and `p'` in the
second; an idle entry may be missing. -/
def Replaced (p p' : Part E) (before after : List (Part E)) : Prop :=
  ∃ rest, (before = p :: rest ∨ (p = .idle ∧ before = rest)) ∧
    (after = p' :: rest ∨ (p' = .idle ∧ after = rest))

namespace Replaced

variable {p p' r : Part E} {before after : List (Part E)}

theorem mem_after (h : Replaced p p' before after) (hr : r ∈ after) : r = p' ∨ r ∈ before := by
  obtain ⟨rest, hbefore, rfl | ⟨_, rfl⟩⟩ := h
  · rcases List.mem_cons.mp hr with rfl | hr
    · exact .inl rfl
    · rcases hbefore with rfl | ⟨_, rfl⟩
      · exact .inr (List.mem_cons_of_mem _ hr)
      · exact .inr hr
  · rcases hbefore with rfl | ⟨_, rfl⟩
    · exact .inr (List.mem_cons_of_mem _ hr)
    · exact .inr hr

theorem mem_of_ne (h : Replaced p p' before after) (hp : p ≠ .idle) : p ∈ before := by
  obtain ⟨rest, rfl | ⟨hidle, _⟩, _⟩ := h
  · exact List.mem_cons_self
  · exact absurd hidle hp

/-- How the weight of a thread changes. -/
theorem sum_eq {A : Type} [AddCommMonoid A] (h : Replaced p p' before after) (w : Part E → A)
    (hidle : w .idle = 0) : (after.map w).sum + w p = (before.map w).sum + w p' := by
  have hfront : ∀ {r : Part E} {rest l : List (Part E)}, (l = r :: rest ∨ (r = .idle ∧ l = rest)) →
      (l.map w).sum = w r + (rest.map w).sum := by
    rintro r rest l (rfl | ⟨rfl, rfl⟩)
    · rw [List.map_cons, List.sum_cons]
    · rw [hidle, zero_add]
  obtain ⟨rest, hbefore, hafter⟩ := h
  rw [hfront hbefore, hfront hafter]
  abel

end Replaced

/-- The weight of a thread's parts with subscriber `i`. -/
def partSum {A : Type} [AddCommMonoid A] (w : Part E → A) (i : ℕ) (l : ThreadLoc Q) : A :=
  ((parts i l.stack).map w).sum

namespace Dispatcher

variable [DecidableEq T] {setup : Setup T} {t : T} {m m' : DispatcherMem Q} {l l' : ThreadLoc Q}
  {c : DispatcherChoice Q}

/-- User code ends. -/
theorem finishUser_partStep {f f' : Frame T E} {threw : Bool} (h : f.finishUser threw = some f')
    (flag : Bool) (t : T) (next i : ℕ) (finished : Finset T)
    (s : SubscriberState T (Publication E)) :
    PartStep flag t next i finished s (f.part i) s (f'.part i) := by
  unfold Frame.finishUser at h
  split at h
  case h_1 snapshot subs event events j previous =>
    cases h
    by_cases hj : j = i
    · simpa [Frame.part, hj] using PartStep.finishInvoke event previous threw
    · simpa [Frame.part, hj] using PartStep.quiet
  case h_3 j event previous =>
    cases h
    by_cases hj : j = i
    · simpa [Frame.part, hj] using PartStep.finishExecutor event previous threw
    · simpa [Frame.part, hj] using PartStep.quiet
  case h_4 j =>
    cases h
    by_cases hj : j = i
    · simpa [Frame.part, hj] using PartStep.handled
    · simpa [Frame.part, hj] using PartStep.quiet
  case h_5 j event previous =>
    cases h
    by_cases hj : j = i
    · simpa [Frame.part, hj] using PartStep.finishInvoke event previous threw
    · simpa [Frame.part, hj] using PartStep.quiet
  case h_7 => cases h
  all_goals
    cases h
    exact .quiet

/-- User code makes a call. -/
theorem enter_partStep {call : Call T E} {f : Frame T E} (h : enter m call = some (m', f))
    (flag : Bool) (t : T) (next i : ℕ) (finished : Finset T) :
    PartStep flag t next i finished (m.subs i) .idle (m'.subs i) (f.part i) := by
  cases call with
  | unsubscribe j =>
      simp only [enter] at h
      split at h <;> cases h
      exact .quiet
  | invoke j event =>
      simp only [enter] at h
      split at h <;> cases h
      by_cases hj : j = i
      · simpa [Frame.part, hj] using PartStep.offer event
      · simpa [Frame.part, hj] using PartStep.quiet
  | _ =>
      cases h
      exact .quiet

omit [DecidableEq T] in
theorem inQueue_part {f : Frame T E} (h : f.inQueue = true) (i : ℕ) : f.part i = .idle := by
  unfold Frame.inQueue at h
  split at h <;> first | rfl | cases h

/-- **Step lemma**, for a thread; it moves its top frame, or it is in user code and makes a
call. -/
theorem StepShape.partStep_top (h : StepShape setup t m l c m' l') (hm : Known m) (i : ℕ) :
    ∃ p p', PartStep c.flag t m.registry.nextId i m.threads.finished (m.subs i) p (m'.subs i) p' ∧
      Replaced p p' (parts i l.stack) (parts i l'.stack) ∧
      (p = topPart i l.stack ∨ (p = .idle ∧ UserCode setup t l.stack)) := by
  cases h with
  | constructed hstack =>
      rw [hstack]
      exact ⟨.idle, .idle, .quiet, ⟨_, .inr ⟨rfl, rfl⟩, .inr ⟨rfl, rfl⟩⟩, .inl rfl⟩
  | @start hstack j hentry =>
      rw [hstack]
      by_cases hj : j = i
      · exact ⟨.idle, .executor .lockMailbox, .startThread, ⟨[], .inr ⟨rfl, rfl⟩,
          .inl (by simp [parts, Frame.part, hj])⟩, .inl rfl⟩
      · exact ⟨.idle, .idle, .quiet, ⟨[], .inr ⟨rfl, rfl⟩,
          .inl (by simp [parts, Frame.part, hj])⟩, .inl rfl⟩
  | call huser henter =>
      exact ⟨.idle, _, enter_partStep henter _ t _ i _, ⟨_, .inr ⟨rfl, rfl⟩, .inl rfl⟩,
        .inr ⟨rfl, huser⟩⟩
  | finish hstack hfinish =>
      rw [hstack]
      exact ⟨_, _, finishUser_partStep hfinish _ t _ i _ _, ⟨_, .inl rfl, .inl rfl⟩, .inl rfl⟩
  | @frame flag _ _ _ _ top top' rest hstack hstep =>
      rw [hstack]
      refine ⟨_, _, hstep.partStep hm i, ⟨parts i rest, .inl rfl, ?_⟩, .inl rfl⟩
      cases top' with
      | none => exact .inr ⟨rfl, rfl⟩
      | some g => exact .inl rfl
  | queue hstack hin =>
      rw [hstack]
      exact ⟨.idle, .idle, .quiet, ⟨_, .inr ⟨rfl, rfl⟩, .inr ⟨rfl, rfl⟩⟩,
        .inl (inQueue_part hin i).symm⟩

theorem StepShape.partStep (h : StepShape setup t m l c m' l') (hm : Known m) (i : ℕ) :
    ∃ p p', PartStep c.flag t m.registry.nextId i m.threads.finished (m.subs i) p (m'.subs i) p' ∧
      Replaced p p' (parts i l.stack) (parts i l'.stack) := by
  obtain ⟨p, p', hpart, hreplaced, _⟩ := h.partStep_top hm i
  exact ⟨p, p', hpart, hreplaced⟩

section Run

variable [Fintype T]

/-- What a step does to the weight of all threads. -/
theorem tally_partSum {p p' : Part E} {i : ℕ} {loc : T → ThreadLoc Q}
    (h : Replaced p p' (parts i (loc t).stack) (parts i l'.stack)) (w : Part E → ℕ)
    (hidle : w .idle = 0) :
    tally (partSum w i) (Function.update loc t l') + w p = tally (partSum w i) loc + w p' := by
  have htally := tally_update (partSum w i) loc t l'
  have hsum : partSum w i l' + w p = partSum w i (loc t) + w p' := h.sum_eq w hidle
  omega

omit [DecidableEq T] in
theorem tally_partSum_mono {w w' : Part E → ℕ} (h : ∀ p, w p ≤ w' p) (i : ℕ)
    (loc : T → ThreadLoc Q) : tally (partSum w i) loc ≤ tally (partSum w' i) loc := by
  refine Finset.sum_le_sum ?_
  intro t _
  exact List.sum_le_sum fun p _ => h p

theorem tally_partSum_started (w : Part E → ℕ) (hidle : w .idle = 0) (i : ℕ) :
    tally (partSum w i) (started setup Q).loc = 0 := by
  refine tally_eq_zero ?_
  intro t
  simp only [started, partSum, parts]
  split <;> simp [Frame.part, hidle]

end Run

end Dispatcher

end EventDispatcher
