import EventDispatcher.Dispatcher.MailboxDrain

/-!
# Silence after `shutdown`

A `shutdown` joins the workers and the executors of the subscribers in the snapshot that
it loads.  A subscriber that is being unsubscribed has left the snapshot before its executor
has finished, so that executor is not joined.  Where no such executor exists when the
snapshot is loaded, and nobody shuts the dispatcher down from an error handler, nothing of
the dispatcher runs any more once a `shutdown` has returned.
-/

namespace EventDispatcher

open Transition SubscriberState

variable {T E : Type} [DecidableEq T] {Q : QueuePolicy T (Publication E)} {setup : Setup T}

namespace Dispatcher

/-- If the step loads the snapshot of `shutdown`, every executor that has not finished belongs
to a subscriber in it. -/
def LoadsAll (s : Config T (DispatcherMem Q) (ThreadLoc Q)) (a : T × DispatcherChoice Q) : Prop :=
  ∀ policy rest, (s.loc a.1).stack = .shutdown policy .loadSnapshot :: rest →
    ∀ i, Alive s.mem i → i ∈ s.mem.registry.current

/-- The steps after which a `shutdown` leaves nothing behind. -/
def SilenceOk (s : Config T (DispatcherMem Q) (ThreadLoc Q)) (a : T × DispatcherChoice Q) : Prop :=
  LoadsAll s a ∧ GuardOk s a ∧ NoDirectCalls s a

section Run

variable [Fintype T]

/-- No callback is executing, and every thread that the dispatcher has started has finished. -/
structure Silent (setup : Setup T) (s : Config T (DispatcherMem Q) (ThreadLoc Q)) : Prop where
  callbacks : ∀ i, executing i s = 0
  workers : ∀ w ∈ setup.workers, w ∈ s.mem.threads.finished
  executors : ∀ u ∈ setup.executors, u ∈ s.mem.threads.unstarted ∨ u ∈ s.mem.threads.finished

/-- A `shutdown` that has returned has joined every executor. -/
theorem none_alive {s : Config T (DispatcherMem Q) (ThreadLoc Q)}
    (hs : (system setup Q).Reach SilenceOk s) (hreturned : s.mem.shutdownReturned = true) (i : ℕ) :
    ¬ Alive s.mem i := by
  refine (joinInv_reach (P := fun _ _ => True) ?_ (fun _ _ _ _ _ _ _ _ _ => trivial) ?_ s hs).stopped
    ((shutdownInv_reach s hs).returned hreturned) i trivial
  · intro s hs t f hf howner
    refine (guardInv_reach s (hs.mono fun _ _ h => h.2.1)).passed t f hf ?_
    cases f with
    | shutdown policy phase => cases phase <;> first | rfl | cases howner
    | _ => cases howner
  · intro s t c policy rest hs hok hstack i _ hlive
    exact hok.1 policy rest hstack i hlive

theorem silent_of_returned {s : Config T (DispatcherMem Q) (ThreadLoc Q)}
    (hs : (system setup Q).Reach SilenceOk s) (hreturned : s.mem.shutdownReturned = true) :
    Silent setup s := by
  have hdead := none_alive hs hreturned
  have hshutdown := shutdownInv_reach s hs
  have hthreads := threadInv_reach s hs
  have hgone := hshutdown.stopped (hshutdown.returned hreturned)
  refine ⟨?_, hgone, ?_⟩
  · intro i
    refine tally_eq_zero fun t => ?_
    rw [List.countP_eq_zero]
    intro f hf hcallback
    rcases callback_cases (by simpa using hcallback) with ⟨event, phase, hpart⟩ | ⟨phase, rfl⟩
    · rcases part_invoke_cases hpart with ⟨snapshot, subs, events, rfl⟩ | rfl
      · have hplaced := hthreads.placed t _ hf
        exact hplaced.2 (hgone t hplaced.1)
      · exact noDirectCalls_reach (fun _ _ h => h.2.2) s hs t i event _ hf
    · have hplaced := hthreads.placed t _ hf
      exact hdead i ⟨t, hplaced.1, hplaced.2.2⟩
  · intro u hu
    rcases (executorInv_reach s hs).started u hu with hunstarted | hfinished | ⟨i, hi⟩
    · exact .inl hunstarted
    · exact .inr hfinished
    · refine .inr ?_
      by_contra hnot
      exact hdead i ⟨u, hi, hnot⟩

omit [Fintype T] in
/-- What has returned stays returned. -/
theorem StepShape.returned_mono {t : T} {m m' : DispatcherMem Q} {l l' : ThreadLoc Q}
    {c : DispatcherChoice Q} (h : StepShape setup t m l c m' l')
    (hreturned : m.shutdownReturned = true) : m'.shutdownReturned = true := by
  cases h with
  | call huser henter =>
      rw [DispatcherMem.shutdownReturned, (enter_mem henter).1]
      exact hreturned
  | frame hstack hframe =>
      cases hframe with
      | shutdownRejected | shutdownStopped | shutdownWoken | notifyChanged =>
          simp only [DispatcherMem.shutdownReturned, DispatcherMem.recordShutdown_history_shutdowns,
            DispatcherMem.setChanged_history, List.any_append, Bool.or_eq_true]
          exact .inl hreturned
      | publishCounted | publishNext | deactivate | deactivateAgain =>
          simpa [DispatcherMem.shutdownReturned] using hreturned
      | _ => exact hreturned
  | _ => exact hreturned

/-- **Silence after `shutdown`**: from its return on. -/
theorem silence_after_shutdown {s : Config T (DispatcherMem Q) (ThreadLoc Q)}
    (hs : (system setup Q).Reach SilenceOk s) (hreturned : s.mem.shutdownReturned = true) :
    ∀ s', (system setup Q).Steps SilenceOk s s' → Silent setup s' := by
  intro s' hlater
  refine silent_of_returned (hs.steps hlater) ?_
  refine System.Steps.stable (I := fun s => s.mem.shutdownReturned = true) ?_ hs hlater hreturned
  rintro s₁ ⟨t, c⟩ s₂ _ hreturned _ hstep
  obtain ⟨m, l, hprog, rfl⟩ := Config.step_eq_some hstep
  exact (step_shape hprog).returned_mono hreturned

end Run

section Runs

variable {Q : QueuePolicy (Fin 3) (Publication E)}

/-- What the schedule below keeps to; only the thread `executor` runs an executor, which has
finished or belongs to the snapshot that is loaded. -/
def silenceTest (executor : Fin 3) (s : Config (Fin 3) (DispatcherMem Q) (ThreadLoc Q))
    (a : Fin 3 × DispatcherChoice Q) : Bool :=
  (match a.2 with
    | .call (.shutdown _) => (s.loc a.1).stack.isEmpty
    | .call (.invoke _ _) => false
    | _ => true) &&
  match (s.loc a.1).stack with
    | .shutdown _ .loadSnapshot :: _ => decide (executor ∈ s.mem.threads.finished) ||
        s.mem.registry.current.any fun i => (s.mem.subs i).executor = some executor
    | _ => true

theorem silenceTest_sound {s : Config (Fin 3) (DispatcherMem Q) (ThreadLoc Q)}
    {a : Fin 3 × DispatcherChoice Q} (hs : (system smallSetup Q).Reach SilenceOk s)
    (h : silenceTest 2 s a = true) : SilenceOk s a := by
  simp only [silenceTest, Bool.and_eq_true] at h
  obtain ⟨hcall, hload⟩ := h
  refine ⟨?_, ?_, ?_⟩
  · rintro policy rest hstack i ⟨u, hu, hlive⟩
    have hinv := executorInv_reach s hs
    obtain rfl : u = 2 := by simpa [smallSetup] using (hinv.owned i u hu).1
    simp only [hstack, hlive, decide_false, Bool.false_or] at hload
    obtain ⟨j, hj, hj'⟩ := List.any_eq_true.mp hload
    rw [hinv.injective i j 2 hu (by simpa using hj')]
    exact hj
  · rintro policy heq ⟨⟨i, hi⟩, _⟩
    rw [heq] at hcall
    rw [List.isEmpty_iff.mp hcall] at hi
    cases hi
  · intro i event heq
    simp [heq] at hcall

/-- The theorem applies where a client has unsubscribed an isolated subscriber, whose executor it
has joined, before it shut the dispatcher down. -/
theorem silence_after_shutdown_unsubscribed :
    ∃ s, (system smallSetup (mutexPolicy (Fin 3) (Publication ℕ) 2)).Reach SilenceOk s ∧
      s.mem.shutdownReturned = true ∧ s.mem.history.unsubscribed = [1] ∧
      (s.mem.subs 1).received = [⟨0, 7⟩] ∧ Silent smallSetup s := by
  obtain ⟨s, hs, hp⟩ := System.exists_reach_of_tested_run
    (system smallSetup (mutexPolicy (Fin 3) (Publication ℕ) 2)) SilenceOk (silenceTest 2)
    (s := started smallSetup _) rfl
    (List.flatten [[(1, .constructed)], subscribing { delivery := .isolated }, publishing 7,
      working 8, [(2, .start)], advance 2 4, returningOn 2 5, [(1, .call (.unsubscribe 1))],
      advance 1 10, advance 2 2, advance 1 4, drainingOn 1, leavingOn 0, advance 1 6])
    (fun s => s.mem.shutdownReturned && decide (s.mem.history.unsubscribed = [1]) &&
      decide ((s.mem.subs 1).received = [⟨0, 7⟩]))
    (fun _ _ _ hs htest => silenceTest_sound hs htest) (by decide +kernel)
  simp only [Bool.and_eq_true, decide_eq_true_eq] at hp
  obtain ⟨⟨hreturned, hunsubscribed⟩, hreceived⟩ := hp
  exact ⟨s, hs, hreturned, hunsubscribed, hreceived, silence_after_shutdown hs hreturned s .refl⟩

/-- An isolated callback unsubscribes its own subscription and goes on.  The subscriber has
left the snapshot, so `shutdown` does not wait for its executor and returns while the callback
is executing. -/
theorem self_unsubscribe_outlives_shutdown :
    ∃ s, (system smallSetup (mutexPolicy (Fin 3) (Publication ℕ) 2)).Reachable s ∧
      s.mem.shutdownReturned = true ∧ executing 1 s = 1 ∧ 2 ∉ s.mem.threads.finished := by
  obtain ⟨s, hs, hp⟩ := System.exists_reach_of_run
    (system smallSetup (mutexPolicy (Fin 3) (Publication ℕ) 2)) (fun _ _ => True)
    (fun _ _ => true) (s := started smallSetup _) rfl
    (List.flatten [[(1, .constructed)], subscribing { delivery := .isolated }, publishing 7,
      working 8, [(2, .start)], advance 2 4, [(2, .call (.unsubscribe 1))], advance 2 13,
      drainingOn 1, leavingOn 0, advance 1 6])
    (fun s => s.mem.shutdownReturned && decide (executing 1 s = 1) &&
      decide (2 ∉ s.mem.threads.finished)) (by simp) (by decide +kernel)
  simp only [Bool.and_eq_true, decide_eq_true_eq] at hp
  exact ⟨s, hs, hp.1.1, hp.1.2, hp.2⟩

end Runs

end Dispatcher

end EventDispatcher
