import EventDispatcher.Dispatcher.FrameStep
import EventDispatcher.Dispatcher.QueuePolicies
import EventDispatcher.Queue.LockFreeQueueView
import EventDispatcher.Queue.MutexQueueView

/-!
# The queue inside the dispatcher

A run of the dispatcher is also a run of its queue (`queue_reach`).  `QueueModel` is what
the dispatcher may rely on in a queue policy: the steps of an operation are the moves of
`QueueMove`, and an event that enters takes a free slot.  Both policies have such a model.
-/

namespace EventDispatcher

open Transition

/-- Any interleaving of any threads' operations on the queue of a policy. -/
def queueSystem {T E : Type} [DecidableEq T] (Q : QueuePolicy T E) :
    System (Config T Q.Mem Q.Loc) (T × Q.Choice) :=
  interleave Q.step fun s => s = ⟨Q.mem₀, fun _ => Q.loc₀⟩

/-- What the callers of a queue policy can tell of its operations. -/
structure QueueModel {T E : Type} [DecidableEq T] (Q : QueuePolicy T E) where
  view : Q.Loc → OpView E
  /-- the slots that are free -/
  free : Q.Mem → ℤ
  /-- the slots in a thread's hands -/
  held : Q.Loc → ℤ
  idle_iff : ∀ l, Q.idle l = true ↔ view l = .outside (Q.last l)
  outside_last : ∀ l last, view l = .outside last → last = Q.last l
  held_outside : ∀ l last, view l = .outside last → held l = 0
  call : ∀ {t op m l m' l'}, Q.step t (Q.call op) m l = some (m', l') →
    view l' = .start op ∧ held l' = 0 ∧ Q.contents m' = Q.contents m ∧ free m' = free m
  requestStop : ∀ {t target m l m' l'}, Q.step t (Q.requestStop target) m l = some (m', l') →
    (view l' = .stopping ∨ ∃ last, view l' = .outside last) ∧ Q.contents m' = Q.contents m
  move : ∀ {s : Config T Q.Mem Q.Loc} {t c m' l'}, (queueSystem Q).Reachable s →
    Q.idle (s.loc t) = false → Q.step t c s.mem (s.loc t) = some (m', l') →
    QueueMove (Q.contents s.mem) (view (s.loc t)) (Q.contents m') (view l') ∧
      free m' + held l' + (Q.contents m').length =
        free s.mem + held (s.loc t) + (Q.contents s.mem).length

/-- The queue policies of the library. -/
inductive PolicyKind
  | mutex (capacity : ℕ)
  | lockFree (capacity : ℕ)
  deriving DecidableEq

namespace PolicyKind

/-- The constructor of the queue accepts its capacity. -/
def Admitted : PolicyKind → Prop
  | .mutex capacity => capacity ≠ 0
  | .lockFree capacity => LockFreeQueue.Admitted capacity

variable (T E : Type) [DecidableEq T]

def policy : PolicyKind → QueuePolicy T E
  | .mutex capacity => mutexPolicy T E capacity
  | .lockFree capacity => lockFreePolicy T E capacity

end PolicyKind

section Models

variable (T E : Type) [DecidableEq T] {capacity : ℕ}

theorem mutex_reach {s : Config T (MutexQueueMem T E) (MutexQueueLoc E)}
    (hs : (queueSystem (mutexPolicy T E capacity)).Reachable s) :
    (MutexQueueThreads.system T E capacity).Reachable s := by
  refine @System.Reach.of_init _ _ (queueSystem (mutexPolicy T E capacity))
    (MutexQueueThreads.system T E capacity) _ rfl ?_ s hs
  intro s hinit
  rw [show s = ⟨_, _⟩ from hinit]
  exact ⟨rfl, rfl⟩

theorem mutex_represents (hcap : capacity ≠ 0)
    {s : Config T (MutexQueueMem T E) (MutexQueueLoc E)}
    (hs : (queueSystem (mutexPolicy T E capacity)).Reachable s) :
    ∃ events, s.mem.ring.Represents events :=
  (MutexQueueThreads.represents_reach (Nat.pos_of_ne_zero hcap) s (mutex_reach T E hs)).1

/-- The model of `bounded_mutex_queue`. -/
def mutexModel (hcap : capacity ≠ 0) : QueueModel (mutexPolicy T E capacity) where
  view := MutexQueueThreads.view
  free := MutexQueueThreads.freeSlots
  held _ := 0
  idle_iff l := by cases l <;> simp [mutexPolicy, MutexQueueThreads.view]
  outside_last l last h := by
    cases l <;> cases h
    rfl
  held_outside _ _ _ := rfl
  call := by
    intro t op m l m' l' h
    cases l <;> cases h
    exact ⟨MutexQueueThreads.view_start op, rfl, rfl, rfl⟩
  requestStop := by
    intro t target m l m' l' h
    cases l <;> cases h
    exact ⟨.inr ⟨_, rfl⟩, rfl⟩
  move := by
    intro s t c m' l' hs hidle hstep
    have hrep := mutex_represents T E hcap hs
    have heffect := MutexQueueThreads.step_effect hstep
    refine ⟨heffect.queueMove hrep ?_, ?_⟩
    · intro last hl
      rw [hl] at hidle
      cases hidle
    · rw [add_zero, add_zero]
      exact heffect.freeSlots hrep

variable [Fintype T]

/-- The model of `bounded_lock_free_queue`. -/
def lockFreeModel (hcap : LockFreeQueue.Admitted capacity) :
    QueueModel (lockFreePolicy T E capacity) where
  view := LockFreeQueue.view
  free := LockFreeQueue.freeSlots
  held l := (LockFreeQueue.hold l).slotCount
  idle_iff l := by
    constructor
    · intro hidle
      cases l <;> cases hidle
      rfl
    · intro hview
      rw [LockFreeQueue.view_outside hview]
      rfl
  outside_last l last h := by
    rw [LockFreeQueue.view_outside h]
    rfl
  held_outside l last h := by
    rw [LockFreeQueue.view_outside h]
    rfl
  call := by
    intro t op m l m' l' h
    cases l <;> cases h
    refine ⟨LockFreeQueue.view_start op, ?_, rfl, rfl⟩
    rw [LockFreeQueue.hold_start]
    rfl
  requestStop := by
    intro t target m l m' l' h
    cases l <;> simp only [lockFreePolicy, LockFreeQueue.step, reduceCtorEq, Option.some.injEq] at h
    unfold LockFreeQueue.stepRequestStop at h
    split at h
    · cases h
      exact ⟨.inr ⟨_, rfl⟩, rfl⟩
    · split at h
      · cases h
        exact ⟨.inl rfl, rfl⟩
      · cases h
        exact ⟨.inr ⟨_, rfl⟩, rfl⟩
  move := by
    intro s t c m' l' hs hidle hstep
    have hinv := LockFreeQueue.slotInv_reach hcap s hs
    refine ⟨LockFreeQueue.step_queueMove (LockFreeQueue.locOk_reach s hs t)
      (fun i => hinv.not_published (t := t)) (hinv.held t) ?_ hstep,
      LockFreeQueue.step_freeSlots hcap hinv hstep⟩
    intro last hl
    rw [hl] at hidle
    cases hidle

/-- The model of a queue policy of the library. -/
def PolicyKind.model : (kind : PolicyKind) → kind.Admitted → QueueModel (kind.policy T E)
  | .mutex _, hcap => mutexModel T E hcap
  | .lockFree _, hcap => lockFreeModel T E hcap

end Models

variable {T E : Type} [DecidableEq T] {Q : QueuePolicy T (Publication E)} {setup : Setup T}
  {t : T} {m m' : DispatcherMem Q} {l l' : ThreadLoc Q} {c : DispatcherChoice Q}

/-- A step of a frame leaves the queue alone, or is a step of the queue. -/
theorem FrameStep.queue_cases {flag : Bool} {q q' : Q.Loc} {contexts contexts' : Contexts}
    {f : Frame T E} {f' : Option (Frame T E)}
    (h : FrameStep setup flag t m q contexts f m' q' contexts' f') :
    (m'.queue = m.queue ∧ q' = q) ∨ ∃ choice, Q.step t choice m.queue q = some (m'.queue, q') := by
  cases h with
  | callPop batch hstep | publishCall event kind stop rest hstep
  | stopIssued target htarget hstep | callClose policy hstep => exact .inr ⟨_, hstep⟩
  | publishCounted | publishNext | deactivate | deactivateAgain => exact .inl ⟨by simp, rfl⟩
  | _ => exact .inl ⟨rfl, rfl⟩

namespace Dispatcher

omit [DecidableEq T] in
theorem enter_queue {call : Call T E} {frame : Frame T E}
    (h : enter m call = some (m', frame)) : m'.queue = m.queue := by
  cases call with
  | unsubscribe i | invoke i event =>
      simp only [enter] at h
      split at h <;> cases h
      rfl
  | _ => cases h; rfl

theorem StepShape.queue_cases (h : StepShape setup t m l c m' l') :
    (m'.queue = m.queue ∧ l'.queue = l.queue) ∨
      ∃ choice, Q.step t choice m.queue l.queue = some (m'.queue, l'.queue) := by
  cases h with
  | call huser henter => exact .inl ⟨enter_queue henter, rfl⟩
  | frame hstack hstep => exact hstep.queue_cases
  | queue hstack hin hbusy hstep => exact .inr ⟨_, hstep⟩
  | _ => exact .inl ⟨rfl, rfl⟩

/-- The queue of a dispatcher, with every thread where it stands inside it. -/
def queueConfig (s : Config T (DispatcherMem Q) (ThreadLoc Q)) : Config T Q.Mem Q.Loc :=
  ⟨s.mem.queue, fun u => (s.loc u).queue⟩

/-- **A run of the dispatcher is a run of its queue.** -/
theorem queue_reach {ok : Config T (DispatcherMem Q) (ThreadLoc Q) → T × DispatcherChoice Q → Prop} :
    ∀ s, (system setup Q).Reach ok s → (queueSystem Q).Reachable (queueConfig s) := by
  refine interleave_invariant ?_ ?_
  · intro s hs
    rw [hs]
    exact .init rfl
  · intro s t c m l _ hinv _ hstep
    have hloc : (fun u => (Function.update s.loc t l u).queue) =
        Function.update (fun u => (s.loc u).queue) t l.queue := by
      funext u
      by_cases hu : u = t
      · subst hu
        simp
      · simp [hu]
    unfold queueConfig
    rw [hloc]
    obtain ⟨hmem, hq⟩ | ⟨choice, hq⟩ := (step_shape hstep).queue_cases
    · rw [hq, hmem, Function.update_eq_self]
      exact hinv
    · refine .step (a := (t, choice)) hinv trivial ?_
      simp only [queueSystem, interleave, Config.step, queueConfig, hq, Option.map_some]

end Dispatcher

end EventDispatcher
