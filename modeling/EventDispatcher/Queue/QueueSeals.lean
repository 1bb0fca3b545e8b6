import EventDispatcher.Queue.ClosingProtocol
import EventDispatcher.Queue.LockFreeQueueView
import EventDispatcher.Queue.MutexQueueView

/-!
# What closing leaves behind

A queue is sealed when it is empty and nothing can enter it any more.  `close_and_discard`
returns with the queue sealed, and a queue stays sealed.  The mutex-based queue is sealed
as well when one of its pops returns `closed`.
-/

namespace EventDispatcher

open Transition

variable {T E : Type}

namespace MutexQueueThreads

/-- Closed, with no event left. -/
def Sealed (m : MutexQueueMem T E) : Prop := m.ring.closed = true ∧ m.ring.contents = []

/-- The thread has emptied the closed queue, or has found it so. -/
def seals : MutexQueueLoc E → Bool
  | .discardNotifyEmpty _ => true
  | .discardNotifyFull _ => true
  | .outside (some (.discarded _)) => true
  | .outside (some (.pop .closed)) => true
  | _ => false

theorem seals_start (op : QueueOp E) : seals (.start op : MutexQueueLoc E) = false := by
  cases op <;> rfl

variable [DecidableEq T] {t : T} {m m' : MutexQueueMem T E} {l l' : MutexQueueLoc E}

/-- **Step lemma**: a sealed queue stays sealed. -/
theorem Effect.sealed (h : Effect t m l m' l') (hrep : ∃ events, m.ring.Represents events)
    (hsealed : Sealed m) : Sealed m' := by
  have hcontents := represents_contents hrep
  obtain ⟨hclosed, hempty⟩ := hsealed
  cases h with
  | stored hl hawake hopen hroom =>
      rw [hclosed] at hopen
      cases hopen
  | taken hl hawake hsome hpop =>
      rw [hempty] at hcontents
      exact absurd hcontents.size_eq hsome
  | close => exact ⟨rfl, hcontents.closeSection.contents_eq.trans hempty⟩
  | discard =>
      obtain ⟨hgone, hclosed', _⟩ := hcontents.discardSection
      exact ⟨hclosed', hgone.contents_eq⟩
  | _ => exact ⟨hclosed, hempty⟩

/-- How a thread comes to know that the queue is sealed. -/
theorem Effect.seals (h : Effect t m l m' l') (hrep : ∃ events, m.ring.Represents events)
    (hseals : seals l' = true) : seals l = true ∨ Sealed m' := by
  have hcontents := represents_contents hrep
  cases h with
  | call op last =>
      rw [seals_start] at hseals
      cases hseals
  | requestStop target last => exact .inl hseals
  | popFailed hl hawake hempty hclosed hresult =>
      rename_i result
      cases result with
      | closed =>
          refine .inr ⟨hclosed rfl, ?_⟩
          have hsize := hcontents.size_eq
          rw [hempty] at hsize
          exact List.length_eq_zero_iff.mp hsize.symm
      | _ => cases hseals
  | discard =>
      obtain ⟨hgone, hclosed, _⟩ := hcontents.discardSection
      exact .inr ⟨hclosed, hgone.contents_eq⟩
  | discardNotifyEmpty | discardNotifyFull => exact .inl rfl
  | _ => cases hseals

variable {capacity : ℕ}

/-- **Run lemma.** -/
theorem sealed_reach (hpos : 0 < capacity)
    {ok : Config T (MutexQueueMem T E) (MutexQueueLoc E) → T × MutexQueueChoice T E → Prop} :
    ∀ s, (system T E capacity).Reach ok s → ∀ t, seals (s.loc t) = true → Sealed s.mem := by
  refine interleave_invariant ?_ ?_
  · intro s hs t hseals
    rw [hs.2] at hseals
    cases hseals
  · intro s t c m l hreach hinv _ hstep
    have heffect := step_effect hstep
    have hrep := (represents_reach hpos s hreach).1
    refine (Function.forall_update_iff s.loc fun _ l => seals l = true → Sealed m).mpr ⟨?_, ?_⟩
    · intro hseals
      rcases heffect.seals hrep hseals with hbefore | hnow
      · exact heffect.sealed hrep (hinv t hbefore)
      · exact hnow
    · intro u _ hseals
      exact heffect.sealed hrep (hinv u hseals)

end MutexQueueThreads

namespace LockFreeQueue

/-- No producer is inside or can enter, and the published ring is empty. -/
def Sealed (m : LockFreeMem T E) : Prop :=
  m.sync.producerQuiesced = true ∧ m.store.published = []

variable {m m' : LockFreeMem T E} {l l' : LockFreeLoc T E} {t : T}

theorem loc_of_close {discard : Bool} {count : ℕ} (h : view l = .close discard count) :
    ∃ phase, l = .close discard phase := by
  cases l with
  | push event context phase =>
      cases phase with
      | leave outcome | notifyGate outcome =>
          simp only [view, viewPush] at h
          split at h <;> cases h
      | _ => cases h
  | pop context phase => cases phase <;> cases h
  | close discard' phase =>
      cases phase with
      | bump _ discarded | notify _ discarded | unlock discarded =>
          cases discarded <;> cases h <;> exact ⟨_, rfl⟩
      | _ => cases h; exact ⟨_, rfl⟩
  | _ => cases h

variable [DecidableEq T]

/-- A call of `close` or `close_and_discard` returns in its last phase. -/
theorem stepClose_outside {discard flag : Bool} {waiter : Option T} {phase : ClosePhase E}
    {last : Option (QueueResult E)}
    (h : stepClose t m discard flag waiter phase = some (m', .outside last)) :
    ∃ result, last = some result ∧ result ∈ m'.store.returned := by
  cases phase with
  | lock =>
      simp only [stepClose] at h
      split at h <;> cases h
  | waitGate g state =>
      simp only [stepClose] at h
      split at h <;> cases h
  | parkedGate g state =>
      simp only [stepClose] at h
      split at h
      · split at h <;> cases h
      · cases h
  | notify k discarded =>
      cases k with
      | data | capacity =>
          obtain ⟨m₁, _, hr⟩ := Option.map_eq_some_iff.mp h
          cases hr
  | takeIndex discarded =>
      simp only [stepClose] at h
      split at h
      · cases h
      · obtain ⟨event, _, hr⟩ := Option.map_eq_some_iff.mp h
        cases hr
  | unlock discarded =>
      cases h
      exact ⟨_, rfl, List.mem_append_right _ List.mem_cons_self⟩
  | _ => cases h

variable [Fintype T]

/-- **`close_and_discard` returns with the queue sealed.** -/
theorem discard_seals {s : Config T (LockFreeMem T E) (LockFreeLoc T E)}
    {c : LockFreeChoice T E} {count : ℕ} (hinv : CloseInv s.mem (role ∘ s.loc))
    (hview : view (s.loc t) = .close true count)
    (h : step t c s.mem (s.loc t) = some (m', .outside (some (.discarded count)))) : Sealed m' := by
  have hmove := step_closeMove h
  obtain ⟨phase, hloc⟩ := loc_of_close hview
  rw [hloc] at h
  cases c with
  | go flag waiter =>
      obtain ⟨result, heq, hmem⟩ := stepClose_outside h
      cases heq
      exact hinv.step_discarded hmove count hmem
  | _ => cases h

/-- **Step lemma**: a sealed queue stays sealed. -/
theorem sealed_step {s : Config T (LockFreeMem T E) (LockFreeLoc T E)} {c : LockFreeChoice T E}
    (hinv : CloseInv s.mem (role ∘ s.loc)) (hsealed : Sealed s.mem)
    (h : step t c s.mem (s.loc t) = some (m', l')) : Sealed m' :=
  hinv.ring_stays_empty (step_closeMove h) hsealed.1 hsealed.2

end LockFreeQueue

end EventDispatcher
