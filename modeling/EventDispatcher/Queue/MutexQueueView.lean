import EventDispatcher.Queue.MutexQueueRefinement
import EventDispatcher.Queue.OperationView

/-!
# `bounded_mutex_queue` as its callers see it

A critical section constructs the event and stores it in one step, so a push of this
queue is decided as soon as its event has been moved or copied from.
-/

namespace EventDispatcher

open Transition

namespace MutexQueueThreads

variable {T E : Type}

/-- What the caller can tell of a program point. -/
def view : MutexQueueLoc E → OpView E
  | .outside last => .outside last
  | .push _ event | .pushParked _ event | .pushTimedOut event => .push event false
  | .pushNotify => .pushed (.returned .success)
  | .pop _ | .popParked => .pop none
  | .popNotify event => .pop (some event)
  | .close | .closeNotifyEmpty | .closeNotifyFull => .close false 0
  | .discard => .close true 0
  | .discardNotifyEmpty count | .discardNotifyFull count => .close true count

/-- The slots that are free. -/
def freeSlots (m : MutexQueueMem T E) : ℤ := m.ring.slots.length - m.ring.size

theorem view_start (op : QueueOp E) : view (.start op) = .start op := by
  cases op <;> rfl

theorem view_pushing {l : MutexQueueLoc E} {event : E} (h : pushing l = some event) :
    view l = .push event false := by
  cases l <;> cases h <;> rfl

theorem view_popping {l : MutexQueueLoc E} (h : l = .popParked ∨ ∃ wait, l = .pop wait) :
    view l = .pop none := by
  rcases h with rfl | ⟨wait, rfl⟩ <;> rfl

variable [DecidableEq T] {t : T} {m m' : MutexQueueMem T E} {l l' : MutexQueueLoc E}

/-- **Every step inside an operation is a move of the queue.** -/
theorem Effect.queueMove (h : Effect t m l m' l') (hrep : ∃ events, m.ring.Represents events)
    (hbusy : ∀ last, l ≠ .outside last) :
    QueueMove m.ring.contents (view l) m'.ring.contents (view l') := by
  have hcontents := represents_contents hrep
  cases h with
  | call op last | requestStop target last => exact absurd rfl (hbusy last)
  | refused hl hawake hstatus =>
      rw [view_pushing hl]
      exact .refuse _ (by simpa using hstatus)
  | threw hl =>
      rw [view_pushing hl]
      exact .refuse _ (by simp)
  | stored hl hawake hopen hroom =>
      rw [view_pushing hl, pushLocked_contents hcontents hroom]
      exact .enter _ _
  | parkPush hl =>
      rw [view_pushing hl]
      exact .quiet _
  | popFailed hl hawake hempty hclosed hresult =>
      rw [view_popping hl]
      exact .popFail hresult
  | taken hl hawake hsome hpop =>
      rw [view_popping hl]
      cases hevents : m.ring.contents with
      | nil =>
          rw [hevents] at hcontents
          exact absurd hcontents.size_eq hsome
      | cons event rest =>
          rw [hevents] at hcontents
          obtain ⟨ring, hring, hrest, _⟩ := hcontents.popLocked
          rw [hpop] at hring
          cases hring
          rw [← hrest.contents_eq]
          exact .take rfl
  | parkPop hl =>
      rw [view_popping hl]
      exact .quiet _
  | notifyNotEmpty => exact .pushReturn _
  | notifyNotFull event => exact .popReturn event
  | close =>
      rw [hcontents.closeSection.contents_eq]
      exact .quiet _
  | closeNotifyFull => exact .closeReturn 0
  | discard =>
      obtain ⟨hempty, _, _, hcount⟩ := hcontents.discardSection
      simp only [view, hempty.contents_eq, hcount]
      have hmove := QueueMove.discard (List.append_nil m.ring.contents).symm 0
      rwa [Nat.zero_add] at hmove
  | discardNotifyFull count => exact .discardReturn count
  | _ => exact .quiet _

omit [DecidableEq T] in
/-- The free slots and the events together are the slots. -/
theorem freeSlots_eq (hrep : ∃ events, m.ring.Represents events) :
    freeSlots m = m.ring.slots.length - m.ring.contents.length := by
  rw [freeSlots, (represents_contents hrep).size_eq]

/-- What leaves the free slots enters the contents. -/
theorem Effect.freeSlots (h : Effect t m l m' l') (hrep : ∃ events, m.ring.Represents events) :
    freeSlots m' + m'.ring.contents.length = freeSlots m + m.ring.contents.length := by
  obtain ⟨hrep', hlen⟩ := h.represents hrep
  rw [freeSlots_eq hrep', freeSlots_eq hrep, hlen]
  omega

end MutexQueueThreads

end EventDispatcher
