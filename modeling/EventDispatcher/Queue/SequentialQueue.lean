import EventDispatcher.Lib.Replay
import EventDispatcher.Queue.MutexQueue

/-!
# The queue policies, one operation at a time

`BoundedFifo` is what both policies are for: a list of at most `capacity` events and
a closed flag.  An operation that would wait answers `blocks`; a bounded wait whose
deadline has not passed counts as one.

`MutexQueue.exec` runs the critical sections of `bounded_mutex_queue` with nobody
else around, and refines `BoundedFifo`.
-/

namespace EventDispatcher

open Replay

/-- One operation.  `throws` says that the construction of the Event throws, should
the operation come to it; `stop` that the stop token is already requested;
`expired` that the deadline has passed. -/
inductive SeqOp (E : Type)
  | push (kind : PushKind) (event : E) (throws stop expired : Bool)
  | pop (wait stop : Bool)
  | close
  | closeAndDiscard
  | size
  | closed
  deriving DecidableEq

/-- What an operation answers. -/
inductive SeqResult (E : Type)
  | push (outcome : PushOutcome)
  | pop (result : PopResult E)
  | done
  | discarded (count : ℕ)
  | size (count : ℕ)
  | closed (value : Bool)
  | blocks
  deriving DecidableEq

/-- What a push answers when it finds the queue open and full. -/
def fullAnswer {E : Type} (kind : PushKind) (stop expired : Bool) : SeqResult E :=
  match kind with
  | .tryPush | .tryEmplace => .push (.returned .full)
  | .waitPush => if stop then .push (.returned .stopped) else .blocks
  | .waitPushUntil =>
      if stop then .push (.returned .stopped)
      else if expired then .push (.returned .timeout) else .blocks

/-- What a pop answers when it finds the queue open and empty. -/
def emptyAnswer {E : Type} (wait stop : Bool) : SeqResult E :=
  if wait then (if stop then .pop .stopped else .blocks) else .pop .empty

/-- A bounded FIFO queue that can be closed. -/
structure BoundedFifo (E : Type) where
  items : List E
  closed : Bool

namespace BoundedFifo

variable {E : Type}

/-- The specification of all operations. -/
def exec (capacity : ℕ) (q : BoundedFifo E) : SeqOp E → SeqResult E × BoundedFifo E
  | .push kind event throws stop expired =>
      if q.closed then (.push (.returned .closed), q)
      else if q.items.length = capacity then (fullAnswer kind stop expired, q)
      else if throws then (.push .threw, q)
      else (.push (.returned .success), { q with items := q.items ++ [event] })
  | .pop wait stop =>
      match q.items with
      | event :: rest => (.pop (.success event), { q with items := rest })
      | [] => if q.closed then (.pop .closed, q) else (emptyAnswer wait stop, q)
  | .close => (.done, { q with closed := true })
  | .closeAndDiscard => (.discarded q.items.length, ⟨[], true⟩)
  | .size => (.size q.items.length, q)
  | .closed => (.closed q.closed, q)

end BoundedFifo

namespace MutexQueue

variable {E : Type}

/-- A push with nobody else around: the wait blocks unless its predicate holds, a
stop was requested or the deadline has passed. -/
def execPush (q : MutexQueue E) (kind : PushKind) (event : E) (throws stop expired : Bool) :
    SeqResult E × MutexQueue E :=
  match kind with
  | .tryPush | .tryEmplace =>
      let r := q.tryPushSection event throws
      (.push r.2, r.1)
  | .waitPush =>
      if q.notFull || stop then
        let r := q.waitPushSection event q.notFull false stop throws
        (.push r.2, r.1)
      else (.blocks, q)
  | .waitPushUntil =>
      if q.notFull || (stop || expired) then
        let r := q.waitPushSection event q.notFull true stop throws
        (.push r.2, r.1)
      else (.blocks, q)

/-- A pop with nobody else around. -/
def execPop (q : MutexQueue E) (wait stop : Bool) : Option (SeqResult E × MutexQueue E) :=
  if wait && !(q.notEmpty || stop) then some (.blocks, q)
  else if wait && !q.notEmpty then some (.pop .stopped, q)
  else if q.size = 0 then some (.pop q.emptyResult, q)
  else q.popLocked.map fun r => (.pop (.success r.1), r.2)

/-- `bounded_mutex_queue`, one operation at a time. -/
def exec (q : MutexQueue E) : SeqOp E → Option (SeqResult E × MutexQueue E)
  | .push kind event throws stop expired => some (q.execPush kind event throws stop expired)
  | .pop wait stop => q.execPop wait stop
  | .close => some (.done, q.closeSection)
  | .closeAndDiscard =>
      let r := q.discardSection
      some (.discarded r.2, r.1)
  | .size => some (.size q.size, q)
  | .closed => some (.closed q.closed, q)

/-- A ring of the given capacity stores the items of the specification. -/
structure Refines (capacity : ℕ) (q : MutexQueue E) (a : BoundedFifo E) : Prop where
  ring : q.Represents a.items
  closed : q.closed = a.closed
  capacity : q.slots.length = capacity

namespace Refines

variable {capacity : ℕ} {q : MutexQueue E} {a : BoundedFifo E}

theorem size (h : Refines capacity q a) : q.size = a.items.length := h.ring.size_eq

theorem execPush (h : Refines capacity q a) (kind : PushKind) (event : E)
    (throws stop expired : Bool) :
    (q.execPush kind event throws stop expired).1 =
        (a.exec capacity (.push kind event throws stop expired)).1 ∧
      Refines capacity (q.execPush kind event throws stop expired).2
        (a.exec capacity (.push kind event throws stop expired)).2 := by
  by_cases hclosed : a.closed = true
  · -- closed: every push says so
    have hq : q.closed = true := h.closed.trans hclosed
    cases kind <;>
      simpa [MutexQueue.execPush, BoundedFifo.exec, MutexQueue.tryPushSection,
        MutexQueue.waitPushSection, MutexQueue.notFull, hq, hclosed] using h
  have hq : q.closed = false := by
    rw [h.closed]
    simpa using hclosed
  by_cases hfull : a.items.length = capacity
  · -- full: nothing changes
    have hsize : q.size = q.slots.length := by rw [h.size, hfull, h.capacity]
    cases kind <;> cases stop <;> cases expired <;>
      simpa [MutexQueue.execPush, BoundedFifo.exec, MutexQueue.tryPushSection,
        MutexQueue.waitPushSection, MutexQueue.notFull, fullAnswer, hq, hclosed, hfull, hsize] using h
  have hroom : q.size ≠ q.slots.length := by rwa [h.size, h.capacity]
  cases throws with
  | true =>
      cases kind <;>
        simpa [MutexQueue.execPush, BoundedFifo.exec, MutexQueue.tryPushSection,
          MutexQueue.waitPushSection, MutexQueue.notFull, hq, hclosed, hfull, hroom] using h
  | false =>
      have hpushed : Refines capacity (q.pushLocked event)
          { a with items := a.items ++ [event] } :=
        ⟨h.ring.pushLocked hroom event, h.closed, by simpa [MutexQueue.pushLocked] using h.capacity⟩
      cases kind <;>
        simpa [MutexQueue.execPush, BoundedFifo.exec, MutexQueue.tryPushSection,
          MutexQueue.waitPushSection, MutexQueue.notFull, hq, hclosed, hfull, hroom] using hpushed

theorem execPop (h : Refines capacity q a) (wait stop : Bool) :
    ∃ q', q.execPop wait stop = some ((a.exec capacity (.pop wait stop)).1, q') ∧
      Refines capacity q' (a.exec capacity (.pop wait stop)).2 := by
  obtain ⟨items, closed⟩ := a
  cases items with
  | cons event rest =>
      have hne : q.size ≠ 0 := by
        rw [h.size]
        simp
      obtain ⟨q', hpop, hring, hcl, hlen⟩ := h.ring.popLocked
      refine ⟨q', ?_, hring, hcl.trans h.closed, hlen.trans h.capacity⟩
      simp [MutexQueue.execPop, MutexQueue.notEmpty, hne, hpop, BoundedFifo.exec]
  | nil =>
      have hsize : q.size = 0 := h.size
      refine ⟨q, ?_, ?_⟩
      · have hclosed : q.closed = closed := h.closed
        cases closed <;> cases wait <;> cases stop <;>
          simp [MutexQueue.execPop, MutexQueue.notEmpty, MutexQueue.emptyResult, hsize, hclosed,
            BoundedFifo.exec, emptyAnswer]
      · cases closed <;> exact h

end Refines

/-- **`bounded_mutex_queue` refines the bounded FIFO.** -/
theorem simulates (capacity : ℕ) :
    Simulates (Refines capacity) (MutexQueue.exec (E := E)) (BoundedFifo.exec capacity) := by
  intro q a op h
  cases op with
  | push kind event throws stop expired =>
      obtain ⟨hanswer, hrefines⟩ := h.execPush kind event throws stop expired
      refine ⟨_, ?_, hrefines⟩
      rw [MutexQueue.exec, ← hanswer]
  | pop wait stop => exact h.execPop wait stop
  | close => exact ⟨_, rfl, h.ring.closeSection, rfl, h.capacity⟩
  | closeAndDiscard =>
      obtain ⟨hring, hclosed, hlen, hcount⟩ := h.ring.discardSection
      refine ⟨_, ?_, hring, hclosed, hlen.trans h.capacity⟩
      simp only [MutexQueue.exec, BoundedFifo.exec, hcount]
  | size => exact ⟨q, by rw [MutexQueue.exec, h.size]; rfl, h⟩
  | closed => exact ⟨q, by rw [MutexQueue.exec, h.closed]; rfl, h⟩

end MutexQueue

end EventDispatcher
