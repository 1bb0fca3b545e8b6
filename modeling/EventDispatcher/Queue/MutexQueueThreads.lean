import EventDispatcher.Lib.Threads
import EventDispatcher.Lib.WaitSet
import EventDispatcher.Queue.MutexQueue

/-!
# `bounded_mutex_queue` under any number of threads

One step is one critical section of `mutex_`, one notification, or the start of
a call.  A waiting operation evaluates its predicate inside the critical section
and, if it has to wait, parks on its condition variable in the same step, as
`condition_variable_any::wait` releases the mutex atomically with parking.

The interruptible waits follow their standard definition: with a stop already
requested the predicate decides at once, otherwise a false predicate parks.  A
parked thread may be unparked by a notification, by a stop request on its own
token (which notifies all waiters of that condition variable), by its deadline,
or spuriously.
-/

namespace EventDispatcher

open Transition

/-- What the threads share: the ring, the two condition variables and the state
of each thread's current stop token. -/
structure MutexQueueMem (T E : Type) where
  ring : MutexQueue E
  notEmpty : Finset T
  notFull : Finset T
  stop : T → Bool

/-- Where a thread stands in its current queue operation. -/
inductive MutexQueueLoc (E : Type)
  /-- outside the queue, with the result of its last call -/
  | outside (last : Option (QueueResult E))
  /-- about to lock the mutex in one of the four pushes -/
  | push (kind : PushKind) (event : E)
  /-- inside `not_full_.wait`: parked, or unparked and about to lock again -/
  | pushParked (kind : PushKind) (event : E)
  /-- `not_full_.wait_until` timed out and is about to lock again -/
  | pushTimedOut (event : E)
  /-- the event is stored, `not_empty_.notify_one()` is next -/
  | pushNotify
  /-- about to lock the mutex in `try_pop` or `wait_pop` -/
  | pop (wait : Bool)
  /-- inside `not_empty_.wait`: parked, or unparked and about to lock again -/
  | popParked
  /-- the event is taken, `not_full_.notify_one()` is next -/
  | popNotify (event : E)
  | close
  | closeNotifyEmpty
  | closeNotifyFull
  | discard
  | discardNotifyEmpty (count : ℕ)
  | discardNotifyFull (count : ℕ)
  deriving DecidableEq

/-- The choices a step can depend on. -/
inductive MutexQueueChoice (T E : Type)
  | call (op : QueueOp E)
  /-- user code asks the stop token of `target`'s current call to stop -/
  | requestStop (target : T)
  /-- lock the mutex and run the critical section; a construction inside it
  throws if `throws` -/
  | lock (throws : Bool)
  | notifyOne (waiter : Option T)
  | notifyAll
  | wakeSpuriously
  | deadlinePasses
  deriving DecidableEq

namespace MutexQueueMem

variable {T E : Type} [DecidableEq T]

/-- A stop request runs the callback of `target`'s wait, if it is parked. -/
def requestStop (m : MutexQueueMem T E) (target : T) : MutexQueueMem T E :=
  { m with
    notEmpty := if target ∈ m.notEmpty then ∅ else m.notEmpty
    notFull := if target ∈ m.notFull then ∅ else m.notFull
    stop := Function.update m.stop target true }

end MutexQueueMem

namespace MutexQueueLoc

variable {E : Type}

/-- Entry of an operation. -/
def start : QueueOp E → MutexQueueLoc E
  | .push kind event _ => .push kind event
  | .pop wait _ => .pop wait
  | .close => .close
  | .closeAndDiscard => .discard

/-- After the critical section of a push: only a stored event is notified. -/
def afterPush : PushOutcome → MutexQueueLoc E
  | .returned .success => .pushNotify
  | outcome => .outside (some (.push outcome))

end MutexQueueLoc

namespace MutexQueueThreads

variable {T E : Type} [DecidableEq T]

/-- The critical section of a push that has not timed out. -/
def lockPush (t : T) (m : MutexQueueMem T E) (kind : PushKind) (event : E)
    (throws : Bool) : MutexQueueMem T E × MutexQueueLoc E :=
  if kind = .tryPush ∨ kind = .tryEmplace then
    let r := m.ring.tryPushSection event throws
    ({ m with ring := r.1 }, .afterPush r.2)
  else if m.stop t || m.ring.notFull then
    let r := m.ring.waitPushSection event m.ring.notFull
      (kind = .waitPushUntil) (m.stop t) throws
    ({ m with ring := r.1 }, .afterPush r.2)
  else ({ m with notFull := insert t m.notFull }, .pushParked kind event)

/-- The critical section of a `wait_push_until` whose wait timed out. -/
def lockTimedOut (t : T) (m : MutexQueueMem T E) (event : E) (throws : Bool) :
    MutexQueueMem T E × MutexQueueLoc E :=
  let r := m.ring.waitPushSection event m.ring.notFull true (m.stop t) throws
  ({ m with ring := r.1 }, .afterPush r.2)

/-- The critical section of `try_pop` and `wait_pop`. -/
def lockPop (t : T) (m : MutexQueueMem T E) (wait : Bool) :
    Option (MutexQueueMem T E × MutexQueueLoc E) :=
  if wait && !(m.stop t || m.ring.notEmpty) then
    some ({ m with notEmpty := insert t m.notEmpty }, .popParked)
  else if wait && !m.ring.notEmpty then
    some (m, .outside (some (.pop .stopped)))
  else if m.ring.size = 0 then
    some (m, .outside (some (.pop m.ring.emptyResult)))
  else m.ring.popLocked.map fun r => ({ m with ring := r.2 }, .popNotify r.1)

/-- One step of one thread. -/
def step (t : T) : MutexQueueChoice T E → MutexQueueMem T E → MutexQueueLoc E →
    Option (MutexQueueMem T E × MutexQueueLoc E)
  | .call op, m, .outside _ =>
      some ({ m with stop := Function.update m.stop t op.stop }, .start op)
  | .requestStop target, m, .outside last => some (m.requestStop target, .outside last)
  | .lock throws, m, .push kind event => some (lockPush t m kind event throws)
  | .lock throws, m, .pushParked kind event =>
      if t ∈ m.notFull then none else some (lockPush t m kind event throws)
  | .lock throws, m, .pushTimedOut event => some (lockTimedOut t m event throws)
  | .lock _, m, .pop wait => lockPop t m wait
  | .lock _, m, .popParked => if t ∈ m.notEmpty then none else lockPop t m true
  | .lock _, m, .close => some ({ m with ring := m.ring.closeSection }, .closeNotifyEmpty)
  | .lock _, m, .discard =>
      let r := m.ring.discardSection
      some ({ m with ring := r.1 }, .discardNotifyEmpty r.2)
  | .wakeSpuriously, m, .pushParked kind event =>
      some ({ m with notFull := m.notFull.erase t }, .pushParked kind event)
  | .wakeSpuriously, m, .popParked =>
      some ({ m with notEmpty := m.notEmpty.erase t }, .popParked)
  | .deadlinePasses, m, .pushParked .waitPushUntil event =>
      some ({ m with notFull := m.notFull.erase t }, .pushTimedOut event)
  | .notifyOne u, m, .pushNotify =>
      (notifyOne m.notEmpty u).map fun left =>
        ({ m with notEmpty := left }, .outside (some (.push (.returned .success))))
  | .notifyOne u, m, .popNotify event =>
      (notifyOne m.notFull u).map fun left =>
        ({ m with notFull := left }, .outside (some (.pop (.success event))))
  | .notifyAll, m, .closeNotifyEmpty => some ({ m with notEmpty := ∅ }, .closeNotifyFull)
  | .notifyAll, m, .closeNotifyFull =>
      some ({ m with notFull := ∅ }, .outside (some .closed))
  | .notifyAll, m, .discardNotifyEmpty count =>
      some ({ m with notEmpty := ∅ }, .discardNotifyFull count)
  | .notifyAll, m, .discardNotifyFull count =>
      some ({ m with notFull := ∅ }, .outside (some (.discarded count)))
  | _, _, _ => none

/-- The threads of a queue of the given capacity, all of them outside. -/
def Initial (capacity : ℕ) (s : Config T (MutexQueueMem T E) (MutexQueueLoc E)) : Prop :=
  s.mem = ⟨MutexQueue.empty capacity, ∅, ∅, fun _ => false⟩ ∧
    s.loc = fun _ => .outside none

/-- Any interleaving of any threads' operations on one queue. -/
def system (T E : Type) [DecidableEq T] (capacity : ℕ) :
    System (Config T (MutexQueueMem T E) (MutexQueueLoc E)) (T × MutexQueueChoice T E) :=
  interleave step (Initial capacity)

/-- The event a thread is trying to push, at any point before its critical
section has decided. -/
def pushing : MutexQueueLoc E → Option E
  | .push _ event => some event
  | .pushParked _ event => some event
  | .pushTimedOut event => some event
  | _ => none

/-- Everything one step can do.  `push`, `pushParked` and `pushTimedOut` share
their outcomes, and so do `pop` and `popParked`. -/
inductive Effect (t : T) (m : MutexQueueMem T E) :
    MutexQueueLoc E → MutexQueueMem T E → MutexQueueLoc E → Prop
  | call (op : QueueOp E) (last : Option (QueueResult E)) :
      Effect t m (.outside last)
        { m with stop := Function.update m.stop t op.stop } (.start op)
  | requestStop (target : T) (last : Option (QueueResult E)) :
      Effect t m (.outside last) (m.requestStop target) (.outside last)
  | refused {l : MutexQueueLoc E} {event : E} (hl : pushing l = some event)
      (hawake : ∀ kind, l = .pushParked kind event → t ∉ m.notFull)
      {status : QueueStatus} (hstatus : status ≠ .success)
      (hwhy : m.ring.closed = true ∨ m.ring.size = m.ring.slots.length) :
      Effect t m l m (.outside (some (.push (.returned status))))
  | threw {l : MutexQueueLoc E} {event : E} (hl : pushing l = some event)
      (hawake : ∀ kind, l = .pushParked kind event → t ∉ m.notFull)
      (hopen : m.ring.closed = false) (hroom : m.ring.size ≠ m.ring.slots.length) :
      Effect t m l m (.outside (some (.push .threw)))
  | stored {l : MutexQueueLoc E} {event : E} (hl : pushing l = some event)
      (hawake : ∀ kind, l = .pushParked kind event → t ∉ m.notFull)
      (hopen : m.ring.closed = false) (hroom : m.ring.size ≠ m.ring.slots.length) :
      Effect t m l { m with ring := m.ring.pushLocked event } .pushNotify
  | parkPush {l : MutexQueueLoc E} {event : E} (hl : pushing l = some event)
      (hopen : m.ring.closed = false) (hfull : m.ring.size = m.ring.slots.length)
      (kind : PushKind) :
      Effect t m l { m with notFull := insert t m.notFull } (.pushParked kind event)
  | popFailed {l : MutexQueueLoc E} (hl : l = .popParked ∨ ∃ wait, l = .pop wait)
      (hawake : l = .popParked → t ∉ m.notEmpty)
      (hempty : m.ring.size = 0) {result : PopResult E}
      (hclosed : result = .closed → m.ring.closed = true)
      (hresult : ∀ event, result ≠ .success event) :
      Effect t m l m (.outside (some (.pop result)))
  | taken {l : MutexQueueLoc E} (hl : l = .popParked ∨ ∃ wait, l = .pop wait)
      (hawake : l = .popParked → t ∉ m.notEmpty)
      (hsome : m.ring.size ≠ 0) {event : E} {ring : MutexQueue E}
      (hpop : m.ring.popLocked = some (event, ring)) :
      Effect t m l { m with ring := ring } (.popNotify event)
  | parkPop {l : MutexQueueLoc E} (hl : l = .popParked ∨ ∃ wait, l = .pop wait)
      (hopen : m.ring.closed = false) (hempty : m.ring.size = 0) :
      Effect t m l { m with notEmpty := insert t m.notEmpty } .popParked
  | wakePush (kind : PushKind) (event : E) :
      Effect t m (.pushParked kind event)
        { m with notFull := m.notFull.erase t } (.pushParked kind event)
  | timeOut (event : E) :
      Effect t m (.pushParked .waitPushUntil event)
        { m with notFull := m.notFull.erase t } (.pushTimedOut event)
  | wakePop :
      Effect t m .popParked { m with notEmpty := m.notEmpty.erase t } .popParked
  | notifyNotEmpty {u : Option T} {left : Finset T}
      (h : notifyOne m.notEmpty u = some left) :
      Effect t m .pushNotify { m with notEmpty := left }
        (.outside (some (.push (.returned .success))))
  | notifyNotFull {u : Option T} {left : Finset T} (event : E)
      (h : notifyOne m.notFull u = some left) :
      Effect t m (.popNotify event) { m with notFull := left }
        (.outside (some (.pop (.success event))))
  | close : Effect t m .close { m with ring := m.ring.closeSection } .closeNotifyEmpty
  | closeNotifyEmpty :
      Effect t m .closeNotifyEmpty { m with notEmpty := ∅ } .closeNotifyFull
  | closeNotifyFull :
      Effect t m .closeNotifyFull { m with notFull := ∅ } (.outside (some .closed))
  | discard :
      Effect t m .discard { m with ring := m.ring.discardSection.1 }
        (.discardNotifyEmpty m.ring.discardSection.2)
  | discardNotifyEmpty (count : ℕ) :
      Effect t m (.discardNotifyEmpty count) { m with notEmpty := ∅ }
        (.discardNotifyFull count)
  | discardNotifyFull (count : ℕ) :
      Effect t m (.discardNotifyFull count) { m with notFull := ∅ }
        (.outside (some (.discarded count)))

theorem notFull_eq_false {q : MutexQueue E} (h : q.notFull = false) :
    q.size = q.slots.length ∧ q.closed = false := by
  simpa [MutexQueue.notFull] using h

theorem notEmpty_eq_false {q : MutexQueue E} (h : q.notEmpty = false) :
    q.size = 0 ∧ q.closed = false := by
  simpa [MutexQueue.notEmpty] using h

theorem waitPushSection_effect {t : T} {m : MutexQueueMem T E} {l : MutexQueueLoc E}
    {event : E} (hl : pushing l = some event)
    (hawake : ∀ kind, l = .pushParked kind event → t ∉ m.notFull) (timed throws : Bool) :
    Effect t m l
      { m with ring := (m.ring.waitPushSection event m.ring.notFull timed (m.stop t) throws).1 }
      (.afterPush (m.ring.waitPushSection event m.ring.notFull timed (m.stop t) throws).2) := by
  unfold MutexQueue.waitPushSection
  by_cases hready : m.ring.notFull = true
  · by_cases hclosed : m.ring.closed = true
    · simpa [hready, hclosed, MutexQueueLoc.afterPush] using
        Effect.refused hl hawake (by decide : QueueStatus.closed ≠ .success) (.inl hclosed)
    · have hroom : m.ring.size ≠ m.ring.slots.length := by
        simpa [MutexQueue.notFull, hclosed] using hready
      cases throws with
      | true =>
          simpa [hready, hclosed, MutexQueueLoc.afterPush] using
            Effect.threw hl hawake (by simpa using hclosed) hroom
      | false =>
          simpa [hready, hclosed, MutexQueueLoc.afterPush] using
            Effect.stored hl hawake (by simpa using hclosed) hroom
  · have hfull := notFull_eq_false (by simpa using hready)
    simp only [hready, Bool.not_false, if_true]
    split
    · exact .refused hl hawake (by decide) (.inr hfull.1)
    · exact .refused hl hawake (by decide) (.inr hfull.1)

theorem lockPush_effect {t : T} {m : MutexQueueMem T E} {l : MutexQueueLoc E}
    {kind : PushKind} {event : E} (hl : pushing l = some event)
    (hawake : ∀ kind, l = .pushParked kind event → t ∉ m.notFull) (throws : Bool) :
    Effect t m l (lockPush t m kind event throws).1 (lockPush t m kind event throws).2 := by
  unfold lockPush
  by_cases htry : kind = .tryPush ∨ kind = .tryEmplace
  · simp only [htry, if_true, MutexQueue.tryPushSection]
    by_cases hclosed : m.ring.closed = true
    · simpa [hclosed, MutexQueueLoc.afterPush] using
        Effect.refused hl hawake (by decide : QueueStatus.closed ≠ .success) (.inl hclosed)
    by_cases hfull : m.ring.size = m.ring.slots.length
    · simpa [hclosed, hfull, MutexQueueLoc.afterPush] using
        Effect.refused hl hawake (by decide : QueueStatus.full ≠ .success) (.inr hfull)
    cases throws with
    | true =>
        simpa [hclosed, hfull, MutexQueueLoc.afterPush] using
          Effect.threw hl hawake (by simpa using hclosed) hfull
    | false =>
        simpa [hclosed, hfull, MutexQueueLoc.afterPush] using
          Effect.stored hl hawake (by simpa using hclosed) hfull
  · simp only [htry, if_false]
    by_cases hgo : (m.stop t || m.ring.notFull) = true
    · simpa only [hgo, if_true] using
        waitPushSection_effect hl hawake (decide (kind = .waitPushUntil)) throws
    · have hblocked : m.stop t = false ∧ m.ring.notFull = false := by simpa using hgo
      have hfull := notFull_eq_false hblocked.2
      simpa [hgo] using Effect.parkPush hl hfull.2 hfull.1 kind

theorem lockPop_effect {t : T} {m m' : MutexQueueMem T E} {l l' : MutexQueueLoc E}
    {wait : Bool} (hl : l = .popParked ∨ ∃ wait, l = .pop wait)
    (hawake : l = .popParked → t ∉ m.notEmpty)
    (h : lockPop t m wait = some (m', l')) : Effect t m l m' l' := by
  unfold lockPop at h
  split at h
  · next hpark =>
      cases h
      have hempty := notEmpty_eq_false (q := m.ring) (by
        simp only [Bool.and_eq_true, Bool.not_eq_true', Bool.or_eq_false_iff] at hpark
        exact hpark.2.2)
      exact .parkPop hl hempty.2 hempty.1
  · split at h
    · next hstop =>
        cases h
        have hempty := notEmpty_eq_false (q := m.ring) (by simp at hstop; exact hstop.2)
        exact .popFailed hl hawake hempty.1 (by simp) (by simp)
    · split at h
      · next hsize =>
          cases h
          refine .popFailed hl hawake hsize ?_ ?_
          · unfold MutexQueue.emptyResult
            split <;> simp_all
          · intro event
            unfold MutexQueue.emptyResult
            split <;> simp
      · next hsize =>
          obtain ⟨⟨event, ring⟩, hpop, hr⟩ := Option.map_eq_some_iff.mp h
          cases hr
          exact .taken hl hawake hsize hpop

/-- The step function does nothing but the listed effects. -/
theorem step_effect {t : T} {c : MutexQueueChoice T E} {m m' : MutexQueueMem T E}
    {l l' : MutexQueueLoc E} (h : step t c m l = some (m', l')) : Effect t m l m' l' := by
  cases c with
  | call op =>
      cases l <;> simp only [step, reduceCtorEq, Option.some.injEq, Prod.mk.injEq] at h
      obtain ⟨rfl, rfl⟩ := h
      exact .call op _
  | requestStop target =>
      cases l <;> simp only [step, reduceCtorEq, Option.some.injEq, Prod.mk.injEq] at h
      obtain ⟨rfl, rfl⟩ := h
      exact .requestStop target _
  | lock throws =>
      cases l with
      | push kind event =>
          have heq := Option.some.inj h
          have heff : Effect t m (.push kind event) (lockPush t m kind event throws).1
              (lockPush t m kind event throws).2 := lockPush_effect rfl (by simp) throws
          rwa [heq] at heff
      | pushParked kind event =>
          simp only [step] at h
          split at h
          · cases h
          · next hnot =>
              have heq := Option.some.inj h
              have heff : Effect t m (.pushParked kind event)
                  (lockPush t m kind event throws).1 (lockPush t m kind event throws).2 :=
                lockPush_effect rfl (fun _ _ => hnot) throws
              rwa [heq] at heff
      | pushTimedOut event =>
          cases h
          exact waitPushSection_effect rfl (by simp) true throws
      | pop wait => exact lockPop_effect (.inr ⟨wait, rfl⟩) (by simp) h
      | popParked =>
          simp only [step] at h
          split at h
          · cases h
          · next hnot => exact lockPop_effect (.inl rfl) (fun _ => hnot) h
      | close => cases h; exact .close
      | discard => cases h; exact .discard
      | _ => cases h
  | notifyOne u =>
      cases l with
      | pushNotify =>
          obtain ⟨left, hleft, hr⟩ := Option.map_eq_some_iff.mp h
          cases hr
          exact .notifyNotEmpty hleft
      | popNotify event =>
          obtain ⟨left, hleft, hr⟩ := Option.map_eq_some_iff.mp h
          cases hr
          exact .notifyNotFull event hleft
      | _ => cases h
  | notifyAll =>
      cases l with
      | closeNotifyEmpty => cases h; exact .closeNotifyEmpty
      | closeNotifyFull => cases h; exact .closeNotifyFull
      | discardNotifyEmpty count => cases h; exact .discardNotifyEmpty count
      | discardNotifyFull count => cases h; exact .discardNotifyFull count
      | _ => cases h
  | wakeSpuriously =>
      cases l with
      | pushParked kind event => cases h; exact .wakePush kind event
      | popParked => cases h; exact .wakePop
      | _ => cases h
  | deadlinePasses =>
      cases l with
      | pushParked kind event =>
          cases kind <;> cases h
          exact .timeOut event
      | _ => cases h

/-- Every step keeps the ring represented and its capacity fixed. -/
theorem Effect.represents {t : T} {m m' : MutexQueueMem T E} {l l' : MutexQueueLoc E}
    (h : Effect t m l m' l') (hrep : ∃ events, m.ring.Represents events) :
    (∃ events, m'.ring.Represents events) ∧ m'.ring.slots.length = m.ring.slots.length := by
  obtain ⟨events, hrep⟩ := hrep
  cases h with
  | stored hl hawake hopen hroom =>
      exact ⟨⟨_, hrep.pushLocked hroom _⟩, by simp [MutexQueue.pushLocked]⟩
  | taken hl hawake hsome hpop =>
      cases events with
      | nil => exact absurd hrep.size_eq (by simpa using hsome)
      | cons event rest =>
          obtain ⟨q, hq, hrep', _, hlen⟩ := hrep.popLocked
          rw [hpop] at hq
          cases hq
          exact ⟨⟨_, hrep'⟩, hlen⟩
  | close => exact ⟨⟨_, hrep.closeSection⟩, rfl⟩
  | discard => exact ⟨⟨_, hrep.discardSection.1⟩, hrep.discardSection.2.2.1⟩
  | _ => exact ⟨⟨_, hrep⟩, rfl⟩

/-- **Run lemma**: the ring is represented in every reachable state. -/
theorem represents_reach {capacity : ℕ} (hpos : 0 < capacity)
    {ok : Config T (MutexQueueMem T E) (MutexQueueLoc E) → T × MutexQueueChoice T E → Prop} :
    ∀ s, (system T E capacity).Reach ok s →
      (∃ events, s.mem.ring.Represents events) ∧ s.mem.ring.slots.length = capacity := by
  refine interleave_invariant ?_ ?_
  · rintro s ⟨hmem, _⟩
    rw [hmem]
    exact ⟨⟨[], MutexQueue.represents_empty hpos⟩, List.length_replicate⟩
  · intro s t c m l _ hinv _ hstep
    obtain ⟨hrep, hlen⟩ := (step_effect hstep).represents hinv.1
    exact ⟨hrep, hlen.trans hinv.2⟩

end MutexQueueThreads

end EventDispatcher
