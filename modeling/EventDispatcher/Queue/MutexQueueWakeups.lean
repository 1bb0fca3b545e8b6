import EventDispatcher.Queue.MutexQueueThreads

/-!
# Wakeups of `bounded_mutex_queue`

A pop hands out one `not_full_` wakeup for the slot it frees, a push one
`not_empty_` wakeup for the event it stores.  `WakeInv` counts them: while
somebody is parked on an open queue, the free slots (or stored events) are
covered by the threads that are awake after waiting and by those that still owe
a notification.  Every exit from a wait keeps the balance except one: a waiting
push that has been woken and then leaves by the exception of its construction
takes a wakeup with it.
-/

namespace EventDispatcher

open Transition

namespace MutexQueueThreads

variable {T E : Type}

/-- A producer inside its wait, parked or not. -/
def waitsForRoom : MutexQueueLoc E → ℕ
  | .pushParked _ _ => 1
  | .pushTimedOut _ => 1
  | _ => 0

/-- A consumer that has yet to signal the slot it freed. -/
def owesRoom : MutexQueueLoc E → ℕ
  | .popNotify _ => 1
  | _ => 0

/-- A consumer inside its wait, parked or not. -/
def waitsForData : MutexQueueLoc E → ℕ
  | .popParked => 1
  | _ => 0

/-- A producer that has yet to signal the event it stored. -/
def owesData : MutexQueueLoc E → ℕ
  | .pushNotify => 1
  | _ => 0

/-- A closer that has yet to wake all producers. -/
def owesRoomToAll : MutexQueueLoc E → ℕ
  | .closeNotifyEmpty => 1
  | .closeNotifyFull => 1
  | .discardNotifyEmpty _ => 1
  | .discardNotifyFull _ => 1
  | _ => 0

/-- A closer that has yet to wake all consumers. -/
def owesDataToAll : MutexQueueLoc E → ℕ
  | .closeNotifyEmpty => 1
  | .discardNotifyEmpty _ => 1
  | _ => 0

/-- No thread is awake inside an operation. -/
def Quiescent (s : Config T (MutexQueueMem T E) (MutexQueueLoc E)) : Prop :=
  ∀ t, (∃ last, s.loc t = .outside last) ∨
    (t ∈ s.mem.notFull ∧ ∃ kind event, s.loc t = .pushParked kind event) ∨
    (t ∈ s.mem.notEmpty ∧ s.loc t = .popParked)

/-- The step in which a wakeup is lost: the construction of a push that has
already waited throws while another producer is still parked. -/
def LosesWakeup (s : Config T (MutexQueueMem T E) (MutexQueueLoc E))
    (a : T × MutexQueueChoice T E) : Prop :=
  a.2 = .lock true ∧ waitsForRoom (s.loc a.1) = 1 ∧
    s.mem.ring.closed = false ∧ s.mem.ring.size ≠ s.mem.ring.slots.length ∧
    s.mem.notFull.Nonempty

section Parking

variable [DecidableEq T]

/-- Whoever waits on `not_full_` is parked in a push. -/
theorem parkedPush_step {s : Config T (MutexQueueMem T E) (MutexQueueLoc E)} {t : T}
    {m : MutexQueueMem T E} {l : MutexQueueLoc E}
    (hpark : ∀ t ∈ s.mem.notFull, ∃ kind event, s.loc t = .pushParked kind event)
    (h : Effect t s.mem (s.loc t) m l) :
    ∀ u ∈ m.notFull, ∃ kind event, Function.update s.loc t l u = .pushParked kind event := by
  intro u hu
  by_cases hut : u = t
  · subst hut
    rw [Function.update_self]
    have hself := hpark u
    generalize s.loc u = l₀ at h hself
    cases h <;> grind [pushing, MutexQueueMem.requestStop]
  · rw [Function.update_of_ne hut]
    apply hpark u
    generalize s.loc t = l₀ at h
    cases h <;> grind [MutexQueueMem.requestStop]

/-- Whoever waits on `not_empty_` is parked in a pop. -/
theorem parkedPop_step {s : Config T (MutexQueueMem T E) (MutexQueueLoc E)} {t : T}
    {m : MutexQueueMem T E} {l : MutexQueueLoc E}
    (hpark : ∀ t ∈ s.mem.notEmpty, s.loc t = .popParked)
    (h : Effect t s.mem (s.loc t) m l) :
    ∀ u ∈ m.notEmpty, Function.update s.loc t l u = .popParked := by
  intro u hu
  by_cases hut : u = t
  · subst hut
    rw [Function.update_self]
    have hself := hpark u
    generalize s.loc u = l₀ at h hself
    cases h <;> grind [pushing, MutexQueueMem.requestStop]
  · rw [Function.update_of_ne hut]
    apply hpark u
    generalize s.loc t = l₀ at h
    cases h <;> grind [MutexQueueMem.requestStop]

/-- Discarding does not reopen the queue. -/
theorem discardLoop_closed (q : MutexQueue E) (fuel : ℕ) :
    (q.discardLoop fuel).closed = q.closed := by
  induction fuel generalizing q with
  | zero => rfl
  | succ fuel ih =>
      rw [MutexQueue.discardLoop]
      split
      · rfl
      · exact ih _

/-- What `pop_locked` does to the fields. -/
theorem popLocked_fields {q q' : MutexQueue E} {event : E}
    (h : q.popLocked = some (event, q')) :
    q'.size = q.size - 1 ∧ q'.closed = q.closed ∧ q'.slots.length = q.slots.length := by
  obtain ⟨e, _, hr⟩ := Option.map_eq_some_iff.mp h
  cases hr
  simp

/-- A push that has thrown says so. -/
theorem afterPush_threw {o : PushOutcome}
    (h : (MutexQueueLoc.afterPush o : MutexQueueLoc E) = .outside (some (.push .threw))) :
    o = .threw := by
  cases o with
  | threw => rfl
  | returned status => cases status <;> simp [MutexQueueLoc.afterPush] at h

/-- A push throws where it has room only. -/
theorem waitPushSection_threw {q : MutexQueue E} {event : E} {timed stop throws : Bool}
    (h : (q.waitPushSection event q.notFull timed stop throws).2 = .threw) :
    throws = true ∧ q.closed = false ∧ q.size ≠ q.slots.length := by
  unfold MutexQueue.waitPushSection at h
  grind [MutexQueue.notFull]

/-- A waiting push reports an exception only if its construction was reached
and threw. -/
theorem step_threw {t : T} {c : MutexQueueChoice T E} {m m' : MutexQueueMem T E}
    {l : MutexQueueLoc E} (hl : waitsForRoom l = 1)
    (h : step t c m l = some (m', .outside (some (.push .threw)))) :
    c = .lock true ∧ m.ring.closed = false ∧ m.ring.size ≠ m.ring.slots.length := by
  cases l with
  | pushParked kind event =>
      cases c with
      | lock throws =>
          simp only [step, lockPush] at h
          grind [afterPush_threw, waitPushSection_threw, MutexQueue.tryPushSection]
      | deadlinePasses => cases kind <;> simp [step] at h
      | _ => simp [step] at h
  | pushTimedOut event =>
      cases c with
      | lock throws =>
          simp only [step, lockTimedOut, Option.some.injEq, Prod.mk.injEq] at h
          have := waitPushSection_threw (afterPush_threw h.2)
          simp_all
      | _ => simp [step] at h
  | _ => simp [waitsForRoom] at hl

/-- No step reopens the queue. -/
theorem Effect.closed_mono {t : T} {m m' : MutexQueueMem T E} {l l' : MutexQueueLoc E}
    (h : Effect t m l m' l') (hopen : m'.ring.closed = false) : m.ring.closed = false := by
  cases h with
  | taken hl hawake hsome hpop => exact (popLocked_fields hpop).2.1 ▸ hopen
  | close => simp [MutexQueue.closeSection] at hopen
  | discard => simp [MutexQueue.discardSection, discardLoop_closed] at hopen
  | _ => exact hopen

/-- A step as the producers' side sees it. -/
inductive RoomView (m m' : MutexQueueMem T E) (l l' : MutexQueueLoc E) : Prop
  | quiet (hsub : m'.notFull ⊆ m.notFull) (hsize : m'.ring.size = m.ring.size)
      (hwait : waitsForRoom l' = waitsForRoom l) (howe : owesRoom l' = owesRoom l)
  | full (hfull : m'.ring.size = m'.ring.slots.length)
  | threw (hm : m' = m) (hl : l' = .outside (some (.push .threw)))
      (howe : owesRoom l = 0) (hle : waitsForRoom l ≤ 1)
  | stored (hset : m'.notFull = m.notFull) (hsize : m'.ring.size = m.ring.size + 1)
      (hwait : waitsForRoom l ≤ 1) (howe : owesRoom l' = owesRoom l)
  | freed (hset : m'.notFull = m.notFull) (hsize : m'.ring.size + 1 = m.ring.size)
      (hwait : waitsForRoom l' = waitsForRoom l) (howe : owesRoom l' = owesRoom l + 1)
  | notified {u : Option T} (hnotify : notifyOne m.notFull u = some m'.notFull)
      (hsize : m'.ring.size = m.ring.size)
      (hwait : waitsForRoom l' = waitsForRoom l) (howe : owesRoom l' + 1 = owesRoom l)
  | closed (hclosed : m'.ring.closed = true)

/-- A step, seen from `not_full_`. -/
theorem Effect.roomView {t : T} {m m' : MutexQueueMem T E} {l l' : MutexQueueLoc E}
    (h : Effect t m l m' l') : RoomView m m' l l' := by
  cases h with
  | call op last =>
      refine .quiet (fun _ h => h) rfl ?_ ?_ <;> cases op <;> rfl
  | requestStop target last =>
      refine .quiet ?_ rfl rfl rfl
      simp only [MutexQueueMem.requestStop]
      split
      · exact Finset.empty_subset _
      · exact Finset.Subset.refl _
  | refused hl hawake hstatus hwhy => exact hwhy.elim .closed .full
  | threw hl hawake hopen hroom =>
      refine .threw rfl rfl ?_ ?_ <;> cases l <;> simp_all [pushing, owesRoom, waitsForRoom]
  | stored hl hawake hopen hroom =>
      refine .stored rfl rfl ?_ ?_ <;> cases l <;> simp_all [pushing, owesRoom, waitsForRoom]
  | parkPush hl hopen hfull kind => exact .full hfull
  | popFailed hl hawake hempty hclosed hresult =>
      refine .quiet (fun _ h => h) rfl ?_ ?_ <;> rcases hl with rfl | ⟨wait, rfl⟩ <;> rfl
  | taken hl hawake hsome hpop =>
      have := popLocked_fields hpop
      refine .freed rfl (by dsimp only; omega) ?_ ?_ <;>
        rcases hl with rfl | ⟨wait, rfl⟩ <;> rfl
  | parkPop hl hopen hempty =>
      refine .quiet (fun _ h => h) rfl ?_ ?_ <;> rcases hl with rfl | ⟨wait, rfl⟩ <;> rfl
  | wakePush kind event => exact .quiet (Finset.erase_subset _ _) rfl rfl rfl
  | timeOut event => exact .quiet (Finset.erase_subset _ _) rfl rfl rfl
  | notifyNotFull event hnotify => exact .notified hnotify rfl rfl rfl
  | close => exact .closed rfl
  | discard => exact .closed (by simp [MutexQueue.discardSection, discardLoop_closed])
  | closeNotifyFull => exact .quiet (Finset.empty_subset _) rfl rfl rfl
  | discardNotifyFull count => exact .quiet (Finset.empty_subset _) rfl rfl rfl
  | _ => exact .quiet (fun _ h => h) rfl rfl rfl

/-- A step as the consumers' side sees it. -/
inductive DataView (m m' : MutexQueueMem T E) (l l' : MutexQueueLoc E) : Prop
  | quiet (hsub : m'.notEmpty ⊆ m.notEmpty) (hsize : m'.ring.size = m.ring.size)
      (hwait : waitsForData l' = waitsForData l) (howe : owesData l' = owesData l)
  | empty (hempty : m'.ring.size = 0)
  | stored (hset : m'.notEmpty = m.notEmpty) (hsize : m'.ring.size = m.ring.size + 1)
      (hwait : waitsForData l' = waitsForData l) (howe : owesData l' = owesData l + 1)
  | taken (hset : m'.notEmpty = m.notEmpty) (hsize : m'.ring.size + 1 = m.ring.size)
      (hwait : waitsForData l ≤ 1) (howe : owesData l' = owesData l)
  | notified {u : Option T} (hnotify : notifyOne m.notEmpty u = some m'.notEmpty)
      (hsize : m'.ring.size = m.ring.size)
      (hwait : waitsForData l' = waitsForData l) (howe : owesData l' + 1 = owesData l)
  | closed (hclosed : m'.ring.closed = true)

/-- A step, seen from `not_empty_`. -/
theorem Effect.dataView {t : T} {m m' : MutexQueueMem T E} {l l' : MutexQueueLoc E}
    (h : Effect t m l m' l') : DataView m m' l l' := by
  cases h with
  | call op last =>
      refine .quiet (fun _ h => h) rfl ?_ ?_ <;> cases op <;> rfl
  | requestStop target last =>
      refine .quiet ?_ rfl rfl rfl
      simp only [MutexQueueMem.requestStop]
      split
      · exact Finset.empty_subset _
      · exact Finset.Subset.refl _
  | refused hl hawake hstatus hwhy =>
      refine .quiet (fun _ h => h) rfl ?_ ?_ <;> cases l <;>
        simp_all [pushing, owesData, waitsForData]
  | threw hl hawake hopen hroom =>
      refine .quiet (fun _ h => h) rfl ?_ ?_ <;> cases l <;>
        simp_all [pushing, owesData, waitsForData]
  | stored hl hawake hopen hroom =>
      refine .stored rfl rfl ?_ ?_ <;> cases l <;> simp_all [pushing, owesData, waitsForData]
  | parkPush hl hopen hfull kind =>
      refine .quiet (fun _ h => h) rfl ?_ ?_ <;> cases l <;>
        simp_all [pushing, owesData, waitsForData]
  | popFailed hl hawake hempty hclosed hresult => exact .empty hempty
  | taken hl hawake hsome hpop =>
      have := popLocked_fields hpop
      refine .taken rfl (by dsimp only; omega) ?_ ?_ <;>
        rcases hl with rfl | ⟨wait, rfl⟩ <;> simp [waitsForData, owesData]
  | parkPop hl hopen hempty => exact .empty hempty
  | wakePop => exact .quiet (Finset.erase_subset _ _) rfl rfl rfl
  | notifyNotEmpty hnotify => exact .notified hnotify rfl rfl rfl
  | close => exact .closed rfl
  | discard => exact .closed (by simp [MutexQueue.discardSection, discardLoop_closed])
  | closeNotifyEmpty => exact .quiet (Finset.empty_subset _) rfl rfl rfl
  | discardNotifyEmpty count => exact .quiet (Finset.empty_subset _) rfl rfl rfl
  | _ => exact .quiet (fun _ h => h) rfl rfl rfl

/-- A push owes nobody a broadcast. -/
theorem owesToAll_of_pushing {l : MutexQueueLoc E} {event : E} (h : pushing l = some event) :
    owesRoomToAll l = 0 ∧ owesDataToAll l = 0 := by
  cases l <;> simp_all [pushing, owesRoomToAll, owesDataToAll]

/-- On a closed queue a step either leaves its own thread owing a broadcast, or
the queue was closed before with the same debts and at least the same waiters. -/
theorem Effect.closedView {t : T} {m m' : MutexQueueMem T E} {l l' : MutexQueueLoc E}
    (h : Effect t m l m' l') (hclosed : m'.ring.closed = true) :
    (m'.notFull.Nonempty → owesRoomToAll l < owesRoomToAll l' ∨
      (m.ring.closed = true ∧ m.notFull.Nonempty ∧ owesRoomToAll l' = owesRoomToAll l)) ∧
    (m'.notEmpty.Nonempty → owesDataToAll l < owesDataToAll l' ∨
      (m.ring.closed = true ∧ m.notEmpty.Nonempty ∧ owesDataToAll l' = owesDataToAll l)) := by
  cases h with
  | call op last =>
      exact ⟨fun hne => .inr ⟨hclosed, hne, by cases op <;> rfl⟩,
        fun hne => .inr ⟨hclosed, hne, by cases op <;> rfl⟩⟩
  | requestStop target last =>
      refine ⟨fun hne => .inr ⟨hclosed, hne.mono ?_, rfl⟩,
        fun hne => .inr ⟨hclosed, hne.mono ?_, rfl⟩⟩ <;>
      · simp only [MutexQueueMem.requestStop]
        split
        · exact Finset.empty_subset _
        · exact Finset.Subset.refl _
  | refused hl hawake hstatus hwhy =>
      obtain ⟨hr, hd⟩ := owesToAll_of_pushing hl
      exact ⟨fun hne => .inr ⟨hclosed, hne, hr.symm⟩, fun hne => .inr ⟨hclosed, hne, hd.symm⟩⟩
  | threw hl hawake hopen hroom => simp [hopen] at hclosed
  | stored hl hawake hopen hroom => simp [MutexQueue.pushLocked, hopen] at hclosed
  | parkPush hl hopen hfull kind => simp [hopen] at hclosed
  | popFailed hl hawake hempty hresult =>
      rcases hl with rfl | ⟨wait, rfl⟩ <;>
        exact ⟨fun hne => .inr ⟨hclosed, hne, rfl⟩, fun hne => .inr ⟨hclosed, hne, rfl⟩⟩
  | taken hl hawake hsome hpop =>
      have hwas := (popLocked_fields hpop).2.1 ▸ hclosed
      rcases hl with rfl | ⟨wait, rfl⟩ <;>
        exact ⟨fun hne => .inr ⟨hwas, hne, rfl⟩, fun hne => .inr ⟨hwas, hne, rfl⟩⟩
  | parkPop hl hopen hempty => simp [hopen] at hclosed
  | wakePush kind event =>
      exact ⟨fun hne => .inr ⟨hclosed, hne.mono (Finset.erase_subset _ _), rfl⟩,
        fun hne => .inr ⟨hclosed, hne, rfl⟩⟩
  | timeOut event =>
      exact ⟨fun hne => .inr ⟨hclosed, hne.mono (Finset.erase_subset _ _), rfl⟩,
        fun hne => .inr ⟨hclosed, hne, rfl⟩⟩
  | wakePop =>
      exact ⟨fun hne => .inr ⟨hclosed, hne, rfl⟩,
        fun hne => .inr ⟨hclosed, hne.mono (Finset.erase_subset _ _), rfl⟩⟩
  | notifyNotEmpty hnotify =>
      exact ⟨fun hne => .inr ⟨hclosed, hne, rfl⟩, fun hne =>
        .inr ⟨hclosed, hne.mono fun _ => mem_of_mem_notifyOne hnotify, rfl⟩⟩
  | notifyNotFull event hnotify =>
      exact ⟨fun hne => .inr ⟨hclosed, hne.mono fun _ => mem_of_mem_notifyOne hnotify, rfl⟩,
        fun hne => .inr ⟨hclosed, hne, rfl⟩⟩
  | close => exact ⟨fun _ => .inl Nat.one_pos, fun _ => .inl Nat.one_pos⟩
  | discard => exact ⟨fun _ => .inl Nat.one_pos, fun _ => .inl Nat.one_pos⟩
  | closeNotifyEmpty => exact ⟨fun hne => .inr ⟨hclosed, hne, rfl⟩, fun hne => by simp at hne⟩
  | closeNotifyFull => exact ⟨fun hne => by simp at hne, fun hne => .inr ⟨hclosed, hne, rfl⟩⟩
  | discardNotifyEmpty count =>
      exact ⟨fun hne => .inr ⟨hclosed, hne, rfl⟩, fun hne => by simp at hne⟩
  | discardNotifyFull count =>
      exact ⟨fun hne => by simp at hne, fun hne => .inr ⟨hclosed, hne, rfl⟩⟩

end Parking

variable [Fintype T]

/-- The balance of wakeups. -/
structure WakeInv (capacity : ℕ)
    (s : Config T (MutexQueueMem T E) (MutexQueueLoc E)) : Prop where
  stored : ∃ events, s.mem.ring.Represents events
  capacity_eq : s.mem.ring.slots.length = capacity
  parkedPush : ∀ t ∈ s.mem.notFull, ∃ kind event, s.loc t = .pushParked kind event
  parkedPop : ∀ t ∈ s.mem.notEmpty, s.loc t = .popParked
  room : s.mem.ring.closed = false → s.mem.notFull.Nonempty →
    capacity + s.mem.notFull.card ≤
      s.mem.ring.size + tally waitsForRoom s.loc + tally owesRoom s.loc
  data : s.mem.ring.closed = false → s.mem.notEmpty.Nonempty →
    s.mem.ring.size + s.mem.notEmpty.card ≤
      tally waitsForData s.loc + tally owesData s.loc
  roomClosed : s.mem.ring.closed = true → s.mem.notFull.Nonempty →
    0 < tally owesRoomToAll s.loc
  dataClosed : s.mem.ring.closed = true → s.mem.notEmpty.Nonempty →
    0 < tally owesDataToAll s.loc

/-- The waiting producers are counted. -/
theorem card_parkedPush {waiters : Finset T} {loc : T → MutexQueueLoc E}
    (h : ∀ t ∈ waiters, ∃ kind event, loc t = .pushParked kind event) :
    waiters.card ≤ tally waitsForRoom loc := by
  apply card_le_tally
  intro t ht
  obtain ⟨kind, event, hl⟩ := h t ht
  simp [hl, waitsForRoom]

/-- The waiting consumers are counted. -/
theorem card_parkedPop {waiters : Finset T} {loc : T → MutexQueueLoc E}
    (h : ∀ t ∈ waiters, loc t = .popParked) : waiters.card ≤ tally waitsForData loc := by
  apply card_le_tally
  intro t ht
  simp [h t ht, waitsForData]

variable [DecidableEq T]

/-- The producers' side of the balance. -/
theorem room_step {capacity : ℕ} {s : Config T (MutexQueueMem T E) (MutexQueueLoc E)}
    {t : T} {m : MutexQueueMem T E} {l : MutexQueueLoc E} (hinv : WakeInv capacity s)
    (hthrew : l = .outside (some (.push .threw)) → waitsForRoom (s.loc t) = 1 →
      s.mem.notFull = ∅)
    (h : Effect t s.mem (s.loc t) m l) (hopen : m.ring.closed = false)
    (hne : m.notFull.Nonempty) :
    capacity + m.notFull.card ≤ m.ring.size +
      tally waitsForRoom (Function.update s.loc t l) +
      tally owesRoom (Function.update s.loc t l) := by
  have hcard := card_parkedPush (parkedPush_step hinv.parkedPush h)
  have hcap := (h.represents hinv.stored).2.trans hinv.capacity_eq
  have hroom := hinv.room (h.closed_mono hopen)
  have hw := tally_update waitsForRoom s.loc t l
  have ho := tally_update owesRoom s.loc t l
  cases h.roomView with
  | quiet hsub hsize hwait howe =>
      have := hroom (hne.mono hsub)
      have := Finset.card_le_card hsub
      omega
  | full hfull => omega
  | threw hm hl howe hle =>
      rw [hm] at hne ⊢
      have := hroom hne
      have hzero : waitsForRoom (s.loc t) = 0 := by
        by_contra hone
        exact hne.ne_empty (hthrew hl (by omega))
      omega
  | stored hset hsize hwait howe =>
      rw [hset] at hne ⊢
      have := hroom hne
      omega
  | freed hset hsize hwait howe =>
      rw [hset] at hne ⊢
      have := hroom hne
      omega
  | notified hnotify hsize hwait howe =>
      rcases notifyOne_cases hnotify with ⟨_, hempty⟩ | ⟨v, hv, _, hcard'⟩
      · exact absurd hempty hne.ne_empty
      · have := hroom ⟨v, hv⟩
        omega
  | closed hclosed => simp [hclosed] at hopen

/-- The consumers' side of the balance. -/
theorem data_step {capacity : ℕ} {s : Config T (MutexQueueMem T E) (MutexQueueLoc E)}
    {t : T} {m : MutexQueueMem T E} {l : MutexQueueLoc E} (hinv : WakeInv capacity s)
    (h : Effect t s.mem (s.loc t) m l) (hopen : m.ring.closed = false)
    (hne : m.notEmpty.Nonempty) :
    m.ring.size + m.notEmpty.card ≤ tally waitsForData (Function.update s.loc t l) +
      tally owesData (Function.update s.loc t l) := by
  have hcard := card_parkedPop (parkedPop_step hinv.parkedPop h)
  have hdata := hinv.data (h.closed_mono hopen)
  have hw := tally_update waitsForData s.loc t l
  have ho := tally_update owesData s.loc t l
  cases h.dataView with
  | quiet hsub hsize hwait howe =>
      have := hdata (hne.mono hsub)
      have := Finset.card_le_card hsub
      omega
  | empty hempty => omega
  | stored hset hsize hwait howe =>
      rw [hset] at hne ⊢
      have := hdata hne
      omega
  | taken hset hsize hwait howe =>
      rw [hset] at hne ⊢
      have := hdata hne
      omega
  | notified hnotify hsize hwait howe =>
      rcases notifyOne_cases hnotify with ⟨_, hempty⟩ | ⟨v, hv, _, hcard'⟩
      · exact absurd hempty hne.ne_empty
      · have := hdata ⟨v, hv⟩
        omega
  | closed hclosed => simp [hclosed] at hopen

/-- After a close, whoever is still parked is owed a `notify_all`. -/
theorem closed_step {capacity : ℕ} {s : Config T (MutexQueueMem T E) (MutexQueueLoc E)}
    {t : T} {m : MutexQueueMem T E} {l : MutexQueueLoc E} (hinv : WakeInv capacity s)
    (h : Effect t s.mem (s.loc t) m l) (hclosed : m.ring.closed = true) :
    (m.notFull.Nonempty → 0 < tally owesRoomToAll (Function.update s.loc t l)) ∧
      (m.notEmpty.Nonempty → 0 < tally owesDataToAll (Function.update s.loc t l)) := by
  have hr := tally_update owesRoomToAll s.loc t l
  have hd := tally_update owesDataToAll s.loc t l
  obtain ⟨hroom, hdata⟩ := h.closedView hclosed
  constructor
  · intro hne
    rcases hroom hne with hpos | ⟨hwas, hold, hsame⟩
    · omega
    · have := hinv.roomClosed hwas hold
      omega
  · intro hne
    rcases hdata hne with hpos | ⟨hwas, hold, hsame⟩
    · omega
    · have := hinv.dataClosed hwas hold
      omega

/-- One step keeps the balance unless it is the step that loses a wakeup. -/
theorem wakeInv_step {capacity : ℕ} {s : Config T (MutexQueueMem T E) (MutexQueueLoc E)}
    {t : T} {m : MutexQueueMem T E} {l : MutexQueueLoc E} (hinv : WakeInv capacity s)
    (hthrew : l = .outside (some (.push .threw)) → waitsForRoom (s.loc t) = 1 →
      s.mem.notFull = ∅)
    (h : Effect t s.mem (s.loc t) m l) :
    WakeInv capacity ⟨m, Function.update s.loc t l⟩ := by
  obtain ⟨hrep, hcap⟩ := h.represents hinv.stored
  exact ⟨hrep, hcap.trans hinv.capacity_eq, parkedPush_step hinv.parkedPush h,
    parkedPop_step hinv.parkedPop h, room_step hinv hthrew h, data_step hinv h,
    fun hclosed => (closed_step hinv h hclosed).1,
    fun hclosed => (closed_step hinv h hclosed).2⟩

/-- **Balance along every run** that loses no wakeup. -/
theorem wakeInv_reach {capacity : ℕ} (hpos : 0 < capacity) :
    ∀ s, (system T E capacity).Reach (fun s a => ¬ LosesWakeup s a) s →
      WakeInv capacity s := by
  refine interleave_invariant ?_ ?_
  · rintro s ⟨hmem, hloc⟩
    refine ⟨⟨[], ?_⟩, ?_, ?_, ?_, ?_, ?_, ?_, ?_⟩ <;>
      simp [hmem, MutexQueue.represents_empty hpos]
    simp [MutexQueue.empty]
  · intro s t c m l _ hinv hok hstep
    refine wakeInv_step hinv ?_ (step_effect hstep)
    intro hl hwait
    subst hl
    obtain ⟨hc, hopen, hroom⟩ := step_threw hwait hstep
    by_contra hne
    exact hok ⟨hc, hwait, hopen, hroom, Finset.nonempty_iff_ne_empty.mpr hne⟩

/-- **No lost wakeup.**  In every run in which no woken producer throws while
another one is parked, whenever all threads are outside or parked, a producer is
parked only on a full open queue and a consumer only on an empty open one. -/
theorem parked_only_when_blocked {capacity : ℕ} (hpos : 0 < capacity)
    {s : Config T (MutexQueueMem T E) (MutexQueueLoc E)}
    (hreach : (system T E capacity).Reach (fun s a => ¬ LosesWakeup s a) s)
    (hquiet : Quiescent s) :
    (∀ t kind event, s.loc t = .pushParked kind event →
      s.mem.ring.size = capacity ∧ s.mem.ring.closed = false) ∧
    (∀ t, s.loc t = .popParked →
      s.mem.ring.size = 0 ∧ s.mem.ring.closed = false) := by
  have hinv := wakeInv_reach hpos s hreach
  obtain ⟨events, hrep⟩ := hinv.stored
  have hsize : s.mem.ring.size ≤ capacity := by
    have := hrep.size_eq
    have := hrep.size_le
    have := hinv.capacity_eq
    omega
  -- nobody is awake, so nobody owes a notification and all waiters are parked
  have hno : tally owesRoom s.loc = 0 ∧ tally owesData s.loc = 0 ∧
      tally owesRoomToAll s.loc = 0 ∧ tally owesDataToAll s.loc = 0 := by
    refine ⟨tally_eq_zero ?_, tally_eq_zero ?_, tally_eq_zero ?_, tally_eq_zero ?_⟩ <;>
    · intro t
      rcases hquiet t with ⟨last, hl⟩ | ⟨_, kind, event, hl⟩ | ⟨_, hl⟩ <;>
        simp [hl, owesRoom, owesData, owesRoomToAll, owesDataToAll]
  have hroomCard : tally waitsForRoom s.loc ≤ s.mem.notFull.card := by
    apply tally_le_card
    · intro t
      cases s.loc t <;> simp [waitsForRoom]
    · intro t ht
      rcases hquiet t with ⟨last, hl⟩ | ⟨hmem, _⟩ | ⟨_, hl⟩
      · simp [hl, waitsForRoom]
      · exact absurd hmem ht
      · simp [hl, waitsForRoom]
  have hdataCard : tally waitsForData s.loc ≤ s.mem.notEmpty.card := by
    apply tally_le_card
    · intro t
      cases s.loc t <;> simp [waitsForData]
    · intro t ht
      rcases hquiet t with ⟨last, hl⟩ | ⟨_, kind, event, hl⟩ | ⟨hmem, _⟩
      · simp [hl, waitsForData]
      · simp [hl, waitsForData]
      · exact absurd hmem ht
  constructor
  · intro t kind event hl
    have hmem : s.mem.notFull.Nonempty := by
      rcases hquiet t with ⟨last, hl'⟩ | ⟨hmem, _⟩ | ⟨_, hl'⟩
      · simp [hl] at hl'
      · exact ⟨t, hmem⟩
      · simp [hl] at hl'
    cases hclosed : s.mem.ring.closed with
    | true => exact absurd (hinv.roomClosed hclosed hmem) (by omega)
    | false =>
        have := hinv.room hclosed hmem
        exact ⟨by omega, rfl⟩
  · intro t hl
    have hmem : s.mem.notEmpty.Nonempty := by
      rcases hquiet t with ⟨last, hl'⟩ | ⟨_, kind, event, hl'⟩ | ⟨hmem, _⟩
      · simp [hl] at hl'
      · simp [hl] at hl'
      · exact ⟨t, hmem⟩
    cases hclosed : s.mem.ring.closed with
    | true => exact absurd (hinv.dataClosed hclosed hmem) (by omega)
    | false =>
        have := hinv.data hclosed hmem
        exact ⟨by omega, rfl⟩

/-- The start of every schedule below. -/
def started (T E : Type) (capacity : ℕ) : Config T (MutexQueueMem T E) (MutexQueueLoc E) :=
  ⟨⟨MutexQueue.empty capacity, ∅, ∅, fun _ => false⟩, fun _ => .outside none⟩

/-- A consumer has been woken by a push, one of two waiting producers by a pop, and the other
producer is still parked: the theorem applies. -/
theorem producer_parked_on_full_queue :
    ∃ s : Config (Fin 3) (MutexQueueMem (Fin 3) ℕ) (MutexQueueLoc ℕ),
      s.loc 0 = .outside (some (.pop (.success 8))) ∧
      s.loc 1 = .outside (some (.push (.returned .success))) ∧
      s.loc 2 = .pushParked .waitPush 10 ∧ s.mem.ring.size = 1 ∧ s.mem.ring.closed = false := by
  obtain ⟨s, hs, hp⟩ := System.exists_reach_of_run (system (Fin 3) ℕ 1)
    (fun s a => ¬ LosesWakeup s a) (fun _ _ => true) (s := started (Fin 3) ℕ 1) ⟨rfl, rfl⟩
    [(0, .call (.pop true false)), (0, .lock false),
      (1, .call (.push .tryPush 7 false)), (1, .lock false), (1, .notifyOne (some 0)),
      (0, .lock false), (0, .notifyOne none),
      (1, .call (.push .tryPush 8 false)), (1, .lock false), (1, .notifyOne none),
      (1, .call (.push .waitPush 9 false)), (1, .lock false),
      (2, .call (.push .waitPush 10 false)), (2, .lock false),
      (0, .call (.pop true false)), (0, .lock false), (0, .notifyOne (some 1)),
      (1, .lock false), (1, .notifyOne none)]
    (fun s => s.loc 0 == .outside (some (.pop (.success 8))) &&
      (s.loc 1 == .outside (some (.push (.returned .success))) &&
      (s.loc 2 == .pushParked .waitPush 10 && decide (s.mem.notFull = {2}))))
    (by simp [LosesWakeup]) (by decide)
  simp only [Bool.and_eq_true, beq_iff_eq, decide_eq_true_eq] at hp
  obtain ⟨h0, h1, h2, hfull⟩ := hp
  have hquiet : Quiescent s := by
    intro t
    match t with
    | 0 => exact .inl ⟨_, h0⟩
    | 1 => exact .inl ⟨_, h1⟩
    | 2 => exact .inr (.inl ⟨by simp [hfull], _, _, h2⟩)
  exact ⟨s, h0, h1, h2, (parked_only_when_blocked (by decide) hs hquiet).1 2 _ _ h2⟩

/-- **A thrown copy takes a wakeup with it.**  Two producers wait on a full
queue, one pop wakes the first of them, and its construction throws: the second
stays parked on an empty open queue with nobody awake. -/
theorem thrown_copy_strands_producer :
    ∃ s : Config (Fin 3) (MutexQueueMem (Fin 3) ℕ) (MutexQueueLoc ℕ),
      (system (Fin 3) ℕ 1).Reachable s ∧ Quiescent s ∧
      ∃ t kind event, s.loc t = .pushParked kind event ∧
        ¬ (s.mem.ring.size = 1 ∧ s.mem.ring.closed = false) := by
  obtain ⟨s, hs, hp⟩ := System.exists_reach_of_run (system (Fin 3) ℕ 1)
    (fun _ _ => True) (fun _ _ => true) (s := started (Fin 3) ℕ 1) ⟨rfl, rfl⟩
    [(0, .call (.push .tryPush 7 false)), (0, .lock false), (0, .notifyOne none),
      (1, .call (.push .waitPush 8 false)), (1, .lock false),
      (2, .call (.push .waitPush 9 false)), (2, .lock false),
      (0, .call (.pop false false)), (0, .lock false), (0, .notifyOne (some 1)),
      (1, .lock true)]
    (fun s => s.loc 0 == .outside (some (.pop (.success 7))) &&
      (s.loc 1 == .outside (some (.push .threw)) && (s.loc 2 == .pushParked .waitPush 9 &&
      (decide (s.mem.notFull = {2}) && decide (s.mem.ring.size = 0)))))
    (by simp) (by decide)
  simp only [Bool.and_eq_true, beq_iff_eq, decide_eq_true_eq] at hp
  obtain ⟨h0, h1, h2, hfull, hsize⟩ := hp
  refine ⟨s, hs, ?_, 2, .waitPush, 9, h2, by simp [hsize]⟩
  intro t
  match t with
  | 0 => exact .inl ⟨_, h0⟩
  | 1 => exact .inl ⟨_, h1⟩
  | 2 => exact .inr (.inl ⟨by simp [hfull], _, _, h2⟩)

end MutexQueueThreads

end EventDispatcher
