import EventDispatcher.Queue.LockFreeQueueSlots
import EventDispatcher.Queue.OperationView

/-!
# `bounded_lock_free_queue` as its callers see it

A push constructs its event in a slot before the index of the slot is published, and
the step that publishes the index is the one in which the event enters the queue.  Every
failure of a push comes before the construction, or is the construction's own exception.
-/

namespace EventDispatcher

open Transition OperationGate

namespace LockFreeQueue

variable {T E : Type}

/-- A push attempt.  One that has found the queue full may be made again. -/
def viewPush (event : E) : PushPhase → OpView E
  | .loadGate | .enterGate _ | .takeIndex | .construct _ => .push event false
  | .rollBack _ | .bumpRolledBack | .notifyRolledBack => .pushed .threw
  | .countOccupied _ | .publish _ => .push event true
  | .bump | .notify => .pushed (.returned .success)
  | .leave outcome | .notifyGate outcome =>
      if outcome = .returned .full then .push event false else .pushed outcome

/-- The event of a successful pop. -/
def taken : PopResult E → Option E
  | .success event => some event
  | _ => none

/-- A pop attempt, seen as an operation on a list. -/
def viewPop : PopPhase E → OpView E
  | .move _ event | .destroy _ event | .uncount _ event | .giveBack _ event
  | .bump event | .notify event => .pop (some event)
  | .leave result | .notifyGate result => .pop (taken result)
  | _ => .pop none

/-- A closing call, seen as an operation on a list. -/
def viewClose (discard : Bool) : ClosePhase E → OpView E
  | .takeIndex discarded => .close discard discarded
  | .destroy _ _ discarded | .uncount _ discarded | .giveBack _ discarded =>
      .close discard (discarded + 1)
  | .bump _ (some discarded) | .notify _ (some discarded) | .unlock (some discarded) =>
      .close discard discarded
  | _ => .close discard 0

/-- What the caller can tell of a program point. -/
def view : LockFreeLoc T E → OpView E
  | .outside last => .outside last
  | .push event _ phase => viewPush event phase
  | .waitPush event _ | .timedPush event _ => .push event false
  | .pop _ phase => viewPop phase
  | .waitPop _ => .pop none
  | .close discard phase => viewClose discard phase
  | .unregisterPush outcome => .pushed outcome
  | .unregisterPop result => .pop (taken result)
  | .stopCallback _ _ _ => .stopping

/-- `close` and `close_and_discard` keep to their own phases. -/
def closeOk (discard : Bool) : ClosePhase E → Prop
  | .shutGate .consumer | .waitGate .consumer _ | .parkedGate .consumer _ | .loadGate .consumer
  | .takeIndex _ | .destroy _ _ _ | .uncount _ _ | .giveBack _ _
  | .bump _ (some _) | .notify _ (some _) | .unlock (some _) => discard = true
  | .unlock none => discard = false
  | _ => True

/-- The program point is one that its operation comes to. -/
def LocOk : LockFreeLoc T E → Prop
  | .close discard phase => closeOk discard phase
  | _ => True

/-- The slots that are free. -/
def freeSlots (m : LockFreeMem T E) : ℤ := m.store.available.length

/-- A call begins as its operation. -/
theorem view_start (op : QueueOp E) : view (start op : LockFreeLoc T E) = .start op := by
  rcases op with ⟨kind, event, stop⟩ | ⟨wait, stop⟩ | _ | _
  · cases kind <;> rfl
  · cases wait <;> rfl
  · rfl
  · rfl

/-- Outside in the view is outside. -/
theorem view_outside {l : LockFreeLoc T E} {last : Option (QueueResult E)}
    (h : view l = .outside last) : l = .outside last := by
  cases l with
  | outside last => cases h; rfl
  | push event context phase =>
      cases phase with
      | leave outcome | notifyGate outcome =>
          simp only [view, viewPush] at h
          split at h <;> cases h
      | _ => cases h
  | pop context phase => cases phase <;> cases h
  | close discard phase =>
      cases phase with
      | bump _ discarded | notify _ discarded | unlock discarded => cases discarded <;> cases h
      | _ => cases h
  | _ => cases h

/-- A call begins in order. -/
theorem locOk_start (op : QueueOp E) : LocOk (start op : LockFreeLoc T E) := by
  rcases op with ⟨kind, event, stop⟩ | ⟨wait, stop⟩ | _ | _
  · cases kind <;> trivial
  · cases wait <;> trivial
  · trivial
  · trivial

section Ends

variable {m : LockFreeMem T E} (xs : List E)

/-- What a push attempt makes of its outcome. -/
theorem afterPush_queueMove (event : E) (context : PushContext) (outcome : PushOutcome) :
    QueueMove xs (if outcome = .returned .full then .push event false else .pushed outcome) xs
      (view (afterPush m event context outcome).2) := by
  by_cases hfull : outcome = .returned .full
  · subst hfull
    rw [if_pos rfl]
    cases context with
    | once => exact .refuse event (by simp)
    | timedFinal => exact .fail event (by simp)
    | _ => exact .quiet _
  · rw [if_neg hfull]
    cases context with
    | once => exact .pushReturn outcome
    | _ =>
        simp only [afterPush, if_neg hfull, view]
        exact .quiet _

/-- A push attempt that the gate refuses. -/
theorem afterPush_closed (event : E) (context : PushContext) :
    QueueMove xs (.push event false) xs
      (view (afterPush m event context (.returned .closed)).2) := by
  cases context with
  | once => exact .refuse event (by simp)
  | _ => exact .fail event (by simp)

/-- A pop returns what it has taken. -/
theorem return_queueMove (result : PopResult E) :
    QueueMove xs (.pop (taken result)) xs (.outside (some (.pop result))) := by
  cases result with
  | success event => exact .popReturn event
  | _ => exact .popFail (by simp)

/-- What a pop attempt makes of its result. -/
theorem afterPop_queueMove (context : PopContext) (result : PopResult E) :
    QueueMove xs (.pop (taken result)) xs (view (afterPop m context result).2) := by
  cases context with
  | once => exact return_queueMove xs result
  | _ => cases result <;> exact .quiet _

omit xs in
/-- The end of a push attempt does not touch the contents. -/
theorem afterPush_contents (event : E) (context : PushContext) (outcome : PushOutcome) :
    (afterPush m event context outcome).1.store.contents = m.store.contents := by
  cases context <;> rfl

omit xs in
/-- The end of a pop attempt does not touch the contents. -/
theorem afterPop_contents (context : PopContext) (result : PopResult E) :
    (afterPop m context result).1.store.contents = m.store.contents := by
  cases context <;> rfl

end Ends

section Moves

variable [DecidableEq T] {t : T} {m m' : LockFreeMem T E} {l l' : LockFreeLoc T E} {flag : Bool}
  {waiter : Option T}

/-- **Step lemma**, for a push attempt. -/
theorem stepPush_queueMove {event : E} {context : PushContext} {phase : PushPhase}
    (hfree : ∀ i, (holdPush event phase).slot.index = some i → i ∉ m.store.published)
    (hheld : ∀ i e, (holdPush event phase).slot.alive = some (i, e) → m.store.slots i = some e)
    (h : stepPush m event context flag waiter phase = some (m', l')) :
    QueueMove m.store.contents (viewPush event phase) m'.store.contents (view l') := by
  have hguard : guardLoop (m.sync.gate .producer) (afterPush m event context (.returned .closed))
      (fun state => (m, .push event context (.enterGate state))) = some (m', l') →
      QueueMove m.store.contents (.push event false) m'.store.contents (view l') := by
    intro hr
    obtain ⟨_, hr⟩ | ⟨state, hr⟩ := guardLoop_eq_some hr
    · have hmove := afterPush_closed (m := m) m.store.contents event context
      have hsame := afterPush_contents (m := m) event context (.returned .closed)
      rw [← hr] at hmove hsame
      rwa [hsame]
    · cases hr
      exact .quiet _
  cases phase with
  | loadGate => exact hguard h
  | enterGate state =>
      simp only [stepPush] at h
      split at h
      · cases h
        exact .quiet _
      · exact hguard h
  | takeIndex =>
      simp only [stepPush] at h
      split at h <;> cases h <;> exact .quiet _
  | construct index =>
      simp only [stepPush] at h
      split at h
      · cases h
        exact .fail event (by simp)
      · cases h
        have hcontents := SlotInv.contents_update (hfree index rfl) (some event)
        simp only [SlotStore.contents, SlotStore.construct] at hcontents ⊢
        rw [hcontents]
        exact .build event
  | rollBack | bumpRolledBack | countOccupied | bump => cases h; exact .quiet _
  | publish index =>
      cases h
      have hslot : m.store.slots index = some event := hheld index event rfl
      simp only [SlotStore.contents, SlotStore.publish, List.filterMap_append,
        List.filterMap_cons, hslot, List.filterMap_nil]
      exact .enter event true
  | notifyRolledBack | notify =>
      obtain ⟨m₁, hm₁, hr⟩ := Option.map_eq_some_iff.mp h
      cases hr
      rw [notifyEpoch_store hm₁]
      exact .quiet _
  | leave outcome => cases h; exact .quiet _
  | notifyGate outcome =>
      have hmove := afterPush_queueMove (m := { m with sync := m.sync.notifyGate .producer })
        m.store.contents event context outcome
      have hsame := afterPush_contents (m := { m with sync := m.sync.notifyGate .producer })
        event context outcome
      rw [Option.some.inj h] at hmove hsame
      rw [hsame]
      exact hmove

/-- **Step lemma**, for a pop attempt. -/
theorem stepPop_queueMove {context : PopContext} {phase : PopPhase E}
    (hfree : ∀ i, (holdPop phase).slot.index = some i → i ∉ m.store.published)
    (hheld : ∀ i e, (holdPop phase).slot.alive = some (i, e) → m.store.slots i = some e)
    (h : stepPop m context flag waiter phase = some (m', l')) :
    QueueMove m.store.contents (viewPop phase) m'.store.contents (view l') := by
  have hguard : guardLoop (m.sync.gate .consumer) (afterPop m context .closed)
      (fun state => (m, .pop context (.enterGate state))) = some (m', l') →
      QueueMove m.store.contents (.pop none) m'.store.contents (view l') := by
    intro hr
    obtain ⟨_, hr⟩ | ⟨state, hr⟩ := guardLoop_eq_some hr
    · have hmove := afterPop_queueMove (m := m) m.store.contents context .closed
      have hsame := afterPop_contents (m := m) context .closed
      rw [← hr] at hmove hsame
      rwa [hsame]
    · cases hr
      exact .quiet _
  cases phase with
  | loadGate => exact hguard h
  | enterGate state =>
      simp only [stepPop] at h
      split at h
      · cases h
        exact .quiet _
      · exact hguard h
  | takeIndex =>
      simp only [stepPop] at h
      split at h
      · cases h
        exact .quiet _
      · next hring =>
          obtain ⟨event, hevent, hr⟩ := Option.map_eq_some_iff.mp h
          cases hr
          refine .take ?_
          simp only [SlotStore.contents, hring, List.filterMap_cons, hevent, SlotStore.claim]
  | loadQuiesced =>
      cases h
      simp only [view, viewPop]
      split <;> exact .quiet _
  | move index event =>
      obtain ⟨event', hevent, hr⟩ := Option.map_eq_some_iff.mp h
      cases hr
      rw [hheld index event rfl] at hevent
      cases hevent
      exact .quiet _
  | destroy index event =>
      cases h
      have hcontents := SlotInv.contents_update (hfree index rfl) none
      simp only [SlotStore.contents, SlotStore.destroy] at hcontents ⊢
      rw [hcontents]
      exact .quiet _
  | uncount | giveBack | bump | leave => cases h; exact .quiet _
  | notify event =>
      obtain ⟨m₁, hm₁, hr⟩ := Option.map_eq_some_iff.mp h
      cases hr
      rw [notifyEpoch_store hm₁]
      exact .quiet _
  | notifyGate result =>
      have hmove := afterPop_queueMove (m := { m with sync := m.sync.notifyGate .consumer })
        m.store.contents context result
      have hsame := afterPop_contents (m := { m with sync := m.sync.notifyGate .consumer })
        context result
      rw [Option.some.inj h] at hmove hsame
      rw [hsame]
      exact hmove

/-- What `close_gate` goes on to. -/
theorem viewClose_gate (discard : Bool) (g : Gate) (state : ℕ) : viewClose discard
    (if active state = 0 then afterGate g else .waitGate g state : ClosePhase E) =
      .close discard 0 := by
  split
  · cases g <;> rfl
  · rfl

/-- **Step lemma**, for `close` and `close_and_discard`. -/
theorem stepClose_queueMove {discard : Bool} {phase : ClosePhase E}
    (hok : closeOk discard phase)
    (hfree : ∀ i, (holdClose phase).slot.index = some i → i ∉ m.store.published)
    (h : stepClose t m discard flag waiter phase = some (m', l')) :
    QueueMove m.store.contents (viewClose discard phase) m'.store.contents (view l') := by
  cases phase with
  | lock =>
      simp only [stepClose] at h
      split at h <;> cases h
      exact .quiet _
  | shutGate g | loadGate g =>
      cases h
      simp only [view, viewClose_gate]
      exact .quiet _
  | waitGate g state =>
      simp only [stepClose] at h
      split at h <;> cases h <;> exact .quiet _
  | parkedGate g state =>
      simp only [stepClose] at h
      split at h
      · split at h <;> cases h
        exact .quiet _
      · cases h
        exact .quiet _
  | storeQuiesced => cases h; exact .quiet _
  | bump k discarded =>
      cases h
      cases discarded <;> exact .quiet _
  | notify k discarded =>
      cases k with
      | data =>
          obtain ⟨m₁, hm₁, hr⟩ := Option.map_eq_some_iff.mp h
          cases hr
          rw [notifyEpoch_store hm₁]
          cases discarded <;> exact .quiet _
      | capacity =>
          obtain ⟨m₁, hm₁, hr⟩ := Option.map_eq_some_iff.mp h
          cases hr
          rw [notifyEpoch_store hm₁]
          cases discarded with
          | none => cases discard <;> exact .quiet _
          | some n => exact .quiet _
  | takeIndex discarded =>
      simp only [stepClose] at h
      split at h
      · cases h
        exact .quiet _
      · next index rest hring =>
          obtain ⟨event, hevent, hr⟩ := Option.map_eq_some_iff.mp h
          cases hr
          have hdiscard : discard = true := hok
          subst hdiscard
          have hsplit : m.store.contents = [event] ++ (m.store.drop rest event).contents := by
            simp only [SlotStore.contents, hring, List.filterMap_cons, hevent, SlotStore.drop,
              List.singleton_append]
          exact .discard hsplit discarded
  | destroy index event discarded =>
      cases h
      have hcontents := SlotInv.contents_update (hfree index rfl) none
      simp only [SlotStore.contents, SlotStore.destroy] at hcontents ⊢
      rw [hcontents]
      exact .quiet _
  | uncount | giveBack => cases h; exact .quiet _
  | unlock discarded =>
      cases h
      cases discarded with
      | none =>
          have hdiscard : discard = false := hok
          subst hdiscard
          exact .closeReturn 0
      | some n =>
          have hdiscard : discard = true := hok
          subst hdiscard
          exact .discardReturn n

/-- A closing call stays in order. -/
theorem stepClose_locOk {discard : Bool} {phase : ClosePhase E} (hok : closeOk discard phase)
    (h : stepClose t m discard flag waiter phase = some (m', l')) : LocOk l' := by
  -- `close_gate` stays with its gate
  have hgate : ∀ (g : Gate) (state : ℕ), (g = .consumer → discard = true) → closeOk discard
      (if active state = 0 then afterGate g else .waitGate g state : ClosePhase E) := by
    intro g state hg
    split
    · cases g with
      | producer => trivial
      | consumer => exact hg rfl
    · cases g with
      | producer => trivial
      | consumer => exact hg rfl
  cases phase with
  | lock =>
      simp only [stepClose] at h
      split at h <;> cases h
      trivial
  | shutGate g | loadGate g =>
      cases h
      refine hgate g _ ?_
      intro hg
      subst hg
      exact hok
  | waitGate g state =>
      simp only [stepClose] at h
      split at h <;> cases h <;> cases g <;> exact hok
  | parkedGate g state =>
      simp only [stepClose] at h
      split at h
      · split at h <;> cases h
        cases g <;> exact hok
      · cases h
        cases g <;> exact hok
  | storeQuiesced => cases h; trivial
  | bump k discarded =>
      cases h
      cases discarded <;> exact hok
  | notify k discarded =>
      cases k with
      | data =>
          obtain ⟨m₁, _, hr⟩ := Option.map_eq_some_iff.mp h
          cases hr
          cases discarded <;> exact hok
      | capacity =>
          obtain ⟨m₁, _, hr⟩ := Option.map_eq_some_iff.mp h
          cases hr
          cases discarded with
          | none => cases discard <;> exact rfl
          | some n => exact hok
  | takeIndex discarded =>
      simp only [stepClose] at h
      split at h
      · cases h
        exact hok
      · obtain ⟨event, _, hr⟩ := Option.map_eq_some_iff.mp h
        cases hr
        exact hok
  | destroy | uncount | giveBack => cases h; exact hok
  | unlock discarded => cases h; trivial

/-- **Every step inside an operation is a move of the queue.** -/
theorem step_queueMove {c : LockFreeChoice T E} (hok : LocOk l)
    (hfree : ∀ i, (hold l).slot.index = some i → i ∉ m.store.published)
    (hheld : ∀ i e, (hold l).slot.alive = some (i, e) → m.store.slots i = some e)
    (hbusy : ∀ last, l ≠ .outside last) (h : step t c m l = some (m', l')) :
    QueueMove m.store.contents (view l) m'.store.contents (view l') := by
  cases l with
  | outside last => exact absurd rfl (hbusy last)
  | push event context phase =>
      cases c <;> first | exact stepPush_queueMove hfree hheld h | cases h
  | pop context phase => cases c <;> first | exact stepPop_queueMove hfree hheld h | cases h
  | close discard phase => cases c <;> first | exact stepClose_queueMove hok hfree h | cases h
  | waitPush event phase =>
      cases c <;> simp only [step, reduceCtorEq] at h
      obtain ⟨⟨hstore, _⟩, hl⟩ := stepWait_frame h
      rw [hstore]
      rcases hl with rfl | ⟨epoch, rfl⟩ | ⟨p, rfl⟩ | rfl
      · exact .quiet _
      · exact .quiet _
      · exact .quiet _
      · exact .fail event (by simp)
  | waitPop phase =>
      cases c <;> simp only [step, reduceCtorEq] at h
      obtain ⟨⟨hstore, _⟩, hl⟩ := stepWait_frame h
      rw [hstore]
      rcases hl with rfl | ⟨epoch, rfl⟩ | ⟨p, rfl⟩ | rfl <;> exact .quiet _
  | timedPush event phase =>
      cases c with
      | go flag waiter =>
          cases phase with
          | stopCheck =>
              cases h
              split
              · exact .fail event (by simp)
              · exact .quiet _
          | readClock => cases h; cases flag <;> exact .quiet _
          | sleep => cases h; exact .quiet _
      | _ => cases h
  | unregisterPush outcome =>
      cases c <;> simp only [step, stepUnregister, reduceCtorEq] at h
      split at h <;> cases h
      exact .pushReturn outcome
  | unregisterPop result =>
      cases c <;> simp only [step, stepUnregister, reduceCtorEq] at h
      split at h <;> cases h
      exact return_queueMove _ result
  | stopCallback target k bumped =>
      cases c with
      | go flag waiter =>
          cases bumped <;> cases h
          · exact .quiet _
          · exact .stopReturn none
      | _ => cases bumped <;> cases h

/-- Every thread stays in order. -/
theorem step_locOk {c : LockFreeChoice T E} (hok : LocOk l) (h : step t c m l = some (m', l')) :
    LocOk l' := by
  have hkind := step_callKind h
  cases l with
  | outside last =>
      cases c with
      | call op => cases h; exact locOk_start op
      | requestStop target =>
          simp only [step, Option.some.injEq] at h
          unfold stepRequestStop at h
          repeat' split at h
          all_goals
            cases h
            trivial
      | go => cases h
  | close discard phase => cases c <;> first | exact stepClose_locOk hok h | cases h
  | _ =>
      -- a call keeps to itself
      cases l' with
      | close discard phase => simp [callKind] at hkind
      | _ => trivial

end Moves

section Runs

variable [DecidableEq T] {capacity : ℕ} {t : T} {m' : LockFreeMem T E} {l' : LockFreeLoc T E}
  {c : LockFreeChoice T E}

/-- **Run lemma.** -/
theorem locOk_reach
    {ok : Config T (LockFreeMem T E) (LockFreeLoc T E) → T × LockFreeChoice T E → Prop} :
    ∀ s, (system T E capacity).Reach ok s → ∀ u, LocOk (s.loc u) := by
  refine interleave_invariant ?_ ?_
  · intro s hs u
    rw [hs]
    trivial
  · intro s t c m l _ hinv _ hstep
    exact (Function.forall_update_iff s.loc fun _ l => LocOk l).mpr
      ⟨step_locOk (hinv t) hstep, fun u _ => hinv u⟩

/-- What leaves the free slots is held or enters the contents. -/
theorem step_freeSlots [Fintype T] (hcap : Admitted capacity)
    {s : Config T (LockFreeMem T E) (LockFreeLoc T E)}
    (hinv : SlotInv capacity s.mem.store (hold ∘ s.loc))
    (h : step t c s.mem (s.loc t) = some (m', l')) :
    freeSlots m' + (hold l').slotCount + m'.store.contents.length =
      freeSlots s.mem + (hold (s.loc t)).slotCount + s.mem.store.contents.length := by
  have hmove := step_slotMove (hinv.held t) h
  have hslots := hmove.slots
  have hinv' := hinv.step hcap.lt_wordSize hmove
  rw [hinv.length_contents, hinv'.length_contents]
  unfold freeSlots
  omega

end Runs

end LockFreeQueue

end EventDispatcher
