import EventDispatcher.Dispatcher.Invocations

/-!
# The snapshot registry

Snapshots are made under the writer mutex, from the current one: `subscribe` drops the
inactive subscribers and appends the new one, `retire` drops the inactive ones and its own.
What is active is decided under another mutex, subscriber by subscriber, while the list is
copied.  Since an inactive subscriber never becomes active again, the copy may keep a
subscriber that is inactive by now, but it loses no active one (`Keeps`).
-/

namespace EventDispatcher

open Transition SubscriberState

variable {T E : Type} {Q : QueuePolicy T (Publication E)}

/-- `active_count`. -/
def DispatcherMem.activeCount (m : DispatcherMem Q) : ℕ :=
  m.registry.current.countP fun i => (m.subs i).active

/-- The frame holds the writer mutex. -/
def Frame.writes : Frame T E → Bool
  | .subscribe _ _ .construct => true
  | .subscribe _ _ (.filter _ _ _) => true
  | .subscribe _ _ (.startExecutor _ _) => true
  | .subscribe _ _ (.store _ _) => true
  | .subscribe _ _ (.unlockWriter _) => true
  | .unsubscribe _ (.retire _ .find) => true
  | .unsubscribe _ (.retire _ (.filter _ _)) => true
  | .unsubscribe _ (.retire _ .unlock) => true
  | _ => false

/-- A list made from the current snapshot that has lost no active subscriber. -/
structure Keeps (m : DispatcherMem Q) (kept : List ℕ) : Prop where
  sublist : kept.Sublist m.registry.current
  complete : ∀ j ∈ m.registry.current, (m.subs j).active = true → j ∈ kept

/-- An identifier that has been handed out and not been used in a snapshot. -/
structure New (m : DispatcherMem Q) (id : ℕ) : Prop where
  above : ∀ j ∈ m.history.published, j < id
  allocated : id < m.registry.nextId
  positive : 0 < id

/-- What the frame has in its hands is in order. -/
def Writes (m : DispatcherMem Q) : Frame T E → Prop
  | .subscribe _ _ (.filter id todo kept) => New m id ∧ Keeps m (kept ++ todo)
  | .subscribe _ _ (.startExecutor id next) =>
      New m id ∧ ∃ kept, next = kept ++ [id] ∧ Keeps m kept
  | .subscribe _ _ (.store id next) => New m id ∧ ∃ kept, next = kept ++ [id] ∧ Keeps m kept
  | .subscribe _ _ (.unlockWriter (.ok id)) => id ∈ m.history.published
  | .subscribe _ _ (.unlockLifecycle (.ok id)) => id ∈ m.history.published
  | .unsubscribe i (.retire _ (.filter todo kept)) =>
      i ∈ m.history.published ∧ i ∉ kept ∧ Keeps m (kept ++ todo)
  | .unsubscribe i _ => i ∈ m.history.published
  | _ => True

/-- The subscribers that the frame has collected for the next snapshot. -/
def Frame.collected : Frame T E → List ℕ
  | .subscribe _ _ (.filter id _ kept) => kept ++ [id]
  | .subscribe _ _ (.startExecutor _ next) => next
  | .subscribe _ _ (.store _ next) => next
  | .unsubscribe _ (.retire _ (.filter _ kept)) => kept
  | _ => []

/-- The frame is about to store a snapshot. -/
def Frame.stores : Frame T E → Bool
  | .subscribe _ _ (.store _ _) => true
  | .unsubscribe _ (.retire _ (.filter [] _)) => true
  | _ => false

/-- `registry_core::subscribe` has not stored its snapshot, and may have failed. -/
def SubscribePhase.unpublished : SubscribePhase → Bool
  | .construct => true
  | .filter _ _ _ => true
  | .startExecutor _ _ => true
  | .unlockWriter (.error _) => true
  | _ => false

/-- The registry itself. -/
structure RegistryOk (m : DispatcherMem Q) : Prop where
  sorted : m.registry.current.Pairwise (· < ·)
  subset : ∀ j ∈ m.registry.current, j ∈ m.history.published
  complete : ∀ j ∈ m.history.published, (m.subs j).active = true → j ∈ m.registry.current
  fresh : m.history.published.Pairwise (· < ·)
  allocated : ∀ j ∈ m.history.published, j < m.registry.nextId
  positive : ∀ j ∈ m.history.published, 0 < j
  next : 0 < m.registry.nextId
  handles : ∀ j ∈ m.subscribed, j ∈ m.history.published

section Mono

variable {m m' : DispatcherMem Q} {f : Frame T E}

/-- A step of another writer's frame, or of none, keeps what a list has kept. -/
theorem Keeps.mono {kept : List ℕ} (h : Keeps m kept)
    (hcurrent : m'.registry.current = m.registry.current)
    (hactive : ∀ j, (m.subs j).active = false → (m'.subs j).active = false) :
    Keeps m' kept := by
  refine ⟨by rw [hcurrent]; exact h.sublist, ?_⟩
  rw [hcurrent]
  intro j hj hj'
  refine h.complete j hj ?_
  by_contra hnot
  rw [hactive j (by simpa using hnot)] at hj'
  cases hj'

/-- A new identifier stays new while nothing is published. -/
theorem New.mono {id : ℕ} (h : New m id) (hpublished : m'.history.published = m.history.published)
    (hnext : m.registry.nextId ≤ m'.registry.nextId) : New m' id :=
  ⟨by rw [hpublished]; exact h.above, h.allocated.trans_le hnext, h.positive⟩

/-- The part of `Writes` that does not depend on who moves. -/
theorem Writes.mono (h : Writes m f)
    (hsame : f.writes = true → m'.registry.current = m.registry.current ∧
      m'.history.published = m.history.published)
    (hpublished : ∀ j ∈ m.history.published, j ∈ m'.history.published)
    (hactive : ∀ j, (m.subs j).active = false → (m'.subs j).active = false)
    (hnext : m.registry.nextId ≤ m'.registry.nextId) : Writes m' f := by
  cases f with
  | subscribe callback options phase =>
      cases phase with
      | filter id todo kept =>
          obtain ⟨hcurrent, hpublished'⟩ := hsame rfl
          exact ⟨h.1.mono hpublished' hnext, h.2.mono hcurrent hactive⟩
      | startExecutor id next | store id next =>
          obtain ⟨hcurrent, hpublished'⟩ := hsame rfl
          obtain ⟨hnew, kept, hkept, hkeeps⟩ := h
          exact ⟨hnew.mono hpublished' hnext, kept, hkept, hkeeps.mono hcurrent hactive⟩
      | unlockWriter result | unlockLifecycle result =>
          cases result with
          | ok id => exact hpublished id h
          | error message => trivial
      | _ => trivial
  | unsubscribe i phase =>
      cases phase with
      | retire self phase =>
          cases phase with
          | filter todo kept =>
              obtain ⟨hcurrent, _⟩ := hsame rfl
              exact ⟨hpublished i h.1, h.2.1, h.2.2.mono hcurrent hactive⟩
          | _ => exact hpublished i h
      | _ => exact hpublished i h
  | _ => trivial

/-- The registry stays in order while its snapshot stays the same. -/
theorem RegistryOk.mono (h : RegistryOk m) (hcurrent : m'.registry.current = m.registry.current)
    (hpublished : m'.history.published = m.history.published)
    (hsubscribed : m'.subscribed = m.subscribed)
    (hactive : ∀ j, (m.subs j).active = false → (m'.subs j).active = false)
    (hnext : m.registry.nextId ≤ m'.registry.nextId) : RegistryOk m' where
  sorted := by rw [hcurrent]; exact h.sorted
  subset := by rw [hcurrent, hpublished]; exact h.subset
  complete := by
    rw [hcurrent, hpublished]
    intro j hj hj'
    refine h.complete j hj ?_
    by_contra hnot
    rw [hactive j (by simpa using hnot)] at hj'
    cases hj'
  fresh := by rw [hpublished]; exact h.fresh
  allocated := by
    rw [hpublished]
    exact fun j hj => (h.allocated j hj).trans_le hnext
  positive := by rw [hpublished]; exact h.positive
  next := h.next.trans_le hnext
  handles := by rw [hsubscribed, hpublished]; exact h.handles

/-- `subscribe` stores its snapshot. -/
theorem RegistryOk.publishSub (h : RegistryOk m) {id : ℕ} {kept : List ℕ} (hnew : New m id)
    (hkept : Keeps m kept) : RegistryOk (m.publishSub id (kept ++ [id])) where
  sorted := by
    refine List.pairwise_append.mpr ⟨h.sorted.sublist hkept.sublist, List.pairwise_singleton _ _, ?_⟩
    intro j hj k hk
    rw [List.mem_singleton.mp hk]
    exact hnew.above j (h.subset j (hkept.sublist.subset hj))
  subset := by
    intro j hj
    rcases List.mem_append.mp hj with hj | hj
    · exact List.mem_append_left _ (h.subset j (hkept.sublist.subset hj))
    · exact List.mem_append_right _ hj
  complete := by
    intro j hj hactive
    rcases List.mem_append.mp hj with hj | hj
    · exact List.mem_append_left _ (hkept.complete j (h.complete j hj hactive) hactive)
    · exact List.mem_append_right _ hj
  fresh := by
    refine List.pairwise_append.mpr ⟨h.fresh, List.pairwise_singleton _ _, ?_⟩
    intro j hj k hk
    rw [List.mem_singleton.mp hk]
    exact hnew.above j hj
  allocated := by
    intro j hj
    rcases List.mem_append.mp hj with hj | hj
    · exact h.allocated j hj
    · rw [List.mem_singleton.mp hj]
      exact hnew.allocated
  positive := by
    intro j hj
    rcases List.mem_append.mp hj with hj | hj
    · exact h.positive j hj
    · rw [List.mem_singleton.mp hj]
      exact hnew.positive
  next := h.next
  handles := fun j hj => List.mem_append_left _ (h.handles j hj)

/-- `retire` stores its snapshot. -/
theorem RegistryOk.setCurrent (h : RegistryOk m) {kept : List ℕ} (hkept : Keeps m kept) :
    RegistryOk (m.setCurrent kept) where
  sorted := h.sorted.sublist hkept.sublist
  subset := fun j hj => h.subset j (hkept.sublist.subset hj)
  complete := fun j hj hactive => hkept.complete j (h.complete j hj hactive) hactive
  fresh := h.fresh
  allocated := h.allocated
  positive := h.positive
  next := h.next
  handles := h.handles

/-- The copy skips an inactive subscriber. -/
theorem Keeps.skip {j : ℕ} {todo kept : List ℕ} (h : Keeps m (kept ++ j :: todo))
    (hinactive : (m.subs j).active = false) : Keeps m (kept ++ todo) where
  sublist := (List.Sublist.append_left (List.sublist_cons_self j todo) kept).trans h.sublist
  complete := by
    intro k hk hactive
    have hmem := h.complete k hk hactive
    have hne : k ≠ j := by
      rintro rfl
      cases hinactive.symm.trans hactive
    simpa [hne] using hmem

/-- A filter that keeps the next subscriber. -/
theorem Keeps.keep {j : ℕ} {todo kept : List ℕ} (h : Keeps m (kept ++ j :: todo)) :
    Keeps m (kept ++ [j] ++ todo) := by
  simpa using h

/-- The snapshot keeps all that is published and active. -/
theorem Keeps.refl (m : DispatcherMem Q) : Keeps m m.registry.current :=
  ⟨List.Sublist.refl _, fun _ hj _ => hj⟩

end Mono

section Frames

variable [DecidableEq T] {setup : Setup T} {flag : Bool} {t : T} {m m' : DispatcherMem Q}
  {q q' : Q.Loc} {contexts contexts' : Contexts} {f : Frame T E} {f' : Option (Frame T E)}

/-- Who locks the writer mutex, and who unlocks it. -/
theorem FrameStep.writer_cases (h : FrameStep setup flag t m q contexts f m' q' contexts' f') :
    (m'.registry.writer = m.registry.writer ∧ ∀ g ∈ f', g.writes = f.writes) ∨
      (m.registry.writer = none ∧ m'.registry.writer = some t) ∨
      (f.writes = true ∧ ∀ g ∈ f', g.writes = false) := by
  cases h with
  | invoke hframe hstep => cases hframe <;> exact .inl ⟨rfl, by rintro g ⟨⟩; rfl⟩
  | stop hframe hstep => cases hframe <;> exact .inl ⟨rfl, by rintro g ⟨⟩; rfl⟩
  | subscribeLockWriter callback options hwriter => exact .inr (.inl ⟨hwriter, rfl⟩)
  | retireLock i self hwriter => exact .inr (.inl ⟨hwriter, rfl⟩)
  | subscribeUnlockWriter | retireUnlock => exact .inr (.inr ⟨rfl, by rintro g ⟨⟩; rfl⟩)
  | publishCounted | publishNext | deactivate | deactivateAgain =>
      refine .inl ⟨by simp, ?_⟩
      intro g hg
      cases hg <;> rfl
  | _ =>
      refine .inl ⟨rfl, ?_⟩
      intro g hg
      cases hg <;> rfl

/-- Snapshots are stored in two places. -/
theorem FrameStep.current_cases (h : FrameStep setup flag t m q contexts f m' q' contexts' f') :
    (m'.registry.current = m.registry.current ∧ m'.history.published = m.history.published) ∨
      (∃ callback options id next, f = .subscribe callback options (.store id next) ∧
        m' = m.publishSub id next ∧
        f' = some (.subscribe callback options (.unlockWriter (.ok id)))) ∨
      ∃ i self kept, f = .unsubscribe i (.retire self (.filter [] kept)) ∧
        m' = m.setCurrent kept ∧ f' = some (.unsubscribe i (.retire self .unlock)) := by
  cases h with
  | subscribeStore callback options id next =>
      exact .inr (.inl ⟨callback, options, id, next, rfl, rfl, rfl⟩)
  | retireStore i self kept => exact .inr (.inr ⟨i, self, kept, rfl, rfl, rfl⟩)
  | publishCounted | publishNext | deactivate | deactivateAgain => exact .inl (by simp)
  | _ => exact .inl ⟨rfl, rfl⟩

/-- What the moving frame has in its hands stays in order. -/
theorem FrameStep.writes_step (h : FrameStep setup flag t m q contexts f m' q' contexts' f')
    (hok : RegistryOk m) (hf : Writes m f)
    (hself : ∀ i self, f.self = some (i, self) → (m.subs i).active = false)
    (hactive : ∀ j, (m.subs j).active = false → (m'.subs j).active = false) :
    ∀ g ∈ f', Writes m' g := by
  cases h with
  | invoke hframe hstep =>
      rintro g ⟨⟩
      cases hframe <;> trivial
  | stop hframe hstep =>
      rintro g ⟨⟩
      cases hframe with
      | unsubscribe self => exact hf
      | shutdown policy todo => trivial
  | subscribeConstruct callback options hvalid =>
      rintro g ⟨⟩
      refine ⟨⟨hok.allocated, Nat.lt_succ_self _, hok.next⟩, ?_⟩
      exact (Keeps.refl m).mono rfl hactive
  | subscribeKeep callback options id j todo kept =>
      rintro g ⟨⟩
      exact ⟨hf.1, hf.2.keep⟩
  | subscribeSkip callback options id j todo kept hinactive =>
      rintro g ⟨⟩
      exact ⟨hf.1, hf.2.skip hinactive⟩
  | subscribeFiltered callback options id kept =>
      rintro g ⟨⟩
      exact ⟨hf.1, kept, rfl, by simpa using hf.2⟩
  | subscribeSpawn callback options id next hisolated u hu =>
      rintro g ⟨⟩
      obtain ⟨hnew, kept, hkept, hkeeps⟩ := hf
      exact ⟨hnew.mono rfl le_rfl, kept, hkept, hkeeps.mono rfl hactive⟩
  | subscribeStore callback options id next =>
      rintro g ⟨⟩
      exact List.mem_append_right _ (List.mem_singleton.mpr rfl)
  | subscribeUnlockWriter callback options result =>
      rintro g ⟨⟩
      cases result with
      | ok id => exact hf
      | error message => trivial
  | subscribeNoExecutor | retireLock | retireUnlock | stopDone | idlePark | idleWake =>
      rintro g ⟨⟩
      exact hf
  | deactivate i | deactivateAgain i =>
      rintro g ⟨⟩
      simpa [Writes] using hf
  | retireFound i self =>
      rintro g ⟨⟩
      exact ⟨hf, by simp, Keeps.refl m⟩
  | retireAbsent | retireFailed =>
      rintro g ⟨⟩
      exact hf
  | retireKeep i self j todo kept hne =>
      rintro g ⟨⟩
      exact ⟨hf.1, by simp [hf.2.1, Ne.symm hne], hf.2.2.keep⟩
  | retireSkip i self j todo kept hskip =>
      rintro g ⟨⟩
      refine ⟨hf.1, hf.2.1, hf.2.2.skip ?_⟩
      rcases hskip with rfl | hinactive
      · exact hself j self rfl
      · exact hinactive
  | retireStore i self kept =>
      rintro g ⟨⟩
      exact hf.1
  | _ =>
      intro g hg
      cases hg <;> trivial

/-- **Step lemma**, for the top frame. -/
theorem FrameStep.registryOk (h : FrameStep setup flag t m q contexts f m' q' contexts' f')
    (hok : RegistryOk m) (hf : Writes m f)
    (hactive : ∀ j, (m.subs j).active = false → (m'.subs j).active = false) : RegistryOk m' := by
  have hnext := h.nextId_le
  cases h with
  | subscribeStore callback options id next =>
      obtain ⟨hnew, kept, rfl, hkept⟩ := hf
      exact hok.publishSub hnew hkept
  | retireStore i self kept => exact hok.setCurrent (by simpa using hf.2.2)
  | subscribeReturned callback options result =>
      refine ⟨hok.sorted, hok.subset, hok.complete, hok.fresh, hok.allocated, hok.positive,
        hok.next, ?_⟩
      intro j hj
      simp only [DispatcherMem.subscribed, DispatcherMem.recordSubscription_history_subscriptions,
        List.filterMap_append, List.mem_append] at hj
      rcases hj with hj | hj
      · exact hok.handles j hj
      · cases result with
        | ok id =>
            obtain rfl : j = id := by simpa [Except.toOption] using hj
            exact hf
        | error message => cases hj
  | publishCounted | publishNext | deactivate | deactivateAgain =>
      exact hok.mono (by simp) (by simp) (by simp [DispatcherMem.subscribed]) hactive hnext
  | _ => exact hok.mono rfl rfl rfl hactive hnext

/-- What is stored is what has been collected. -/
theorem FrameStep.current_of_stores (h : FrameStep setup flag t m q contexts f m' q' contexts' f')
    (hf : f.stores = true) : m'.registry.current = f.collected := by
  cases h with
  | subscribeStore | retireStore => rfl
  | invoke hframe => cases hframe <;> cases hf
  | stop hframe => cases hframe <;> cases hf
  | _ => cases hf

/-- An inactive subscriber is not collected. -/
theorem FrameStep.collected_step (h : FrameStep setup flag t m q contexts f m' q' contexts' f')
    {j : ℕ} (hinactive : (m.subs j).active = false) (hj : j < m.registry.nextId)
    (hf : j ∉ f.collected) : ∀ g ∈ f', j ∉ g.collected := by
  cases h with
  | invoke hframe hstep =>
      rintro g ⟨⟩
      cases hframe <;> simp [Frame.collected]
  | stop hframe hstep =>
      rintro g ⟨⟩
      cases hframe <;> simp [Frame.collected]
  | subscribeConstruct callback options hvalid =>
      rintro g ⟨⟩
      simpa [Frame.collected] using hj.ne
  | subscribeKeep callback options id k todo kept hactive =>
      rintro g ⟨⟩
      have hne : j ≠ k := by
        rintro rfl
        cases hinactive.symm.trans hactive
      simpa [Frame.collected, hne] using hf
  | subscribeSkip | subscribeFiltered | subscribeSpawn | subscribeNoExecutor =>
      rintro g ⟨⟩
      exact hf
  | retireKeep i self k todo kept hne hactive =>
      rintro g ⟨⟩
      have hne : j ≠ k := by
        rintro rfl
        cases hinactive.symm.trans hactive
      simpa [Frame.collected, hne] using hf
  | retireSkip =>
      rintro g ⟨⟩
      exact hf
  | _ =>
      intro g hg
      cases hg <;> exact List.not_mem_nil

end Frames

/-- Only a writer has collected subscribers. -/
theorem writes_of_collected {f : Frame T E} {j : ℕ} (h : j ∈ f.collected) : f.writes = true := by
  unfold Frame.collected at h
  split at h <;> first | rfl | cases h

namespace Dispatcher

/-- User code is no writer. -/
theorem user_writes {f : Frame T E} (h : f.user = true) (m : DispatcherMem Q) :
    f.writes = false ∧ Writes m f := by
  unfold Frame.user at h
  split at h <;> first | exact ⟨rfl, trivial⟩ | cases h

/-- Nor is a frame to which user code returns. -/
theorem finishUser_writes {f f' : Frame T E} {threw : Bool} (h : f.finishUser threw = some f')
    (m : DispatcherMem Q) : f'.writes = false ∧ Writes m f' := by
  unfold Frame.finishUser at h
  split at h <;> cases h <;> exact ⟨rfl, trivial⟩

/-- Nor is a frame inside the queue. -/
theorem inQueue_writes {f : Frame T E} (h : f.inQueue = true) (m : DispatcherMem Q) :
    f.writes = false ∧ Writes m f := by
  unfold Frame.inQueue at h
  split at h <;> first | exact ⟨rfl, trivial⟩ | cases h

/-- A call changes nothing in the registry. -/
theorem enter_registry {m m' : DispatcherMem Q} {call : Call T E} {f : Frame T E}
    (h : enter m call = some (m', f)) :
    m'.registry = m.registry ∧ m'.history.published = m.history.published ∧
      m'.subscribed = m.subscribed := by
  cases call with
  | unsubscribe i | invoke i event =>
      simp only [enter] at h
      split at h <;> cases h
      exact ⟨rfl, rfl, rfl⟩
  | _ =>
      cases h
      exact ⟨rfl, rfl, rfl⟩

/-- An `unsubscribe` has been handed its subscriber. -/
theorem enter_writes {m m' : DispatcherMem Q} {call : Call T E} {f : Frame T E}
    (h : enter m call = some (m', f)) (hok : RegistryOk m) : f.writes = false ∧ Writes m' f := by
  cases call with
  | unsubscribe i =>
      simp only [enter] at h
      split at h <;> cases h
      next hi => exact ⟨rfl, hok.handles i hi⟩
  | invoke i event =>
      simp only [enter] at h
      split at h <;> cases h
      exact ⟨rfl, trivial⟩
  | _ =>
      cases h
      exact ⟨rfl, trivial⟩

/-- The invariant of the registry. -/
structure RegistryInv (s : Config T (DispatcherMem Q) (ThreadLoc Q)) : Prop where
  ok : RegistryOk s.mem
  writes : ∀ t, ∀ f ∈ (s.loc t).stack, Writes s.mem f
  locked : ∀ t, ∀ f ∈ (s.loc t).stack, f.writes = true → s.mem.registry.writer = some t

variable [DecidableEq T] {setup : Setup T} {t : T} {m m' : DispatcherMem Q} {l l' : ThreadLoc Q}
  {c : DispatcherChoice Q}

/-- What a step of a thread does to the snapshot. -/
theorem StepShape.current_cases (h : StepShape setup t m l c m' l') :
    (m'.registry.current = m.registry.current ∧ m'.history.published = m.history.published) ∨
      (∃ callback options id next rest,
        l.stack = .subscribe callback options (.store id next) :: rest ∧
        m' = m.publishSub id next ∧
        l'.stack = .subscribe callback options (.unlockWriter (.ok id)) :: rest) ∨
      ∃ i self kept rest, l.stack = .unsubscribe i (.retire self (.filter [] kept)) :: rest ∧
        m' = m.setCurrent kept ∧ l'.stack = .unsubscribe i (.retire self .unlock) :: rest := by
  cases h with
  | call huser henter =>
      obtain ⟨hregistry, hpublished, _⟩ := enter_registry henter
      exact .inl ⟨by rw [hregistry], hpublished⟩
  | frame hstack hstep =>
      rcases hstep.current_cases with hsame | ⟨callback, options, id, next, rfl, rfl, rfl⟩ |
        ⟨i, self, kept, rfl, rfl, rfl⟩
      · exact .inl hsame
      · exact .inr (.inl ⟨callback, options, id, next, _, hstack, rfl, rfl⟩)
      · exact .inr (.inr ⟨i, self, kept, _, hstack, rfl, rfl⟩)
  | _ => exact .inl ⟨rfl, rfl⟩

/-- Nobody but the owner of the writer mutex changes the snapshot. -/
theorem StepShape.current_of_ne {u : T} (h : StepShape setup t m l c m' l') (hut : u ≠ t)
    (hlocked : ∀ f ∈ l.stack, f.writes = true → m.registry.writer = some t)
    (hwriter : m.registry.writer = some u) :
    m'.registry.current = m.registry.current ∧ m'.history.published = m.history.published := by
  have hmine : ∀ {f : Frame T E} {rest : List (Frame T E)}, l.stack = f :: rest →
      f.writes = true → False := by
    intro f rest hstack hwrites
    have hmine := hlocked f (by rw [hstack]; exact List.mem_cons_self) hwrites
    rw [hwriter] at hmine
    exact hut (Option.some.inj hmine)
  rcases h.current_cases with hsame | ⟨callback, options, id, next, rest, hstack, _⟩ |
    ⟨i, self, kept, rest, hstack, _⟩
  · exact hsame
  · exact (hmine hstack rfl).elim
  · exact (hmine hstack rfl).elim

/-- Nobody else takes `writer_mutex_` away. -/
theorem StepShape.writer_of_ne {u : T} (h : StepShape setup t m l c m' l') (hut : u ≠ t)
    (hlocked : ∀ f ∈ l.stack, f.writes = true → m.registry.writer = some t)
    (hwriter : m.registry.writer = some u) : m'.registry.writer = some u := by
  cases h with
  | call huser henter => rw [(enter_registry henter).1, hwriter]
  | frame hstack hstep =>
      rcases hstep.writer_cases with ⟨hsame, _⟩ | ⟨hnone, _⟩ | ⟨hwrites, _⟩
      · rw [hsame, hwriter]
      · rw [hwriter] at hnone
        cases hnone
      · have hmine := hlocked _ (by rw [hstack]; exact List.mem_cons_self) hwrites
        rw [hwriter] at hmine
        exact absurd (Option.some.inj hmine) hut
  | _ => exact hwriter

/-- Identifiers are not given back. -/
theorem StepShape.nextId_le (h : StepShape setup t m l c m' l') :
    m.registry.nextId ≤ m'.registry.nextId := by
  cases h with
  | call huser henter => rw [(enter_registry henter).1]
  | frame hstack hstep => exact hstep.nextId_le
  | _ => exact le_rfl

/-- What has been published stays in the books. -/
theorem StepShape.published_subset (h : StepShape setup t m l c m' l') {j : ℕ}
    (hj : j ∈ m.history.published) : j ∈ m'.history.published := by
  rcases h.current_cases with ⟨_, hsame⟩ | ⟨_, _, id, next, _, _, rfl, _⟩ | ⟨_, _, kept, _, _, rfl, _⟩
  · rwa [hsame]
  · exact List.mem_append_left _ hj
  · exact hj

section Run

variable [Fintype T]
  {ok : Config T (DispatcherMem Q) (ThreadLoc Q) → T × DispatcherChoice Q → Prop}

/-- **Run lemma.** -/
theorem registryInv_reach : ∀ s, (system setup Q).Reach ok s → RegistryInv s := by
  refine interleave_invariant ?_ ?_
  · rintro s rfl
    refine ⟨⟨List.Pairwise.nil, by simp [started], by simp [started], List.Pairwise.nil,
      by simp [started], by simp [started], Nat.one_pos, by simp [started, DispatcherMem.subscribed]⟩,
      ?_, ?_⟩
    · intro t f hf
      simp only [started] at hf
      split at hf
      · obtain rfl := List.mem_singleton.mp hf
        trivial
      · cases hf
    · intro t f hf hwrites
      simp only [started] at hf
      split at hf
      · obtain rfl := List.mem_singleton.mp hf
        cases hwrites
      · cases hf
  · intro s t c m l hreach hinv _ hstep
    have hshape := step_shape hstep
    have horder := inOrder_reach s hreach t
    have hknown := (allotted_reach s hreach).mem
    have hactive : ∀ j, (s.mem.subs j).active = false → (m.subs j).active = false :=
      fun j hj => ((hshape.accounted hknown j).inactive hj).1
    have hnext := hshape.nextId_le
    have hpublished : ∀ j ∈ s.mem.history.published, j ∈ m.history.published :=
      fun j hj => hshape.published_subset hj
    have hdeactivated := (invocationInv_reach s hreach).deactivated
    refine ⟨?_, ?_, ?_⟩
    · cases hshape with
      | call huser henter =>
          obtain ⟨hregistry, hpub, hsub⟩ := enter_registry henter
          exact hinv.ok.mono (by rw [hregistry]) hpub hsub hactive hnext
      | frame hstack hframe =>
          exact hframe.registryOk hinv.ok
            (hinv.writes t _ (by rw [hstack]; exact List.mem_cons_self)) hactive
      | _ => exact hinv.ok.mono rfl rfl rfl hactive hnext
    · refine (Function.forall_update_iff s.loc fun _ l => ∀ f ∈ l.stack, Writes m f).mpr ⟨?_, ?_⟩
      · have hboth : ∀ f ∈ (s.loc t).stack, Writes s.mem f ∧
            ∀ i self, f.self = some (i, self) → (s.mem.subs i).active = false :=
          fun f hf => ⟨hinv.writes t f hf, hdeactivated t f hf⟩
        refine hshape.forall_frames horder hboth ?_ ?_ ?_ ?_ ?_ ?_
        · exact fun f huser _ => (user_writes huser m).2
        · exact fun i _ => trivial
        · exact fun call f henter => (enter_writes henter hinv.ok).2
        · exact fun f f' threw hfinish _ => (finishUser_writes hfinish m).2
        · exact fun f hin _ => (inQueue_writes hin m).2
        · exact fun hframe hf => hframe.writes_step hinv.ok hf.1 hf.2 hactive
      · intro u hut f hf
        refine (hinv.writes u f hf).mono ?_ hpublished hactive hnext
        intro hwrites
        exact hshape.current_of_ne hut (hinv.locked t) (hinv.locked u f hf hwrites)
    · refine (Function.forall_update_iff s.loc fun u l => ∀ f ∈ l.stack, f.writes = true →
        m.registry.writer = some u).mpr ⟨?_, ?_⟩
      · refine hshape.forall_frames horder (hinv.locked t) ?_ ?_ ?_ ?_ ?_ ?_
        · intro f huser _ hwrites
          rw [(user_writes huser m).1] at hwrites
          cases hwrites
        · rintro i _ ⟨⟩
        · intro call f henter hwrites
          rw [(enter_writes henter hinv.ok).1] at hwrites
          cases hwrites
        · intro f f' threw hfinish _ hwrites
          rw [(finishUser_writes hfinish m).1] at hwrites
          cases hwrites
        · intro f hin _ hwrites
          rw [(inQueue_writes hin m).1] at hwrites
          cases hwrites
        · intro flag q q' contexts contexts' f f' hframe hf g hg hwrites
          rcases hframe.writer_cases with ⟨hsame, heq⟩ | ⟨_, hmine⟩ | ⟨_, hnone⟩
          · rw [hsame, hf (by rw [← heq g hg]; exact hwrites)]
          · exact hmine
          · rw [hnone g hg] at hwrites
            cases hwrites
      · intro u hut f hf hwrites
        exact hshape.writer_of_ne hut (hinv.locked t) (hinv.locked u f hf hwrites)

omit [DecidableEq T] [Fintype T] in
/-- `active_count` counts the published subscribers that are active. -/
theorem activeCount_eq (h : RegistryOk m) :
    m.activeCount = m.history.published.countP fun i => (m.subs i).active := by
  rw [DispatcherMem.activeCount, List.countP_eq_length_filter, List.countP_eq_length_filter]
  refine List.Perm.length_eq ((List.perm_ext_iff_of_nodup ?_ ?_).mpr ?_)
  · exact (h.sorted.imp fun hlt => hlt.ne).filter _
  · exact (h.fresh.imp fun hlt => hlt.ne).filter _
  · intro j
    simp only [List.mem_filter]
    constructor
    · exact fun hj => ⟨h.subset j hj.1, hj.2⟩
    · exact fun hj => ⟨h.complete j hj.1 hj.2, hj.2⟩

/-- A published subscriber that has left the snapshot does not come back. -/
theorem absent_steps {s s' : Config T (DispatcherMem Q) (ThreadLoc Q)} {j : ℕ}
    (hs : (system setup Q).Reach ok s) (hlater : (system setup Q).Steps ok s s')
    (hpublished : j ∈ s.mem.history.published) (habsent : j ∉ s.mem.registry.current) :
    j ∉ s'.mem.registry.current := by
  refine (System.Steps.stable (I := fun s => j ∈ s.mem.history.published ∧
    j ∉ s.mem.registry.current) ?_ hs hlater ⟨hpublished, habsent⟩).2
  rintro s ⟨t, c⟩ s' hreach ⟨hpublished, habsent⟩ _ hstep
  obtain ⟨m, l, hprog, rfl⟩ := Config.step_eq_some hstep
  have hinv := registryInv_reach s hreach
  have hshape := step_shape hprog
  refine ⟨hshape.published_subset hpublished, ?_⟩
  rcases hshape.current_cases with ⟨hsame, _⟩ |
    ⟨callback, options, id, next, rest, hstack, rfl, _⟩ | ⟨i, self, kept, rest, hstack, rfl, _⟩
  · simpa only [hsame] using habsent
  · obtain ⟨hnew, kept, rfl, hkept⟩ := hinv.writes t (.subscribe callback options (.store id next))
      (by rw [hstack]; exact List.mem_cons_self)
    intro hj
    rcases List.mem_append.mp hj with hj | hj
    · exact habsent (hkept.sublist.subset hj)
    · have hlt := hnew.above j hpublished
      rw [List.mem_singleton.mp hj] at hlt
      exact absurd hlt (Nat.lt_irrefl id)
  · obtain ⟨_, _, hkept⟩ := hinv.writes t (.unsubscribe i (.retire self (.filter [] kept)))
      (by rw [hstack]; exact List.mem_cons_self)
    exact fun hj => habsent (hkept.sublist.subset (List.mem_append_left _ hj))

/-- Once nobody has collected an inactive subscriber, nobody ever does. -/
theorem uncollected_steps {s s' : Config T (DispatcherMem Q) (ThreadLoc Q)} {j : ℕ}
    (hs : (system setup Q).Reach ok s) (hlater : (system setup Q).Steps ok s s')
    (hinactive : (s.mem.subs j).active = false)
    (hnone : ∀ t, ∀ f ∈ (s.loc t).stack, j ∉ f.collected) :
    ∀ t, ∀ f ∈ (s'.loc t).stack, j ∉ f.collected := by
  refine (System.Steps.stable (I := fun s => (s.mem.subs j).active = false ∧
    ∀ t, ∀ f ∈ (s.loc t).stack, j ∉ f.collected) ?_ hs hlater ⟨hinactive, hnone⟩).2
  rintro s ⟨t, c⟩ s' hreach ⟨hinactive, hnone⟩ _ hstep
  obtain ⟨m, l, hprog, rfl⟩ := Config.step_eq_some hstep
  have hknown := (allotted_reach s hreach).mem
  have hshape := step_shape hprog
  have hj : j < s.mem.registry.nextId := by
    by_contra hge
    rw [hknown.fresh j (Nat.le_of_not_lt hge)] at hinactive
    cases hinactive
  refine ⟨((hshape.accounted hknown j).inactive hinactive).1, ?_⟩
  refine (Function.forall_update_iff s.loc fun _ l => ∀ f ∈ l.stack, j ∉ f.collected).mpr
    ⟨?_, fun u _ => hnone u⟩
  have hidle : ∀ f : Frame T E, f.writes = false → j ∉ f.collected := by
    intro f hf hmem
    rw [writes_of_collected hmem] at hf
    cases hf
  refine hshape.forall_frames (inOrder_reach s hreach t) (hnone t) ?_ ?_ ?_ ?_ ?_ ?_
  · exact fun f _ hf => hf
  · exact fun i _ => List.not_mem_nil
  · exact fun call f henter => hidle f (enter_writes henter (registryInv_reach s hreach).ok).1
  · exact fun f f' threw hfinish _ => hidle f' (finishUser_writes hfinish m).1
  · exact fun f _ hf => hf
  · exact fun hframe hf => hframe.collected_step hinactive hj hf

/-- Inside a `subscribe` that has not stored anything, nobody changes the snapshot. -/
theorem unpublished_steps {s s' : Config T (DispatcherMem Q) (ThreadLoc Q)} {callback : Bool}
    {options : SubscriptionOptions} {rest : List (Frame T E)}
    (hs : (system setup Q).Reachable s)
    (hlater : (system setup Q).Steps (fun s _ => ∃ phase : SubscribePhase,
      phase.unpublished = true ∧ (s.loc t).stack = .subscribe callback options phase :: rest) s s') :
    s'.mem.registry.current = s.mem.registry.current := by
  induction hlater with
  | refl => rfl
  | @tail s₁ s₂ a hhead hok hstep ih =>
      obtain ⟨u, c⟩ := a
      obtain ⟨phase, hphase, hstack⟩ := hok
      obtain ⟨m, l, hprog, rfl⟩ := Config.step_eq_some hstep
      have hreach : (system setup Q).Reachable s₁ := hs.steps (hhead.mono fun _ _ _ => trivial)
      have hinv := registryInv_reach s₁ hreach
      have hshape := step_shape hprog
      have hwrites : (Frame.subscribe callback options phase : Frame T E).writes = true := by
        cases phase <;> first | rfl | cases hphase
      refine Eq.trans ?_ ih
      by_cases hut : u = t
      · subst hut
        rcases hshape.current_cases with ⟨hsame, _⟩ | ⟨_, _, id, next, _, hstore, _⟩ |
          ⟨i, self, kept, _, hretire, _⟩
        · exact hsame
        · rw [hstack] at hstore
          cases hstore
          cases hphase
        · rw [hstack] at hretire
          cases hretire
      · exact (hshape.current_of_ne (Ne.symm hut) (hinv.locked u)
          (hinv.locked t _ (by rw [hstack]; exact List.mem_cons_self) hwrites)).1

/-- The step that ends a `subscribe` that succeeds, or a `retire` that has found its own
subscriber and has not failed. -/
inductive Publishes (m : DispatcherMem Q) (flag : Bool) : Frame T E → Frame T E → Prop
  | subscribe {callback : Bool} {options : SubscriptionOptions} {phase : SubscribePhase} {id : ℕ} :
      Publishes m flag (.subscribe callback options phase)
        (.subscribe callback options (.unlockWriter (.ok id)))
  | retire {j : ℕ} {self : Bool} {phase : RetirePhase}
      (hfound : phase = .find → j ∈ m.registry.current ∧ flag = false) :
      Publishes m flag (.unsubscribe j (.retire self phase)) (.unsubscribe j (.retire self .unlock))

/-- The snapshot registry, in the state `s` and from there on. -/
structure RegistrySound (setup : Setup T) (s : Config T (DispatcherMem Q) (ThreadLoc Q)) :
    Prop where
  /-- identifiers stand in the order of registration, without repetition -/
  increasing : s.mem.registry.current.Pairwise (· < ·)
  nonzero : 0 ∉ s.mem.registry.current
  complete : ∀ i ∈ s.mem.history.published, (s.mem.subs i).active = true →
    i ∈ s.mem.registry.current
  /-- whoever has got a handle has been published -/
  handles : ∀ i ∈ s.mem.subscribed, i ∈ s.mem.history.published
  activeCount : s.mem.activeCount =
    s.mem.history.published.countP fun i => (s.mem.subs i).active
  fresh : s.mem.history.published.Pairwise (· < ·)
  /-- every `subscribe` that gets an identifier, whether it succeeds or not, gets a larger one
  than all before it -/
  allocated : ∀ t c callback options rest id todo kept s₁ s₂,
    (s.loc t).stack = .subscribe callback options .construct :: rest →
    (system setup Q).step s (t, c) = some s₁ →
    (s₁.loc t).stack = .subscribe callback options (.filter id todo kept) :: rest →
    (system setup Q).Steps (fun _ _ => True) s₁ s₂ →
    id = s.mem.registry.nextId ∧ id < s₂.mem.registry.nextId
  /-- from taking the writer mutex to its failure, a `subscribe` finds the same snapshot -/
  failed : ∀ t callback options rest s' message,
    (s.loc t).stack = .subscribe callback options .construct :: rest →
    (system setup Q).Steps (fun s _ => ∃ phase : SubscribePhase, phase.unpublished = true ∧
      (s.loc t).stack = .subscribe callback options phase :: rest) s s' →
    (s'.loc t).stack = .subscribe callback options (.unlockWriter (.error message)) :: rest →
    s'.mem.registry.current = s.mem.registry.current
  /-- a `retire` whose copy did not run out of memory is final: the flag of a step lets an
  allocation fail -/
  retired : ∀ t c i self phase rest s₁ s₂,
    (s.loc t).stack = .unsubscribe i (.retire self phase) :: rest →
    (phase = .find → c.flag = false) →
    (system setup Q).step s (t, c) = some s₁ →
    (s₁.loc t).stack = .unsubscribe i (.retire self .unlock) :: rest →
    (system setup Q).Steps (fun _ _ => True) s₁ s₂ → i ∉ s₂.mem.registry.current
  /-- what a failed `retire` has left is gone with the next `subscribe` that succeeds, and with
  the next `retire` that finds its own subscriber and does not fail -/
  tombstones : ∀ t c i self rest s₁ s₂ u c' f f' below s₃ s₄,
    (s.loc t).stack = .unsubscribe i (.retire self .find) :: rest →
    (system setup Q).step s (t, c) = some s₁ →
    (s₁.loc t).stack = .unsubscribe i (.retire self .unlock) :: rest →
    (system setup Q).Steps (fun _ _ => True) s₁ s₂ →
    (s₂.loc u).stack = f :: below →
    (system setup Q).step s₂ (u, c') = some s₃ → (s₃.loc u).stack = f' :: below →
    Publishes s₂.mem c'.flag f f' →
    (system setup Q).Steps (fun _ _ => True) s₃ s₄ → i ∉ s₄.mem.registry.current

omit [Fintype T] in
/-- The end of a `retire` without failure. -/
theorem retire_absent {s : Config T (DispatcherMem Q) (ThreadLoc Q)} {i : ℕ} {self : Bool}
    {phase : RetirePhase} {rest : List (Frame T E)} (hinv : RegistryInv s)
    (hstack : (s.loc t).stack = .unsubscribe i (.retire self phase) :: rest)
    (hflag : phase = .find → c.flag = false)
    (hprog : step setup t c s.mem (s.loc t) = some (m', l'))
    (hunlock : l'.stack = .unsubscribe i (.retire self .unlock) :: rest) :
    i ∉ m'.registry.current := by
  have hwrites := hinv.writes t _ (by rw [hstack]; exact List.mem_cons_self)
  obtain ⟨q', contexts', top', hframe, rfl⟩ := (step_shape hprog).top_frame_flag hstack rfl rfl
  generalize hf : Frame.unsubscribe i (.retire self phase) = f at hframe hwrites
  cases hframe with
  | retireAbsent _ _ habsent =>
      cases hf
      exact habsent
  | retireFailed _ _ _ hfailed =>
      cases hf
      rw [hflag rfl] at hfailed
      cases hfailed
  | retireStore _ _ kept =>
      cases hf
      exact hwrites.2.1
  | retireUnlock _ _ | retireLock _ _ | retireFound _ _ | retireKeep _ _ | retireSkip _ _ =>
      cases hf
      simp at hunlock
  | invoke hinvoke => cases hinvoke <;> cases hf
  | stop hstop => cases hstop <;> cases hf
  | _ => cases hf

omit [DecidableEq T] [Fintype T] in
/-- Publishing is a step of its own frame. -/
theorem Publishes.quiet {flag : Bool} {f f' : Frame T E} (h : Publishes m flag f f') :
    f.user = false ∧ f.inQueue = false := by
  cases h <;> exact ⟨rfl, rfl⟩

omit [Fintype T] in
/-- Such a step stores a snapshot. -/
theorem Publishes.stores {flag : Bool} {f f' : Frame T E} {q q' : Q.Loc}
    {contexts contexts' : Contexts} (h : Publishes m flag f f')
    (hstep : FrameStep setup flag t m q contexts f m' q' contexts' (some f')) :
    f.stores = true := by
  generalize hg : some f' = g at hstep
  cases hstep with
  | subscribeStore | retireStore => rfl
  | retireAbsent _ _ habsent =>
      cases hg
      cases h with
      | retire hfound => exact absurd (hfound rfl).1 habsent
  | retireFailed _ _ _ hfailed =>
      cases hg
      cases h with
      | retire hfound =>
          rw [(hfound rfl).2] at hfailed
          cases hfailed
  | invoke hframe => cases hframe <;> cases hg <;> cases h
  | stop hframe => cases hframe <;> cases hg <;> cases h
  | _ => cases hg <;> cases h

omit [Fintype T] in
/-- What has been published stays in the books along a run. -/
theorem published_steps {s s' : Config T (DispatcherMem Q) (ThreadLoc Q)} {j : ℕ}
    (hs : (system setup Q).Reach ok s) (hlater : (system setup Q).Steps ok s s')
    (hj : j ∈ s.mem.history.published) : j ∈ s'.mem.history.published := by
  refine System.Steps.stable (I := fun s => j ∈ s.mem.history.published) ?_ hs hlater hj
  rintro s ⟨t, c⟩ s' _ hj _ hstep
  obtain ⟨m, l, hprog, rfl⟩ := Config.step_eq_some hstep
  exact (step_shape hprog).published_subset hj

omit [Fintype T] in
/-- Identifiers are not given back along a run. -/
theorem nextId_le_steps {s s' : Config T (DispatcherMem Q) (ThreadLoc Q)}
    (hs : (system setup Q).Reach ok s) (hlater : (system setup Q).Steps ok s s') :
    s.mem.registry.nextId ≤ s'.mem.registry.nextId := by
  refine System.Steps.stable (I := fun s' => s.mem.registry.nextId ≤ s'.mem.registry.nextId)
    ?_ hs hlater le_rfl
  rintro s₁ ⟨t, c⟩ s₂ _ hle _ hstep
  obtain ⟨m, l, hprog, rfl⟩ := Config.step_eq_some hstep
  exact hle.trans (step_shape hprog).nextId_le

omit [Fintype T] in
/-- `allocate_id` hands out the next identifier. -/
theorem constructed_id {callback : Bool} {options : SubscriptionOptions}
    {rest : List (Frame T E)} {id : ℕ} {todo kept : List ℕ}
    (hstack : l.stack = .subscribe callback options .construct :: rest)
    (hprog : step setup t c m l = some (m', l'))
    (hfilter : l'.stack = .subscribe callback options (.filter id todo kept) :: rest) :
    id = m.registry.nextId := by
  obtain ⟨flag, q', contexts', top', hframe, rfl⟩ := (step_shape hprog).top_frame hstack rfl rfl
  generalize hf : Frame.subscribe callback options .construct = f at hframe
  cases hframe with
  | subscribeConstruct =>
      cases hf
      simp at hfilter
      exact hfilter.1.symm
  | subscribeExhausted | subscribeInvalid =>
      cases hf
      simp at hfilter
  | invoke hinvoke => cases hinvoke <;> cases hf
  | stop hstop => cases hstop <;> cases hf
  | _ => cases hf

/-- While one thread has the writer mutex and has collected nothing, nobody has. -/
theorem uncollected_of_writer {s : Config T (DispatcherMem Q) (ThreadLoc Q)} {top : Frame T E}
    {rest : List (Frame T E)} (hs : (system setup Q).Reach ok s)
    (hstack : (s.loc t).stack = top :: rest) (hwrites : top.writes = true)
    (hnone : top.collected = []) (j : ℕ) : ∀ u, ∀ f ∈ (s.loc u).stack, j ∉ f.collected := by
  have hinv := registryInv_reach s hs
  have hmine := hinv.locked t top (by rw [hstack]; exact List.mem_cons_self) hwrites
  intro u f hf hj
  have hother := hinv.locked u f hf (writes_of_collected hj)
  rw [hmine] at hother
  obtain rfl := Option.some.inj hother
  rw [hstack] at hf
  rcases List.mem_cons.mp hf with rfl | hf
  · rw [hnone] at hj
    cases hj
  · have huser := (inOrder_reach s hs t).suspended f (by rw [hstack]; exact hf)
    have hidle := (user_writes huser s.mem).1
    rw [writes_of_collected hj] at hidle
    cases hidle

/-- **The snapshot registry**, in every reachable state. -/
theorem registry_sound (setup : Setup T) (Q : QueuePolicy T (Publication E)) :
    ∀ s, (system setup Q).Reachable s → RegistrySound setup s := by
  intro s hs
  have hinv := registryInv_reach s hs
  refine ⟨hinv.ok.sorted, ?_, hinv.ok.complete, hinv.ok.handles, activeCount_eq hinv.ok,
    hinv.ok.fresh, ?_, ?_, ?_, ?_⟩
  · intro hzero
    exact absurd (hinv.ok.positive 0 (hinv.ok.subset 0 hzero)) (Nat.lt_irrefl 0)
  · intro t c callback options rest id todo kept s₁ s₂ hstack hstep hfilter hlater
    have hs₁ : (system setup Q).Reachable s₁ := .step hs trivial hstep
    have hid : id < s₁.mem.registry.nextId :=
      ((registryInv_reach s₁ hs₁).writes t (.subscribe callback options (.filter id todo kept))
        (by rw [hfilter]; exact List.mem_cons_self)).1.allocated
    refine ⟨?_, hid.trans_le (nextId_le_steps hs₁ hlater)⟩
    obtain ⟨m, l, hprog, rfl⟩ := Config.step_eq_some hstep
    simp only [Function.update_self] at hfilter
    exact constructed_id hstack hprog hfilter
  · intro t callback options rest s' message _ hlater _
    exact unpublished_steps hs hlater
  · intro t c i self phase rest s₁ s₂ hstack hflag hstep hunlock hlater
    have hs₁ : (system setup Q).Reachable s₁ := .step hs trivial hstep
    have hpublished : i ∈ s₁.mem.history.published :=
      (registryInv_reach s₁ hs₁).writes t (.unsubscribe i (.retire self .unlock))
        (by rw [hunlock]; exact List.mem_cons_self)
    refine absent_steps hs₁ hlater hpublished ?_
    obtain ⟨m, l, hprog, rfl⟩ := Config.step_eq_some hstep
    simp only [Function.update_self] at hunlock
    exact retire_absent hinv hstack hflag hprog hunlock
  · intro t c i self rest s₁ s₂ u c' f f' below s₃ s₄ hstack hstep hunlock hlater hf hstep' hf'
      hpublishes hlater'
    have hs₁ : (system setup Q).Reachable s₁ := .step hs trivial hstep
    have hs₂ := hs₁.steps hlater
    have hs₃ : (system setup Q).Reachable s₃ := .step hs₂ trivial hstep'
    have hmem : .unsubscribe i (.retire self .unlock) ∈ (s₁.loc t).stack := by
      rw [hunlock]
      exact List.mem_cons_self
    have hpublished : i ∈ s₁.mem.history.published :=
      (registryInv_reach s₁ hs₁).writes t _ hmem
    have hinactive : (s₁.mem.subs i).active = false :=
      (invocationInv_reach s₁ hs₁).deactivated t _ hmem i self rfl
    have hnone := uncollected_of_writer hs₁ hunlock rfl rfl i
    have hnone' := uncollected_steps hs₁ hlater hinactive hnone
    have hpublished' := published_steps hs₂ (.tail .refl trivial hstep')
      (published_steps hs₁ hlater hpublished)
    refine absent_steps hs₃ hlater' hpublished' ?_
    obtain ⟨m, l, hprog, rfl⟩ := Config.step_eq_some hstep'
    obtain ⟨q', contexts', top', hframe, rfl⟩ :=
      (step_shape hprog).top_frame_flag hf hpublishes.quiet.1 hpublishes.quiet.2
    simp only [Function.update_self] at hf'
    obtain rfl : top' = some f' := by
      cases top' with
      | none => simp at hf'
      | some top' => simpa using hf'
    rw [hframe.current_of_stores (hpublishes.stores hframe)]
    exact hnone' u f (by rw [hf]; exact List.mem_cons_self)

end Run

/-- The theorem applies where a subscriber has been retired without memory for the copy and
stays in the snapshot. -/
theorem registry_sound_with_tombstone :
    ∃ s, (system smallSetup (mutexPolicy (Fin 3) (Publication ℕ) 2)).Reachable s ∧
      RegistrySound smallSetup s ∧ s.mem.registry.current = [1] ∧ s.mem.activeCount = 0 := by
  obtain ⟨s, hs, hp⟩ := System.exists_reach_of_run
    (system smallSetup (mutexPolicy (Fin 3) (Publication ℕ) 2)) (fun _ _ => True)
    (fun _ _ => true) (s := started smallSetup _) rfl
    (List.flatten [[(1, .constructed)], subscribing {}, [(1, .call (.unsubscribe 1))],
      advance 1 2, [(1, .go true none)], advance 1 1])
    (fun s => s.mem.registry.current = [1] && s.mem.activeCount = 0) (by simp) (by decide +kernel)
  simp only [Bool.and_eq_true, decide_eq_true_eq] at hp
  exact ⟨s, hs, registry_sound _ _ s hs, hp.1, hp.2⟩

end Dispatcher

end EventDispatcher
