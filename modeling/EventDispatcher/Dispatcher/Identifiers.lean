import EventDispatcher.Dispatcher.FrameStep

/-!
# Subscriber identifiers

`allocate_id` hands out every identifier once.  All the identifiers that are around,
in the current snapshot, in a frame, in a handle or in a thread that is to run an
executor, have been handed out, and the states of the others are untouched.
-/

namespace EventDispatcher

open Transition SubscriberState

variable {T E : Type} {Q : QueuePolicy T (Publication E)}

/-- The identifier that `subscribe` returns, if it returns one. -/
def handle : Except String ℕ → List ℕ
  | .ok id => [id]
  | .error _ => []

/-- The identifiers a frame has in its hands. -/
def Frame.ids : Frame T E → List ℕ
  | .worker (.next snapshot subs _ _) => snapshot ++ subs
  | .worker (.invoke snapshot subs _ _ i _) => i :: (snapshot ++ subs)
  | .worker (.handler snapshot subs _ _) => snapshot ++ subs
  | .executor i _ => [i]
  | .invoke i _ _ => [i]
  | .subscribe _ _ (.filter id todo kept) => id :: (todo ++ kept)
  | .subscribe _ _ (.startExecutor id next) => id :: next
  | .subscribe _ _ (.store id next) => id :: next
  | .subscribe _ _ (.unlockWriter result) => handle result
  | .subscribe _ _ (.unlockLifecycle result) => handle result
  | .unsubscribe i (.retire _ (.filter todo kept)) => i :: (todo ++ kept)
  | .unsubscribe i _ => [i]
  | .shutdown _ (.stop todo _) => todo
  | _ => []

/-- The memory only knows identifiers that have been handed out. -/
structure Known (m : DispatcherMem Q) : Prop where
  fresh : ∀ j, m.registry.nextId ≤ j → m.subs j = { options := {} }
  current : ∀ j ∈ m.registry.current, j < m.registry.nextId
  handles : ∀ j ∈ m.subscribed, j < m.registry.nextId
  entries : ∀ t j, m.threads.entry t = some j → j < m.registry.nextId

namespace Known

variable {m : DispatcherMem Q}

/-- Changing a subscriber that has been handed out. -/
theorem setSub (h : Known m) {i : ℕ} (hi : i < m.registry.nextId)
    (s : SubscriberState T (Publication E)) : Known (m.setSub i s) where
  fresh := by
    intro j hj
    have hne : j ≠ i := by
      rintro rfl
      exact absurd hi (Nat.not_lt.mpr hj)
    exact (Function.update_of_ne hne _ _).trans (h.fresh j hj)
  current := h.current
  handles := h.handles
  entries := h.entries

theorem invokeSub (h : Known m) {i : ℕ} (hi : i < m.registry.nextId)
    (s : SubscriberState T (Publication E)) : Known (m.invokeSub i s) :=
  ⟨(h.setSub hi s).fresh, h.current, h.handles, h.entries⟩

theorem setCurrent (h : Known m) {current : List ℕ}
    (hcurrent : ∀ j ∈ current, j < m.registry.nextId) : Known (m.setCurrent current) :=
  ⟨h.fresh, hcurrent, h.handles, h.entries⟩

theorem recordSubscription (h : Known m) {result : Except String ℕ}
    (hresult : ∀ j ∈ handle result, j < m.registry.nextId) :
    Known (m.recordSubscription result) where
  fresh := h.fresh
  current := h.current
  handles := by
    intro j hj
    simp only [DispatcherMem.subscribed, DispatcherMem.recordSubscription_history_subscriptions,
      List.filterMap_append, List.mem_append] at hj
    rcases hj with hj | hj
    · exact h.handles j hj
    · cases result with
      | ok i =>
          obtain rfl : j = i := by simpa [Except.toOption] using hj
          exact hresult j (by simp [handle])
      | error message => cases hj
  entries := h.entries

theorem allocateId (h : Known m) : Known m.allocateId where
  fresh := fun j hj => h.fresh j (Nat.le_of_succ_le hj)
  current := fun j hj => Nat.lt_succ_of_lt (h.current j hj)
  handles := fun j hj => Nat.lt_succ_of_lt (h.handles j hj)
  entries := fun t j hj => Nat.lt_succ_of_lt (h.entries t j hj)

variable [DecidableEq T]

theorem spawn (h : Known m) {i : ℕ} (hi : i < m.registry.nextId) (u : T) :
    Known (m.spawn i u) where
  fresh := (h.setSub hi _).fresh
  current := h.current
  handles := h.handles
  entries := by
    intro t j hj
    by_cases ht : t = u
    · subst ht
      rw [show (m.spawn i t).threads.entry t = some i from Function.update_self _ _ _] at hj
      cases hj
      exact hi
    · exact h.entries t j ((Function.update_of_ne ht _ _).symm.trans hj)

end Known

variable [DecidableEq T]

section Step

variable {setup : Setup T} {flag : Bool} {t : T} {m m' : DispatcherMem Q} {q q' : Q.Loc}
  {contexts contexts' : Contexts} {f : Frame T E} {f' : Option (Frame T E)}

theorem FrameStep.nextId_le (h : FrameStep setup flag t m q contexts f m' q' contexts' f') :
    m.registry.nextId ≤ m'.registry.nextId := by
  cases h <;> simp

/-- The frame gets its identifiers from its own hands, from the current snapshot or
from `allocate_id`. -/
theorem FrameStep.ids_lt (h : FrameStep setup flag t m q contexts f m' q' contexts' f')
    (hm : Known m) (hf : ∀ j ∈ f.ids, j < m.registry.nextId) :
    ∀ g ∈ f', ∀ j ∈ g.ids, j < m'.registry.nextId := by
  have hcurrent := hm.current
  cases h with
  | acquire event events => simpa [Frame.ids] using hcurrent
  | nextSub snapshot subs event events i =>
      rintro g ⟨⟩ j hj
      simp only [Frame.ids, List.mem_append, List.mem_cons] at hf hj
      exact hf j (by tauto)
  | nextEvent snapshot last event events =>
      rintro g ⟨⟩ j hj
      simp only [Frame.ids, List.append_nil, List.mem_append] at hf hj
      exact hf j (by tauto)
  | invoked | invokeThrew =>
      rintro g ⟨⟩ j hj
      exact hf j (List.mem_cons_of_mem _ hj)
  | invoke hframe hstep => cases hframe <;> exact fun g hg j hj => hf j (by cases hg; exact hj)
  | stop hframe hstep => cases hframe <;> exact fun g hg j hj => hf j (by cases hg; exact hj)
  | subscribeConstruct callback options hvalid =>
      rintro g ⟨⟩ j hj
      simp only [Frame.ids, List.append_nil, List.mem_cons] at hj
      rcases hj with rfl | hj
      · simp
      · exact Nat.lt_succ_of_lt (hcurrent j hj)
  | subscribeKeep callback options id k todo kept =>
      rintro g ⟨⟩ j hj
      simp only [Frame.ids, List.mem_append, List.mem_cons, List.not_mem_nil, or_false] at hf hj
      exact hf j (by tauto)
  | subscribeSkip callback options id k todo kept =>
      rintro g ⟨⟩ j hj
      simp only [Frame.ids, List.mem_append, List.mem_cons] at hf hj
      exact hf j (by tauto)
  | subscribeFiltered callback options id kept =>
      rintro g ⟨⟩ j hj
      simp only [Frame.ids, List.nil_append, List.mem_append, List.mem_cons, List.not_mem_nil,
        or_false] at hf hj
      exact hf j (by tauto)
  | subscribeStore callback options id next =>
      rintro g ⟨⟩ j hj
      obtain rfl : j = id := by simpa [Frame.ids, handle] using hj
      exact hf j (by simp [Frame.ids])
  | retireFound i self hfound =>
      rintro g ⟨⟩ j hj
      simp only [Frame.ids, List.append_nil, List.mem_cons, List.not_mem_nil, or_false] at hf hj
      rcases hj with rfl | hj
      · exact hf j rfl
      · exact hcurrent j hj
  | retireKeep i self k todo kept =>
      rintro g ⟨⟩ j hj
      simp only [Frame.ids, List.mem_append, List.mem_cons, List.not_mem_nil, or_false] at hf hj
      exact hf j (by tauto)
  | retireSkip i self k todo kept =>
      rintro g ⟨⟩ j hj
      simp only [Frame.ids, List.mem_append, List.mem_cons] at hf hj
      exact hf j (by tauto)
  | retireStore i self kept =>
      rintro g ⟨⟩ j hj
      exact hf j (List.mem_cons.mpr (.inl (by simpa [Frame.ids] using hj)))
  | loadSnapshot policy => simpa [Frame.ids] using hcurrent
  | stopNext policy i todo =>
      rintro g ⟨⟩ j hj
      exact hf j (List.mem_cons_of_mem _ hj)
  | deactivate i | deactivateAgain i =>
      rintro g ⟨⟩ j hj
      simpa using hf j hj
  | _ =>
      intro g hg
      cases hg <;> first | exact hf | (intro j hj; cases hj)

/-- **Step lemma**, for the top frame. -/
theorem FrameStep.known (h : FrameStep setup flag t m q contexts f m' q' contexts' f')
    (hm : Known m) (hf : ∀ j ∈ f.ids, j < m.registry.nextId) : Known m' := by
  cases h with
  | invoke hframe hstep =>
      cases hframe <;> exact hm.invokeSub (hf _ (List.mem_cons_self ..)) _
  | executor hstep => exact hm.invokeSub (hf _ (List.mem_cons_self ..)) _
  | stop hframe hstep =>
      cases hframe <;> exact hm.setSub (hf _ (List.mem_cons_self ..)) _
  | publishCounted event kind stop rest status =>
      exact ⟨by simpa using hm.fresh, by simpa using hm.current,
        by simpa [DispatcherMem.subscribed] using hm.handles, by simpa using hm.entries⟩
  | publishNext event kind stop payload rest =>
      exact ⟨by simpa using hm.fresh, by simpa using hm.current,
        by simpa [DispatcherMem.subscribed] using hm.handles, by simpa using hm.entries⟩
  | subscribeInvalid => exact hm.allocateId
  | subscribeConstruct callback options hvalid =>
      exact hm.allocateId.setSub (Nat.lt_succ_self _) _
  | subscribeSpawn callback options id next hisolated u hu =>
      exact hm.spawn (hf _ (List.mem_cons_self ..)) u
  | subscribeStore callback options id next =>
      exact ⟨hm.fresh, fun j hj => hf j (List.mem_cons_of_mem _ hj), hm.handles, hm.entries⟩
  | subscribeReturned callback options result =>
      have hmutex : Known (m.setMutex none) := ⟨hm.fresh, hm.current, hm.handles, hm.entries⟩
      exact hmutex.recordSubscription hf
  | deactivate i | deactivateAgain i =>
      have hset := hm.setSub (hf i (List.mem_cons_self ..)) (m.subs i).deactivate
      exact ⟨by simpa using hset.fresh, by simpa using hset.current,
        by simpa [DispatcherMem.subscribed] using hset.handles, by simpa using hset.entries⟩
  | retireStore i self kept =>
      exact hm.setCurrent fun j hj => hf j (List.mem_cons_of_mem _ hj)
  | idlePark i | idleWake i => exact hm.setSub (hf i (List.mem_cons_self ..)) _
  | _ => exact ⟨hm.fresh, hm.current, hm.handles, hm.entries⟩

end Step

namespace Dispatcher

omit [DecidableEq T] in
/-- The call hands user code's identifiers to the new frame. -/
theorem enter_known {m m' : DispatcherMem Q} {call : Call T E} {f : Frame T E}
    (h : enter m call = some (m', f)) (hm : Known m) :
    Known m' ∧ m'.registry = m.registry ∧ ∀ j ∈ f.ids, j < m.registry.nextId := by
  cases call with
  | unsubscribe i | invoke i event =>
      simp only [enter] at h
      split at h
      · next hi =>
          cases h
          refine ⟨hm, rfl, ?_⟩
          intro j hj
          obtain rfl : j = i := by simpa [Frame.ids] using hj
          exact hm.handles j hi
      · cases h
  | publish | publishBatch =>
      cases h
      exact ⟨⟨hm.fresh, hm.current, hm.handles, hm.entries⟩, rfl, by simp [Frame.ids]⟩
  | _ =>
      cases h
      exact ⟨hm, rfl, by simp [Frame.ids]⟩

omit [DecidableEq T] in
theorem finishUser_ids {f f' : Frame T E} {threw : Bool} (h : f.finishUser threw = some f') :
    f'.ids = f.ids := by
  unfold Frame.finishUser at h
  split at h <;> cases h <;> rfl

/-- Every identifier in use has been handed out. -/
structure Allotted (s : Config T (DispatcherMem Q) (ThreadLoc Q)) : Prop where
  mem : Known s.mem
  frames : ∀ t, ∀ f ∈ (s.loc t).stack, ∀ j ∈ f.ids, j < s.mem.registry.nextId

section Allotted

variable {setup : Setup T} {t : T} {m m' : DispatcherMem Q} {l l' : ThreadLoc Q}
  {c : DispatcherChoice Q}

/-- **Step lemma**, for a thread. -/
theorem StepShape.known (h : StepShape setup t m l c m' l') (hm : Known m)
    (hl : ∀ f ∈ l.stack, ∀ j ∈ f.ids, j < m.registry.nextId) :
    Known m' ∧ m.registry.nextId ≤ m'.registry.nextId ∧
      ∀ f ∈ l'.stack, ∀ j ∈ f.ids, j < m'.registry.nextId := by
  cases h with
  | constructed hstack hclient hcreated =>
      exact ⟨⟨hm.fresh, hm.current, hm.handles, hm.entries⟩, le_rfl, hl⟩
  | start hstack hentry =>
      refine ⟨⟨hm.fresh, hm.current, hm.handles, ?_⟩, le_rfl, ?_⟩
      · intro u j hu
        by_cases hut : u = t
        · subst hut
          simp at hu
        · exact hm.entries u j (by simpa [hut] using hu)
      · simpa [Frame.ids] using hm.entries t _ hentry
  | call huser henter =>
      obtain ⟨hm', hregistry, hids⟩ := enter_known henter hm
      rw [hregistry]
      refine ⟨hm', le_rfl, ?_⟩
      intro f hf
      rcases List.mem_cons.mp hf with rfl | hf
      · exact hids
      · exact hl f hf
  | finish hstack hfinish =>
      refine ⟨hm, le_rfl, ?_⟩
      intro f hf
      rw [hstack] at hl
      rcases List.mem_cons.mp hf with rfl | hf
      · rw [finishUser_ids hfinish]
        exact hl _ List.mem_cons_self
      · exact hl f (List.mem_cons_of_mem _ hf)
  | frame hstack hstep =>
      rw [hstack] at hl
      have htop := hl _ List.mem_cons_self
      refine ⟨hstep.known hm htop, hstep.nextId_le, ?_⟩
      intro f hf
      rcases List.mem_append.mp hf with hf | hf
      · exact hstep.ids_lt hm htop f (by simpa using hf)
      · exact fun j hj => (hl f (List.mem_cons_of_mem _ hf) j hj).trans_le hstep.nextId_le
  | queue hstack hin hbusy hstep =>
      exact ⟨⟨hm.fresh, hm.current, hm.handles, hm.entries⟩, le_rfl, hl⟩

/-- **Run lemma.** -/
theorem allotted_reach
    {ok : Config T (DispatcherMem Q) (ThreadLoc Q) → T × DispatcherChoice Q → Prop} :
    ∀ s, (system setup Q).Reach ok s → Allotted s := by
  refine interleave_invariant ?_ ?_
  · rintro s rfl
    refine ⟨⟨fun _ _ => rfl, by simp [started], by simp [started, DispatcherMem.subscribed],
      by simp [started]⟩, ?_⟩
    intro t f hf
    simp only [started] at hf
    split at hf
    · obtain rfl := List.mem_singleton.mp hf
      simp [Frame.ids]
    · simp at hf
  · intro s t c m l _ hinv _ hstep
    obtain ⟨hm, hle, hl⟩ := (step_shape hstep).known hinv.mem (hinv.frames t)
    refine ⟨hm, (Function.forall_update_iff s.loc fun _ l =>
      ∀ f ∈ l.stack, ∀ j ∈ f.ids, j < m.registry.nextId).mpr ⟨hl, ?_⟩⟩
    intro u _ f hf j hj
    exact (hinv.frames u f hf j hj).trans_le hle

end Allotted

end Dispatcher

end EventDispatcher
