import EventDispatcher.Dispatcher.SubscriberView
import EventDispatcher.Dispatcher.Threads

/-!
# The executor of a subscriber

At any time at most one frame, at the bottom of one stack, is in `executor_loop` of a given
subscriber.  `ExecutorMove` is a step as the subscriber and its executor see it.  Whether a
`try_invoke` of the subscriber has anything to do with its callback depends on the delivery
policy only (`PartOk`): an isolated subscriber is only ever called by its executor.
-/

namespace EventDispatcher

open Transition SubscriberState

variable {T E : Type} {Q : QueuePolicy T (Publication E)}

/-- Inside `enqueue_isolated`. -/
def InvokePhase.mails : InvokePhase → Bool
  | .lockMailbox => true
  | .spaceParked => true
  | .notifyReady => true
  | _ => false

/-- Inside the delivery of a subscriber without an executor. -/
def InvokePhase.direct : InvokePhase → Bool
  | .begin => true
  | .reject => true
  | .lockSerial => true
  | .callback _ => true
  | _ => false

/-- The part fits the delivery policy of its subscriber. -/
def PartOk (s : SubscriberState T (Publication E)) : Part E → Prop
  | .invoke _ phase => (phase.mails = true → s.options.delivery = .isolated) ∧
      (phase.direct = true → s.options.delivery ≠ .isolated)
  | _ => True

/-- Only an executor frame has the part of an executor. -/
theorem part_executor_iff {f : Frame T E} {i : ℕ} {phase : ExecutorPhase (Publication E)} :
    f.part i = .executor phase ↔ f = .executor i phase := by
  constructor
  · intro h
    unfold Frame.part at h
    split at h
    case h_3 j phase' =>
      split at h
      · next hj =>
          cases h
          rw [hj]
      · cases h
    all_goals
      first
        | cases h
        | (split at h <;> cases h)
  · rintro rfl
    exact if_pos rfl

/-- Who is inside `stop_delivery`. -/
theorem part_stop_cases {f : Frame T E} {i : ℕ} {drain : Bool} {phase : StopPhase}
    (h : f.part i = .stop drain phase) :
    (∃ self, f = .unsubscribe i (.stop self phase)) ∨
      ∃ policy todo, f = .shutdown policy (.stop (i :: todo) phase) ∧
        drain = decide (policy = .drain) := by
  unfold Frame.part at h
  split at h
  case h_4 j self phase =>
    split at h
    · next hj =>
        cases h
        subst hj
        exact .inl ⟨self, rfl⟩
    · cases h
  case h_5 policy j todo phase =>
    split at h
    · next hj =>
        cases h
        subst hj
        exact .inr ⟨policy, todo, rfl, rfl⟩
    · cases h
  all_goals
    first
      | cases h
      | (split at h <;> cases h)

/-- Who is inside `try_invoke`. -/
theorem part_invoke_cases {f : Frame T E} {i : ℕ} {event : Publication E} {phase : InvokePhase}
    (h : f.part i = .invoke event phase) :
    (∃ snapshot subs events, f = .worker (.invoke snapshot subs event events i phase)) ∨
      f = .invoke i event phase := by
  unfold Frame.part at h
  split at h
  case h_1 snapshot subs event events j phase =>
    split at h
    · next hj =>
        cases h
        subst hj
        exact .inl ⟨snapshot, subs, events, rfl⟩
    · cases h
  case h_2 j event phase =>
    split at h
    · next hj =>
        cases h
        subst hj
        exact .inr rfl
    · cases h
  all_goals
    first
      | cases h
      | (split at h <;> cases h)

/-- The same for a whole stack. -/
theorem mem_parts_executor {stack : List (Frame T E)} {i : ℕ}
    {phase : ExecutorPhase (Publication E)} :
    .executor phase ∈ parts i stack ↔ .executor i phase ∈ stack := by
  simp only [parts, List.mem_map, part_executor_iff, exists_eq_right]

/-- A frame that has a part with a subscriber knows its identifier. -/
theorem mem_ids_of_part {f : Frame T E} {i : ℕ} (h : f.part i ≠ .idle) : i ∈ f.ids := by
  unfold Frame.part at h
  split at h
  all_goals
    first
      | exact absurd rfl h
      | (split at h
         · next hj =>
             subst hj
             exact List.mem_cons_self
         · exact absurd rfl h)

/-- Only one thread function stands on a stack. -/
theorem Bottomed.eq_of_base {stack : List (Frame T E)} (h : Bottomed stack) {f g : Frame T E}
    (hf : f ∈ stack) (hg : g ∈ stack) (hfbase : f.base = true) (hgbase : g.base = true) :
    f = g := by
  induction stack with
  | nil => cases hf
  | cons top rest ih =>
      obtain ⟨htop, hrest⟩ := h
      rcases List.mem_cons.mp hf with rfl | hf' <;> rcases List.mem_cons.mp hg with rfl | hg'
      · rfl
      · rw [htop hfbase] at hg'
        cases hg'
      · rw [htop hgbase] at hf'
        cases hf'
      · exact ih hrest hf' hg'

section Steps

variable [DecidableEq T] {flag : Bool} {t : T} {next i : ℕ} {finished : Finset T}
  {s s' : SubscriberState T (Publication E)} {p p' : Part E} {contexts contexts' : Contexts}

omit [DecidableEq T] in
/-- A callback does not touch the options. -/
theorem CallbackStep.options_eq {event : Publication E} {phase phase' : CallbackPhase}
    (h : CallbackStep i s contexts event phase s' contexts' phase') : s'.options = s.options := by
  cases h <;> rfl

/-- Nor does `try_invoke`. -/
theorem InvokeStep.options_eq {event : Publication E} {phase phase' : InvokePhase}
    (h : InvokeStep flag t i s contexts event phase s' contexts' phase') :
    s'.options = s.options := by
  cases h with
  | callback hstep => exact hstep.options_eq
  | _ => rfl

/-- Nor does an executor. -/
theorem ExecutorStep.options_eq {phase phase' : ExecutorPhase (Publication E)}
    (h : ExecutorStep t i s contexts phase s' contexts' phase') : s'.options = s.options := by
  cases h with
  | callback hstep => exact hstep.options_eq
  | _ => rfl

omit [DecidableEq T] in
/-- Nor does `stop_delivery`. -/
theorem StopStep.options_eq {drain : Bool} {phase phase' : StopPhase}
    (h : StopStep t s finished drain phase s' phase') : s'.options = s.options := by
  cases h with
  | stopMailbox =>
      unfold SubscriberState.stopMailbox
      split <;> rfl
  | _ => rfl

/-- The options of a subscriber are those it was constructed with. -/
theorem PartStep.options_eq (h : PartStep flag t next i finished s p s' p') :
    s'.options = s.options ∨ i = next := by
  cases h with
  | construct options hnext => exact .inr hnext
  | invoke hstep => exact .inl hstep.options_eq
  | executor hstep => exact .inl hstep.options_eq
  | stop hstep => exact .inl hstep.options_eq
  | _ => exact .inl rfl

omit [DecidableEq T] in
/-- What a part says holds while the options stay. -/
theorem PartOk.mono {r : Part E} (h : PartOk s r) (hoptions : s'.options = s.options) :
    PartOk s' r := by
  cases r with
  | invoke event phase =>
      simp only [PartOk, hoptions]
      exact h
  | _ => trivial

/-- **Step lemma**, for `try_invoke`. -/
theorem InvokeStep.partOk {event : Publication E} {phase phase' : InvokePhase}
    (h : InvokeStep flag t i s contexts event phase s' contexts' phase')
    (hok : PartOk s (.invoke event phase)) : PartOk s' (.invoke event phase') := by
  cases h with
  | offerMailbox hisolated => exact ⟨fun _ => hisolated, by rintro ⟨⟩⟩
  | offerDirect hdirect => exact ⟨by rintro ⟨⟩, fun _ => hdirect⟩
  | park hphase | overflow hphase | refused hphase | copyThrew hphase | mail hphase =>
      rcases hphase with rfl | ⟨rfl, _⟩ <;> exact ⟨fun _ => hok.1 rfl, by rintro ⟨⟩⟩
  | callback hstep =>
      refine ⟨by rintro ⟨⟩, fun _ => ?_⟩
      rw [hstep.options_eq]
      exact hok.2 rfl
  | _ =>
      first
        | exact ⟨fun _ => hok.1 rfl, by rintro ⟨⟩⟩
        | exact ⟨by rintro ⟨⟩, fun _ => hok.2 rfl⟩

/-- **Step lemma**, for any part. -/
theorem PartStep.partOk (h : PartStep flag t next i finished s p s' p') (hok : PartOk s p) :
    PartOk s' p' := by
  cases h with
  | invoke hstep => exact hstep.partOk hok
  | offer event => exact ⟨by rintro ⟨⟩, by rintro ⟨⟩⟩
  | finishInvoke event previous threw => exact ⟨by rintro ⟨⟩, fun _ => hok.2 rfl⟩
  | _ => trivial

/-- A step as subscriber `i` and its executor see it; without an executor frame the phase is
`none`. -/
inductive ExecutorMove (flag : Bool) (t : T) (next i : ℕ) (finished : Finset T)
    (s : SubscriberState T (Publication E)) :
    Option (ExecutorPhase (Publication E)) → SubscriberState T (Publication E) →
      Option (ExecutorPhase (Publication E)) → Prop
  | other {p p' : Part E} {s' : SubscriberState T (Publication E)}
      {phase : Option (ExecutorPhase (Publication E))}
      (hstep : PartStep flag t next i finished s p s' p') (hok : PartOk s p)
      (hp : ∀ phase, p ≠ .executor phase) (hp' : ∀ phase, p' ≠ .executor phase) :
      ExecutorMove flag t next i finished s phase s' phase
  | start : ExecutorMove flag t next i finished s none s (some .lockMailbox)
  | step {phase phase' : ExecutorPhase (Publication E)} {s' : SubscriberState T (Publication E)}
      {contexts contexts' : Contexts}
      (hstep : ExecutorStep t i s contexts phase s' contexts' phase') :
      ExecutorMove flag t next i finished s (some phase) s' (some phase')
  | finish (event : Publication E) (previous : Contexts) (threw : Bool) :
      ExecutorMove flag t next i finished s (some (.callback event (.running previous))) s
        (some (.callback event (Frame.afterCallback previous threw)))
  | handled : ExecutorMove flag t next i finished s (some .handler) s (some .lockMailbox)
  | done : ExecutorMove flag t next i finished s (some .done) s none

end Steps

/-- Replacing is symmetric. -/
theorem Replaced.symm {p p' : Part E} {before after : List (Part E)}
    (h : Replaced p p' before after) : Replaced p' p after before := by
  obtain ⟨rest, hbefore, hafter⟩ := h
  exact ⟨rest, hafter, hbefore⟩

namespace Dispatcher

/-- The phase of the executor of subscriber `i`. -/
def Runs (i : ℕ) (s : Config T (DispatcherMem Q) (ThreadLoc Q)) :
    Option (ExecutorPhase (Publication E)) → Prop
  | some phase => ∃ t, .executor i phase ∈ (s.loc t).stack
  | none => ∀ t phase, .executor i phase ∉ (s.loc t).stack

/-- The executor of a subscriber is somewhere, or nowhere. -/
theorem exists_runs (i : ℕ) (s : Config T (DispatcherMem Q) (ThreadLoc Q)) :
    ∃ phase, Runs i s phase := by
  by_cases h : ∃ t phase, .executor i phase ∈ (s.loc t).stack
  · obtain ⟨t, phase, hmem⟩ := h
    exact ⟨some phase, t, hmem⟩
  · exact ⟨none, fun t phase hmem => h ⟨t, phase, hmem⟩⟩

/-- Nobody does anything with an identifier that was not given out. -/
theorem parts_idle_of_unused [DecidableEq T] {s : Config T (DispatcherMem Q) (ThreadLoc Q)}
    (h : Allotted s) {i : ℕ} (hi : s.mem.registry.nextId ≤ i) (t : T) {p : Part E}
    (hp : p ∈ parts i (s.loc t).stack) : p = .idle := by
  obtain ⟨f, hf, rfl⟩ := List.mem_map.mp hp
  by_contra hne
  exact absurd (h.frames t f hf i (mem_ids_of_part hne)) (Nat.not_lt.mpr hi)

/-- A subscriber that is not yet there has no executor. -/
theorem Runs.none_of_unused [DecidableEq T] {s : Config T (DispatcherMem Q) (ThreadLoc Q)}
    {i : ℕ} {o : Option (ExecutorPhase (Publication E))} (ho : Runs i s o) (h : Allotted s)
    (hi : s.mem.registry.nextId ≤ i) : o = none := by
  cases o with
  | none => rfl
  | some phase =>
      obtain ⟨t, ht⟩ := ho
      cases parts_idle_of_unused h hi t (mem_parts_executor.mpr ht)

section Executors

variable {setup : Setup T} {s : Config T (DispatcherMem Q) (ThreadLoc Q)} {i : ℕ} {t u : T}
  {a b : ExecutorPhase (Publication E)}

/-- There is one executor only. -/
theorem ThreadInv.executor_unique (hinv : ThreadInv setup s)
    (ha : .executor i a ∈ (s.loc t).stack) (hb : .executor i b ∈ (s.loc u).stack) :
    t = u ∧ a = b := by
  have hta := (hinv.placed t (.executor i a) ha).1
  have hub := (hinv.placed u (.executor i b) hb).1
  obtain rfl : t = u := Option.some.inj (hta.symm.trans hub)
  have heq := (hinv.bottomed t).eq_of_base ha hb rfl rfl
  cases heq
  exact ⟨rfl, rfl⟩

/-- A subscriber has one executor at most. -/
theorem Runs.unique (hinv : ThreadInv setup s) {o o' : Option (ExecutorPhase (Publication E))}
    (h : Runs i s o) (h' : Runs i s o') : o = o' := by
  cases o with
  | none =>
      cases o' with
      | none => rfl
      | some b =>
          obtain ⟨u, hb⟩ := h'
          exact absurd hb (h u b)
  | some a =>
      obtain ⟨t, ha⟩ := h
      cases o' with
      | none => exact absurd ha (h' t a)
      | some b =>
          obtain ⟨u, hb⟩ := h'
          rw [(hinv.executor_unique ha hb).2]

/-- An executor frame on top has nothing below it. -/
theorem ThreadInv.rest_eq_nil (hinv : ThreadInv setup s) {rest : List (Part E)}
    (h : parts i (s.loc t).stack = .executor a :: rest) : rest = [] := by
  cases hstack : (s.loc t).stack with
  | nil =>
      rw [hstack] at h
      cases h
  | cons f below =>
      rw [hstack] at h
      obtain ⟨hf, hrest⟩ := List.cons.inj h
      have hbottom := hinv.bottomed t
      rw [hstack] at hbottom
      have hbelow := hbottom.1 (by rw [part_executor_iff.mp hf]; rfl)
      rw [← hrest, hbelow]
      rfl

variable [DecidableEq T] {m : DispatcherMem Q} {l : ThreadLoc Q}

/-- The executor frames of the other threads stay. -/
theorem mem_of_update {phase : ExecutorPhase (Publication E)} {p p' : Part E}
    (hreplaced : Replaced p p' (parts i (s.loc t).stack) (parts i l.stack))
    (hp' : ∀ phase, p' ≠ .executor phase)
    (h : .executor i phase ∈ (Function.update s.loc t l u).stack) :
    .executor i phase ∈ (s.loc u).stack := by
  by_cases hut : u = t
  · subst hut
    rw [Function.update_self] at h
    rcases hreplaced.mem_after (mem_parts_executor.mpr h) with heq | hmem
    · exact absurd heq.symm (hp' phase)
    · exact mem_parts_executor.mp hmem
  · rwa [Function.update_of_ne hut] at h

/-- An executor that does not move stays where it is. -/
theorem mem_update_of_mem {phase : ExecutorPhase (Publication E)} {p p' : Part E}
    (hreplaced : Replaced p p' (parts i (s.loc t).stack) (parts i l.stack))
    (hp : ∀ phase, p ≠ .executor phase) (h : .executor i phase ∈ (s.loc u).stack) :
    .executor i phase ∈ (Function.update s.loc t l u).stack := by
  by_cases hut : u = t
  · subst hut
    rw [Function.update_self]
    rcases hreplaced.symm.mem_after (mem_parts_executor.mpr h) with heq | hmem
    · exact absurd heq.symm (hp phase)
    · exact mem_parts_executor.mp hmem
  · rwa [Function.update_of_ne hut]

/-- **Step lemma**: the executor before a step, from the executor after it. -/
theorem executorMove_of_partStep {flag : Bool} {next : ℕ} {finished : Finset T} {p p' : Part E}
    (hinv : ThreadInv setup s) (hinv' : ThreadInv setup ⟨m, Function.update s.loc t l⟩)
    (hok : ∀ p ∈ parts i (s.loc t).stack, PartOk (s.mem.subs i) p)
    (hpart : PartStep flag t next i finished (s.mem.subs i) p (m.subs i) p')
    (hreplaced : Replaced p p' (parts i (s.loc t).stack) (parts i l.stack))
    {o' : Option (ExecutorPhase (Publication E))}
    (ho' : Runs i ⟨m, Function.update s.loc t l⟩ o') :
    ∃ o, Runs i s o ∧ ExecutorMove flag t next i finished (s.mem.subs i) o (m.subs i) o' := by
  have hbefore : ∀ phase, p = .executor phase → Runs i s (some phase) := by
    rintro phase rfl
    exact ⟨t, mem_parts_executor.mp (hreplaced.mem_of_ne (by simp))⟩
  have hafter : ∀ phase, p' = .executor phase →
      Runs i ⟨m, Function.update s.loc t l⟩ (some phase) := by
    rintro phase rfl
    refine ⟨t, ?_⟩
    simp only [Function.update_self]
    exact mem_parts_executor.mp (hreplaced.symm.mem_of_ne (by simp))
  have hother : (∀ phase, p ≠ .executor phase) → (∀ phase, p' ≠ .executor phase) →
      ∃ o, Runs i s o ∧ ExecutorMove flag t next i finished (s.mem.subs i) o (m.subs i) o' := by
    intro hp hp'
    refine ⟨o', ?_, .other hpart ?_ hp hp'⟩
    · cases o' with
      | none => exact fun u phase hmem => ho' u phase (mem_update_of_mem hreplaced hp hmem)
      | some phase =>
          obtain ⟨u, hu⟩ := ho'
          exact ⟨u, mem_of_update hreplaced hp' hu⟩
    · by_cases hidle : p = .idle
      · subst hidle
        trivial
      · exact hok p (hreplaced.mem_of_ne hidle)
  generalize m.subs i = s' at hpart hother ⊢
  cases hpart with
  | executor hstep =>
      obtain rfl := ho'.unique hinv' (hafter _ rfl)
      exact ⟨_, hbefore _ rfl, .step hstep⟩
  | finishExecutor event previous threw =>
      obtain rfl := ho'.unique hinv' (hafter _ rfl)
      exact ⟨_, hbefore _ rfl, .finish event previous threw⟩
  | handled =>
      obtain rfl := ho'.unique hinv' (hafter _ rfl)
      exact ⟨_, hbefore _ rfl, .handled⟩
  | executorDone =>
      refine ⟨_, hbefore _ rfl, ?_⟩
      have hgone : Runs i ⟨m, Function.update s.loc t l⟩ none := by
        intro u phase hmem
        have hdone := mem_parts_executor.mp (hreplaced.mem_of_ne (by simp))
        obtain ⟨rfl, rfl⟩ := hinv.executor_unique hdone (mem_of_update hreplaced (by simp) hmem)
        -- it was on top, and nothing was below it
        obtain ⟨rest, hbefore | ⟨hidle, _⟩, hafter⟩ := hreplaced
        · rw [hinv.rest_eq_nil hbefore] at hafter
          simp only [Function.update_self] at hmem
          have hmem := mem_parts_executor.mpr hmem
          rcases hafter with hafter | ⟨_, hafter⟩ <;> simp [hafter] at hmem
        · cases hidle
      obtain rfl := ho'.unique hinv' hgone
      exact .done
  | startThread =>
      obtain rfl := ho'.unique hinv' (hafter _ rfl)
      refine ⟨none, ?_, .start⟩
      intro u phase hmem
      have hnew := mem_parts_executor.mp (hreplaced.symm.mem_of_ne (by simp))
      have hold := mem_update_of_mem hreplaced (by simp) hmem
      have hnew' : .executor i .lockMailbox ∈ (Function.update s.loc t l t).stack := by
        rw [Function.update_self]
        exact hnew
      obtain ⟨rfl, _⟩ := hinv'.executor_unique hnew' hold
      -- it is on top, and nothing is below it
      obtain ⟨rest, hbefore, hafter | ⟨hidle, _⟩⟩ := hreplaced
      · have hparts : parts i (Function.update s.loc t l t).stack =
            .executor .lockMailbox :: rest := by
          rw [Function.update_self]
          exact hafter
        rw [hinv'.rest_eq_nil hparts] at hbefore
        have hmem := mem_parts_executor.mpr hmem
        rcases hbefore with hbefore | ⟨_, hbefore⟩ <;> simp [hbefore] at hmem
      · cases hidle
  | _ => exact hother (by simp) (by simp)

end Executors

section Run

variable [DecidableEq T] {setup : Setup T}
  {ok : Config T (DispatcherMem Q) (ThreadLoc Q) → T × DispatcherChoice Q → Prop}

/-- **Run lemma.** -/
theorem partOk_reach : ∀ s, (system setup Q).Reach ok s →
    ∀ i t, ∀ p ∈ parts i (s.loc t).stack, PartOk (s.mem.subs i) p := by
  refine interleave_invariant ?_ ?_
  · rintro s rfl i t p hp
    simp only [started] at hp
    split at hp
    · obtain rfl : p = .idle := by simpa [parts, Frame.part] using hp
      trivial
    · cases hp
  · intro s t c m l hreach hinv _ hstep i
    have hallotted := allotted_reach s hreach
    obtain ⟨p, p', hpart, hreplaced⟩ := (step_shape hstep).partStep hallotted.mem i
    -- the parts of the frames that do not move
    have hkeep : ∀ u, ∀ r ∈ parts i (s.loc u).stack, PartOk (m.subs i) r := by
      intro u r hr
      rcases hpart.options_eq with hoptions | hnext
      · exact (hinv i u r hr).mono hoptions
      · rw [parts_idle_of_unused hallotted hnext.ge u hr]
        trivial
    have hp : PartOk (s.mem.subs i) p := by
      by_cases hidle : p = .idle
      · subst hidle
        trivial
      · exact hinv i t p (hreplaced.mem_of_ne hidle)
    refine (Function.forall_update_iff s.loc fun _ l =>
      ∀ p ∈ parts i l.stack, PartOk (m.subs i) p).mpr ⟨?_, fun u _ => hkeep u⟩
    intro r hr
    rcases hreplaced.mem_after hr with rfl | hr
    · exact hpart.partOk hp
    · exact hkeep t r hr

/-- **Invariant rule** for a subscriber and the phase of its executor. -/
theorem executor_invariant [Fintype T]
    {I : ℕ → SubscriberState T (Publication E) → Option (ExecutorPhase (Publication E)) → Prop}
    (hinit : ∀ i, I i { options := {} } none)
    (hstep : ∀ (s : Config T (DispatcherMem Q) (ThreadLoc Q)) t c i o s' o',
      (system setup Q).Reach ok s → ok s (t, c) → Runs i s o → I i (s.mem.subs i) o →
      ExecutorMove c.flag t s.mem.registry.nextId i s.mem.threads.finished (s.mem.subs i) o s' o' →
      I i s' o') :
    ∀ s, (system setup Q).Reach ok s → ∀ i o, Runs i s o → I i (s.mem.subs i) o := by
  refine interleave_invariant ?_ ?_
  · rintro s rfl i o ho
    cases o with
    | none => exact hinit i
    | some phase =>
        obtain ⟨t, ht⟩ := ho
        simp only [started] at ht
        split at ht <;> simp at ht
  · intro s t c m l hreach hinv hok hprog i o' ho'
    have hreach' : (system setup Q).Reach ok ⟨m, Function.update s.loc t l⟩ :=
      .step hreach hok (by simp only [system, interleave, Config.step, hprog]; rfl)
    obtain ⟨p, p', hpart, hreplaced⟩ :=
      (step_shape hprog).partStep (allotted_reach s hreach).mem i
    obtain ⟨o, ho, hmove⟩ := executorMove_of_partStep (threadInv_reach s hreach)
      (threadInv_reach _ hreach') (partOk_reach s hreach i t) hpart hreplaced ho'
    exact hstep s t c i o _ o' hreach hok ho (hinv i o ho) hmove

end Run

end Dispatcher

end EventDispatcher
