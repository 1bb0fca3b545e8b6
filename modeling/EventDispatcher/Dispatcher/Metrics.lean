import EventDispatcher.Dispatcher.SubscriberView
import EventDispatcher.Dispatcher.QueuePolicies

/-!
# The metrics of a subscription

An event that has been offered is counted as delivered, dropped or rejected once, whatever
happens to it: until then it is in the mailbox or some frame has it (`Part.unrecorded`).
The counters wrap, so their balance is an equation in `UInt64`; `deliveries`, `errors` and
`slows` are the same counts without the wrapping.
-/

namespace EventDispatcher

open Transition SubscriberState

variable {T E : Type} {Q : QueuePolicy T (Publication E)}

/-- The outcome of the delivery has not been counted yet. -/
def CallbackPhase.unrecorded : CallbackPhase → ℕ
  | .countSlow _ => 0
  | .finish _ => 0
  | .notifyIdle _ => 0
  | .done _ => 0
  | _ => 1

/-- The event that `try_invoke` has offered and not counted any further. -/
def InvokePhase.unrecorded : InvokePhase → ℕ
  | .offer => 0
  | .notifyReady => 0
  | .done _ => 0
  | .callback phase => phase.unrecorded
  | _ => 1

/-- The event that an executor has taken and not counted any further. -/
def ExecutorPhase.unrecorded {E : Type} : ExecutorPhase E → ℕ
  | .notifySpace _ => 1
  | .begin _ => 1
  | .drop => 1
  | .callback _ phase => phase.unrecorded
  | _ => 0

/-- The event that a part has in its hands. -/
def Part.unrecorded : Part E → ℕ
  | .invoke _ phase => phase.unrecorded
  | .executor phase => phase.unrecorded
  | _ => 0

/-- The error has been counted, the delivery has not. -/
def CallbackPhase.erring : CallbackPhase → ℕ
  | .leave _ true => 1
  | .countDelivered true => 1
  | _ => 0

/-- The delivery has been counted, its slowness has not. -/
def CallbackPhase.slowing : CallbackPhase → ℕ
  | .countSlow _ => 1
  | _ => 0

/-- The callback that the part is inside, weighed. -/
def Part.callback (w : CallbackPhase → ℕ) : Part E → ℕ
  | .invoke _ (.callback phase) => w phase
  | .executor (.callback _ phase) => w phase
  | _ => 0

/-- What has been offered and is not counted and not in the mailbox. -/
def SubscriberState.missing (s : SubscriberState T E) : UInt64 :=
  s.metrics.offered - s.metrics.delivered - s.metrics.dropped - s.metrics.rejected -
    UInt64.ofNat s.mailbox.length

/-- The step makes up for the change of what the moving part has. -/
def Balanced (s s' : SubscriberState T E) (before after : ℕ) : Prop :=
  s'.missing + UInt64.ofNat before = s.missing + UInt64.ofNat after

namespace SubscriberState

variable (s : SubscriberState T E)

/-- An event is counted as offered, and is in the hands of the thread. -/
theorem balanced_countOffered : Balanced s s.countOffered 0 1 := by
  simp only [Balanced, missing, countOffered_metrics_offered, countOffered_metrics_delivered,
    countOffered_metrics_dropped, countOffered_metrics_rejected, countOffered_mailbox]
  grind

/-- The event in hand is counted as delivered. -/
theorem balanced_countDelivered : Balanced s s.countDelivered 1 0 := by
  simp only [Balanced, missing, countDelivered_metrics_offered, countDelivered_metrics_delivered,
    countDelivered_metrics_dropped, countDelivered_metrics_rejected, countDelivered_mailbox]
  grind

/-- The event in hand is counted as rejected. -/
theorem balanced_countRejected : Balanced s s.countRejected 1 0 := by
  simp only [Balanced, missing, countRejected_metrics_offered, countRejected_metrics_delivered,
    countRejected_metrics_dropped, countRejected_metrics_rejected, countRejected_mailbox]
  grind

/-- The event in hand is counted as dropped. -/
theorem balanced_countDropped : Balanced s (s.countDropped 1) 1 0 := by
  simp only [Balanced, missing, countDropped_metrics_offered, countDropped_metrics_delivered,
    countDropped_metrics_dropped, countDropped_metrics_rejected, countDropped_mailbox]
  grind

/-- The event in hand goes into the mailbox. -/
theorem balanced_mail (event : E) : Balanced s (s.mail event) 1 0 := by
  simp only [Balanced, missing, mail_metrics, mail_mailbox, List.length_append,
    List.length_singleton, UInt64.ofNat_add]
  grind

/-- The executor takes an event out of the mailbox. -/
theorem balanced_take {event : E} {rest : List E} (h : s.mailbox = event :: rest) :
    Balanced s { s with mailbox := rest } 0 1 := by
  simp only [Balanced, missing, h, List.length_cons, UInt64.ofNat_add]
  grind

/-- What `stop_delivery` cancels is counted as dropped. -/
theorem balanced_stopMailbox (drain : Bool) : Balanced s (s.stopMailbox drain) 0 0 := by
  unfold stopMailbox
  split
  · rfl
  · simp only [Balanced, missing, countDropped_metrics_offered, countDropped_metrics_delivered,
      countDropped_metrics_dropped, countDropped_metrics_rejected, List.length_nil]
    grind

end SubscriberState

/-- The counters are the counts modulo `2 ^ 64`. -/
structure Wrapped (s : SubscriberState T E) : Prop where
  delivered : s.metrics.delivered = UInt64.ofNat s.deliveries
  callbackErrors : s.metrics.callbackErrors = UInt64.ofNat s.errors
  slowCallbacks : s.metrics.slowCallbacks = UInt64.ofNat s.slows

/-- What a step does to the counters while the weights of the moving part change. -/
structure Counted (s s' : SubscriberState T E) (unrecorded unrecorded' erring erring' slowing
    slowing' : ℕ) : Prop where
  balanced : Balanced s s' unrecorded unrecorded'
  wrapped : Wrapped s → Wrapped s'
  errors : s'.errors + s.deliveries + erring ≤ s.errors + s'.deliveries + erring'
  slows : s'.slows + s.deliveries + slowing' ≤ s.slows + s'.deliveries + slowing

/-- A step outside the callback. -/
theorem Counted.of_balanced {s s' : SubscriberState T E} {n n' : ℕ} (hbalanced : Balanced s s' n n')
    (hwrapped : Wrapped s → Wrapped s') (hdeliveries : s'.deliveries = s.deliveries)
    (herrors : s'.errors = s.errors) (hslows : s'.slows = s.slows) :
    Counted s s' n n' 0 0 0 0 :=
  ⟨hbalanced, hwrapped, by omega, by omega⟩

section Steps

variable [DecidableEq T] {s s' : SubscriberState T E} {contexts contexts' : Contexts}
  {flag : Bool} {t : T} {i : ℕ} {event : E}

omit [DecidableEq T] in
/-- **Step lemma**, for a callback. -/
theorem CallbackStep.counted {phase phase' : CallbackPhase}
    (h : CallbackStep i s contexts event phase s' contexts' phase') :
    Counted s s' phase.unrecorded phase'.unrecorded phase.erring phase'.erring phase.slowing
      phase'.slowing := by
  cases h with
  | countError previous =>
      refine ⟨rfl, ?_, ?_, le_rfl⟩
      · intro h
        exact ⟨h.delivered, by simp [h.callbackErrors, UInt64.ofNat_add], h.slowCallbacks⟩
      · simp only [CallbackPhase.erring, countError_errors, countError_deliveries]
        omega
  | countDelivered threw | countDeliveredSlow threw =>
      refine ⟨?_, ?_, ?_, ?_⟩
      · exact balanced_countDelivered s
      · intro h
        exact ⟨by simp [h.delivered, UInt64.ofNat_add], h.callbackErrors, h.slowCallbacks⟩
      · cases threw <;> simp only [CallbackPhase.erring, countDelivered_errors,
          countDelivered_deliveries] <;> omega
      · simp only [CallbackPhase.slowing, countDelivered_slows, countDelivered_deliveries]
        omega
  | countSlow threw =>
      refine ⟨rfl, ?_, le_rfl, ?_⟩
      · intro h
        exact ⟨h.delivered, h.callbackErrors, by simp [h.slowCallbacks, UInt64.ofNat_add]⟩
      · simp only [CallbackPhase.slowing, countSlow_slows, countSlow_deliveries]
        omega
  | leave previous threw => cases threw <;> exact ⟨rfl, id, le_rfl, le_rfl⟩
  | _ => exact ⟨rfl, fun h => ⟨h.1, h.2, h.3⟩, le_rfl, le_rfl⟩

end Steps

section Parts

variable [DecidableEq T] {s s' : SubscriberState T (Publication E)} {contexts contexts' : Contexts}
  {flag : Bool} {t : T} {i : ℕ} {event : Publication E}

/-- The weights of a part change by a step as its counters do. -/
def PartCounted (s s' : SubscriberState T (Publication E)) (p p' : Part E) : Prop :=
  Counted s s' p.unrecorded p'.unrecorded (p.callback CallbackPhase.erring)
    (p'.callback CallbackPhase.erring) (p.callback CallbackPhase.slowing)
    (p'.callback CallbackPhase.slowing)

/-- **Step lemma**, for `try_invoke`. -/
theorem InvokeStep.counted {phase phase' : InvokePhase}
    (h : InvokeStep flag t i s contexts event phase s' contexts' phase') :
    PartCounted s s' (.invoke event phase) (.invoke event phase') := by
  cases h with
  | callback hstep => exact hstep.counted
  | offerMailbox | offerDirect =>
      exact .of_balanced (balanced_countOffered s) (fun h => ⟨h.1, h.2, h.3⟩) rfl rfl rfl
  | overflow hphase =>
      rcases hphase with rfl | ⟨rfl, _⟩ <;>
        exact .of_balanced (balanced_countDropped s) (fun h => ⟨h.1, h.2, h.3⟩) rfl rfl rfl
  | refused hphase | copyThrew hphase =>
      rcases hphase with rfl | ⟨rfl, _⟩ <;>
        exact .of_balanced (balanced_countRejected s) (fun h => ⟨h.1, h.2, h.3⟩) rfl rfl rfl
  | reject =>
      exact .of_balanced (balanced_countRejected s) (fun h => ⟨h.1, h.2, h.3⟩) rfl rfl rfl
  | mail hphase =>
      rcases hphase with rfl | ⟨rfl, _⟩ <;>
        exact .of_balanced (balanced_mail s event) (fun h => ⟨h.1, h.2, h.3⟩) rfl rfl rfl
  | park hphase =>
      rcases hphase with rfl | ⟨rfl, _⟩ <;>
        exact .of_balanced rfl (fun h => ⟨h.1, h.2, h.3⟩) rfl rfl rfl
  | _ => exact .of_balanced rfl (fun h => ⟨h.1, h.2, h.3⟩) rfl rfl rfl

/-- **Step lemma**, for an executor. -/
theorem ExecutorStep.counted {phase phase' : ExecutorPhase (Publication E)}
    (h : ExecutorStep t i s contexts phase s' contexts' phase') :
    PartCounted s s' (.executor phase) (.executor phase') := by
  cases h with
  | callback hstep => exact hstep.counted
  | take hmailbox =>
      exact .of_balanced (balanced_take s hmailbox) (fun h => ⟨h.1, h.2, h.3⟩) rfl rfl rfl
  | drop =>
      exact .of_balanced (balanced_countDropped s) (fun h => ⟨h.1, h.2, h.3⟩) rfl rfl rfl
  | _ => exact .of_balanced rfl (fun h => ⟨h.1, h.2, h.3⟩) rfl rfl rfl

omit [DecidableEq T] in
/-- **Step lemma**, for `stop_delivery`. -/
theorem StopStep.counted {finished : Finset T} {drain : Bool} {phase phase' : StopPhase}
    (h : StopStep t s finished drain phase s' phase') :
    PartCounted s s' (.stop drain phase) (.stop drain phase') := by
  cases h with
  | stopMailbox =>
      refine .of_balanced (balanced_stopMailbox s drain) ?_ ?_ ?_ ?_ <;>
        unfold SubscriberState.stopMailbox <;> split <;>
        first | rfl | exact fun h => ⟨h.1, h.2, h.3⟩
  | _ => exact .of_balanced rfl (fun h => ⟨h.1, h.2, h.3⟩) rfl rfl rfl

/-- **Step lemma.** -/
theorem PartStep.counted {next : ℕ} {finished : Finset T} {p p' : Part E}
    (h : PartStep flag t next i finished s p s' p') : PartCounted s s' p p' := by
  cases h with
  | invoke hstep => exact hstep.counted
  | executor hstep => exact hstep.counted
  | stop hstep => exact hstep.counted
  | construct options hnext hfresh =>
      subst hfresh
      exact .of_balanced rfl (fun h => ⟨h.1, h.2, h.3⟩) rfl rfl rfl
  | finishInvoke event previous threw | finishExecutor event previous threw =>
      cases threw <;> exact .of_balanced rfl (fun h => ⟨h.1, h.2, h.3⟩) rfl rfl rfl
  | _ => exact .of_balanced rfl (fun h => ⟨h.1, h.2, h.3⟩) rfl rfl rfl

end Parts

namespace Dispatcher

variable [Fintype T]

/-- The deliveries of subscriber `i` that a worker or the executor holds: taken, and the
outcome not recorded. -/
def inProgress (i : ℕ) (s : Config T (DispatcherMem Q) (ThreadLoc Q)) : ℕ :=
  tally (partSum Part.unrecorded i) s.loc

/-- The balance of the counters of subscriber `i`. -/
structure MetricInv (i : ℕ) (s : Config T (DispatcherMem Q) (ThreadLoc Q)) : Prop where
  missing : (s.mem.subs i).missing = UInt64.ofNat (inProgress i s)
  wrapped : Wrapped (s.mem.subs i)
  errors : (s.mem.subs i).errors ≤
    (s.mem.subs i).deliveries + tally (partSum (Part.callback CallbackPhase.erring) i) s.loc
  slows : (s.mem.subs i).slows + tally (partSum (Part.callback CallbackPhase.slowing) i) s.loc ≤
    (s.mem.subs i).deliveries

variable [DecidableEq T] {setup : Setup T}

/-- **Run lemma.** -/
theorem metricInv_reach
    {ok : Config T (DispatcherMem Q) (ThreadLoc Q) → T × DispatcherChoice Q → Prop} :
    ∀ s, (system setup Q).Reach ok s → ∀ i, MetricInv i s := by
  refine interleave_invariant ?_ ?_
  · rintro s rfl i
    refine ⟨?_, ⟨rfl, rfl, rfl⟩, Nat.zero_le _, ?_⟩
    · rw [inProgress, tally_partSum_started _ rfl]
      simp [started, SubscriberState.missing]
    · rw [tally_partSum_started _ rfl]
      exact Nat.zero_le _
  · intro s t c m l hreach hinv _ hstep i
    obtain ⟨p, p', hpart, hreplaced⟩ :=
      (step_shape hstep).partStep (allotted_reach s hreach).mem i
    have hcounted := hpart.counted
    obtain ⟨hmissing, hwrapped, herrors, hslows⟩ := hinv i
    have hunrecorded := tally_partSum hreplaced Part.unrecorded rfl
    have herring := tally_partSum hreplaced (Part.callback CallbackPhase.erring) rfl
    have hslowing := tally_partSum hreplaced (Part.callback CallbackPhase.slowing) rfl
    have herrors' := hcounted.errors
    have hslows' := hcounted.slows
    refine ⟨?_, hcounted.wrapped hwrapped, by simp only; omega, by simp only; omega⟩
    have hbalanced := hcounted.balanced
    rw [Balanced, hmissing, ← UInt64.ofNat_add, inProgress, ← hunrecorded, UInt64.ofNat_add] at hbalanced
    rw [inProgress]
    exact UInt64.add_left_inj _ |>.mp hbalanced

/-- The counters of subscriber `i` agree in the state `s`. -/
structure MetricsConserved (i : ℕ) (s : Config T (DispatcherMem Q) (ThreadLoc Q)) : Prop where
  /-- every event offered is counted, or in the mailbox, or held; modulo `2 ^ 64` -/
  offered : (s.mem.subs i).metrics.offered =
    (s.mem.subs i).metrics.delivered + (s.mem.subs i).metrics.dropped +
      (s.mem.subs i).metrics.rejected + UInt64.ofNat (s.mem.subs i).mailbox.length +
      UInt64.ofNat (inProgress i s)
  settled : inProgress i s = 0 → (s.mem.subs i).mailbox = [] →
    (s.mem.subs i).metrics.offered = (s.mem.subs i).metrics.delivered +
      (s.mem.subs i).metrics.dropped + (s.mem.subs i).metrics.rejected
  /-- three of the counters are these counts, modulo `2 ^ 64` -/
  wrapped : Wrapped (s.mem.subs i)
  errors : inProgress i s = 0 → (s.mem.subs i).errors ≤ (s.mem.subs i).deliveries
  slows : (s.mem.subs i).slows ≤ (s.mem.subs i).deliveries
  /-- as long as `delivered` has not wrapped, the counters compare as the counts do -/
  unwrapped : inProgress i s = 0 → (s.mem.subs i).deliveries < 2 ^ 64 →
    (s.mem.subs i).metrics.callbackErrors ≤ (s.mem.subs i).metrics.delivered ∧
      (s.mem.subs i).metrics.slowCallbacks ≤ (s.mem.subs i).metrics.delivered

omit [Fintype T] [DecidableEq T] in
/-- An error about to be counted belongs to an event in hand. -/
theorem erring_le_unrecorded (p : Part E) :
    p.callback CallbackPhase.erring ≤ p.unrecorded := by
  have hphase : ∀ phase : CallbackPhase, phase.erring ≤ phase.unrecorded := by
    intro phase
    cases phase with
    | leave previous threw | countDelivered threw => cases threw <;> simp [CallbackPhase.erring, CallbackPhase.unrecorded]
    | _ => simp [CallbackPhase.erring]
  cases p with
  | invoke event phase =>
      cases phase with
      | callback phase => exact hphase phase
      | _ => exact Nat.zero_le _
  | executor phase =>
      cases phase with
      | callback event phase => exact hphase phase
      | _ => exact Nat.zero_le _
  | _ => exact Nat.zero_le _

/-- A count below `2 ^ 64` is not smaller than the wrapped one of a smaller count. -/
theorem ofNat_le_ofNat {m n : ℕ} (h : m ≤ n) (hn : n < 2 ^ 64) :
    UInt64.ofNat m ≤ UInt64.ofNat n := by
  rw [UInt64.le_iff_toNat_le, UInt64.toNat_ofNat_of_lt' hn,
    UInt64.toNat_ofNat_of_lt' (h.trans_lt hn)]
  exact h

/-- **Conservation of the metrics**, in every reachable state and for every subscriber. -/
theorem metrics_conserved (setup : Setup T) (Q : QueuePolicy T (Publication E)) :
    ∀ s, (system setup Q).Reachable s → ∀ i, MetricsConserved i s := by
  intro s hs i
  obtain ⟨hmissing, hwrapped, herrors, hslows⟩ := metricInv_reach s hs i
  have herring : tally (partSum (Part.callback CallbackPhase.erring) i) s.loc ≤ inProgress i s :=
    tally_partSum_mono erring_le_unrecorded i s.loc
  have hoffered : (s.mem.subs i).metrics.offered =
      (s.mem.subs i).metrics.delivered + (s.mem.subs i).metrics.dropped +
        (s.mem.subs i).metrics.rejected + UInt64.ofNat (s.mem.subs i).mailbox.length +
        UInt64.ofNat (inProgress i s) := by
    rw [← hmissing, SubscriberState.missing]
    grind
  have herrors' : inProgress i s = 0 → (s.mem.subs i).errors ≤ (s.mem.subs i).deliveries := by
    intro hnone
    omega
  have hslows' : (s.mem.subs i).slows ≤ (s.mem.subs i).deliveries := by omega
  refine ⟨hoffered, ?_, hwrapped, herrors', hslows', ?_⟩
  · intro hnone hempty
    rw [hoffered, hnone, hempty]
    simp
  · intro hnone hbound
    rw [hwrapped.delivered, hwrapped.callbackErrors, hwrapped.slowCallbacks]
    exact ⟨ofNat_le_ofNat (herrors' hnone) hbound, ofNat_le_ofNat hslows' hbound⟩

/-- The executor has an event in its callback and another is in the mailbox. -/
theorem metrics_conserved_in_callback :
    ∃ s, (system smallSetup (mutexPolicy (Fin 3) (Publication ℕ) 2)).Reachable s ∧
      MetricsConserved 1 s ∧ inProgress 1 s = 1 ∧ (s.mem.subs 1).mailbox.length = 1 ∧
      (s.mem.subs 1).metrics.offered = 2 := by
  obtain ⟨s, hs, hp⟩ := System.exists_reach_of_run
    (system smallSetup (mutexPolicy (Fin 3) (Publication ℕ) 2)) (fun _ _ => True)
    (fun _ _ => true) (s := started smallSetup _) rfl
    (List.flatten [[(1, .constructed)], subscribing { delivery := .isolated }, publishing 5,
      publishing 6, working 8, [(2, .start)], advance 2 4, working 8])
    (fun s => inProgress 1 s = 1 && (s.mem.subs 1).mailbox.length = 1 &&
      (s.mem.subs 1).metrics.offered = 2) (by simp) (by decide +kernel)
  simp only [Bool.and_eq_true, decide_eq_true_eq] at hp
  exact ⟨s, hs, metrics_conserved _ _ s hs 1, hp.1.1, hp.1.2, hp.2⟩

end Dispatcher

end EventDispatcher
