import EventDispatcher.Dispatcher.ExecutorView
import EventDispatcher.Dispatcher.MailboxWakeups

/-!
# The order of isolated delivery

What an isolated subscriber has accepted is what its callback has received, then the event
its executor has taken, then the mailbox (`FifoAt.intact`).  Two things break this: a
`stop_delivery(false)` clears the mailbox, which does not accept any more, and an executor
that finds the subscriber inactive drops the event it has taken, and calls the callback
never again.  In both cases the events received are still a prefix of those accepted.
-/

namespace EventDispatcher

open Transition SubscriberState

variable {T E : Type} {Q : QueuePolicy T (Publication E)}

/-- The event that the executor has taken and not passed to the callback. -/
def carried : Option (ExecutorPhase (Publication E)) → List (Publication E)
  | some (.notifySpace event) => [event]
  | some (.begin event) => [event]
  | some (.callback event .enter) => [event]
  | _ => []

/-- The events of an isolated subscriber with its executor in phase `o`. -/
inductive FifoAt (s : SubscriberState T (Publication E))
    (o : Option (ExecutorPhase (Publication E))) : Prop
  | intact (hmailed : s.mailed = s.received ++ carried o ++ s.mailbox)
  | cleared (hmailbox : s.mailbox = []) (hclosed : s.mailboxAccepting = false)
      (hstopped : s.drainMailbox = false) (hinitial : s.received ++ carried o <+: s.mailed)
  | dead (hinactive : s.active = false) (hgranted : ∀ event, o ≠ some (.callback event .enter))
      (hinitial : s.received <+: s.mailed)

namespace FifoAt

variable {s s' : SubscriberState T (Publication E)}
  {o o' : Option (ExecutorPhase (Publication E))}

theorem received_in_order (h : FifoAt s o) : s.received <+: s.mailed := by
  cases h with
  | intact hmailed =>
      rw [hmailed, List.append_assoc]
      exact List.prefix_append _ _
  | cleared hmailbox hclosed hstopped hinitial => exact (List.prefix_append _ _).trans hinitial
  | dead hinactive hgranted hinitial => exact hinitial

/-- A step that moves no event. -/
theorem of_same (h : FifoAt s o) (hmailed : s'.mailed = s.mailed)
    (hreceived : s'.received = s.received) (hmailbox : s'.mailbox = s.mailbox)
    (hclosed : s.mailboxAccepting = false → s'.mailboxAccepting = false)
    (hstopped : s.drainMailbox = false → s'.drainMailbox = false)
    (hactive : s.active = false → s'.active = false) (hcarried : carried o' = carried o)
    (hgranted : s.active = false → (∀ event, o ≠ some (.callback event .enter)) →
      ∀ event, o' ≠ some (.callback event .enter)) : FifoAt s' o' := by
  cases h with
  | intact h => exact .intact (by rw [hmailed, hreceived, hmailbox, hcarried, h])
  | cleared h hclosed' hstopped' hinitial =>
      refine .cleared (by rw [hmailbox, h]) (hclosed hclosed') (hstopped hstopped') ?_
      rw [hmailed, hreceived, hcarried]
      exact hinitial
  | dead hinactive hnever hinitial =>
      refine .dead (hactive hinactive) (hgranted hinactive hnever) ?_
      rw [hmailed, hreceived]
      exact hinitial

end FifoAt

section Steps

variable [DecidableEq T] {flag : Bool} {t : T} {next i : ℕ} {finished : Finset T}
  {s s' : SubscriberState T (Publication E)} {contexts contexts' : Contexts}
  {o o' : Option (ExecutorPhase (Publication E))}

/-- Workers only put events into the mailbox. -/
theorem InvokeStep.fifoAt {event : Publication E} {phase phase' : InvokePhase}
    (h : InvokeStep flag t i s contexts event phase s' contexts' phase')
    (hok : PartOk s (.invoke event phase)) (hisolated : s.options.delivery = .isolated)
    (hfifo : FifoAt s o) : FifoAt s' o := by
  cases h with
  | callback hstep => exact absurd hisolated (hok.2 rfl)
  | mail hphase haccepting hroom =>
      cases hfifo with
      | intact hmailed =>
          refine .intact ?_
          simp only [mail_mailed, mail_received, mail_mailbox, hmailed, List.append_assoc]
      | cleared hmailbox hclosed => cases haccepting.symm.trans hclosed
      | dead hinactive hgranted hinitial =>
          exact .dead hinactive hgranted (hinitial.trans (List.prefix_append _ _))
  | _ => exact hfifo.of_same rfl rfl rfl id id id rfl fun _ h => h

omit [DecidableEq T] in
theorem StopStep.fifoAt {drain : Bool} {phase phase' : StopPhase}
    (h : StopStep t s finished drain phase s' phase') (hfifo : FifoAt s o) : FifoAt s' o := by
  cases h with
  | stopMailbox =>
      cases drain with
      | true =>
          exact hfifo.of_same rfl rfl rfl (fun _ => rfl)
            (fun h => by simpa [SubscriberState.stopMailbox] using h) id rfl fun _ h => h
      | false =>
          have hinitial := hfifo.received_in_order
          cases hfifo with
          | intact hmailed =>
              refine .cleared rfl rfl (by simp [SubscriberState.stopMailbox]) ?_
              simp only [SubscriberState.stopMailbox, Bool.false_eq_true, if_false,
                countDropped_received, countDropped_mailed, hmailed]
              exact List.prefix_append _ _
          | cleared hmailbox hclosed hstopped hinitial' =>
              exact .cleared rfl rfl (by simp [SubscriberState.stopMailbox]) hinitial'
          | dead hinactive hgranted _ => exact .dead hinactive hgranted hinitial
  | _ => exact hfifo.of_same rfl rfl rfl id id id rfl fun _ h => h

/-- Only the executor passes events on. -/
theorem ExecutorStep.fifoAt {phase phase' : ExecutorPhase (Publication E)}
    (h : ExecutorStep t i s contexts phase s' contexts' phase') (hfifo : FifoAt s (some phase)) :
    FifoAt s' (some phase') := by
  cases h with
  | take hmailbox =>
      cases hfifo with
      | intact hmailed => exact .intact (by rw [hmailed, hmailbox]; simp [carried])
      | cleared hempty =>
          rw [hmailbox] at hempty
          cases hempty
      | dead hinactive hgranted hinitial => exact .dead hinactive (by simp) hinitial
  | grant event hactive =>
      refine hfifo.of_same rfl rfl rfl id id id rfl ?_
      intro hinactive
      cases hactive.symm.trans hinactive
  | miss event hinactive => exact .dead hinactive (by simp) hfifo.received_in_order
  | callback hstep =>
      cases hstep with
      | enter =>
          cases hfifo with
          | intact hmailed => exact .intact (by simpa [carried] using hmailed)
          | cleared hmailbox hclosed hstopped hinitial =>
              exact .cleared hmailbox hclosed hstopped (by simpa [carried] using hinitial)
          | dead hinactive hgranted => exact absurd rfl (hgranted _)
      | _ => exact hfifo.of_same rfl rfl rfl id id id rfl (by simp)
  | _ => exact hfifo.of_same rfl rfl rfl id id id rfl (by simp)

/-- **Step lemma.** -/
theorem ExecutorMove.fifoAt (h : ExecutorMove flag t next i finished s o s' o')
    (hunused : i = next → o = none) (hfifo : s.options.delivery = .isolated → FifoAt s o)
    (hisolated : s'.options.delivery = .isolated) : FifoAt s' o' := by
  cases h with
  | other hstep hok =>
      cases hstep with
      | construct options hnext =>
          rw [hunused hnext]
          exact .intact rfl
      | invoke hstep =>
          rw [hstep.options_eq] at hisolated
          exact hstep.fifoAt hok hisolated (hfifo hisolated)
      | stop hstep =>
          rw [hstep.options_eq] at hisolated
          exact hstep.fifoAt (hfifo hisolated)
      | executor | finishExecutor | handled | executorDone | startThread =>
          rename_i hp hp'
          first
            | exact absurd rfl (hp _)
            | exact absurd rfl (hp' _)
      | deactivate | deactivateAgain =>
          exact (hfifo hisolated).of_same rfl rfl rfl id id (fun _ => rfl) rfl fun _ h => h
      | _ => exact (hfifo hisolated).of_same rfl rfl rfl id id id rfl fun _ h => h
  | step hstep =>
      rw [hstep.options_eq] at hisolated
      exact hstep.fifoAt (hfifo hisolated)
  | finish event previous threw =>
      refine (hfifo hisolated).of_same rfl rfl rfl id id id ?_ ?_ <;> cases threw <;>
        simp [carried, Frame.afterCallback]
  | start | handled | done =>
      exact (hfifo hisolated).of_same rfl rfl rfl id id id rfl (by simp)

end Steps

namespace Dispatcher

variable [DecidableEq T] [Fintype T] {setup : Setup T}
  {ok : Config T (DispatcherMem Q) (ThreadLoc Q) → T × DispatcherChoice Q → Prop}

/-- **Run lemma.** -/
theorem fifoAt_reach : ∀ s, (system setup Q).Reach ok s → ∀ i o, Runs i s o →
    (s.mem.subs i).options.delivery = .isolated → FifoAt (s.mem.subs i) o := by
  refine executor_invariant (I := fun _ s o => s.options.delivery = .isolated → FifoAt s o) ?_ ?_
  · intro i _
    exact .intact rfl
  · intro s t c i o s' o' hreach _ hruns hfifo hmove
    exact hmove.fifoAt (fun hnext => hruns.none_of_unused (allotted_reach s hreach) hnext.ge) hfifo

/-- How many callbacks of subscriber `i` are executing. -/
def executing (i : ℕ) (s : Config T (DispatcherMem Q) (ThreadLoc Q)) : ℕ :=
  tally (fun l => l.stack.countP fun f => f.callback = some i) s.loc

omit [DecidableEq T] [Fintype T] in
/-- A callback is executing in a direct invocation or on the executor. -/
theorem callback_cases {f : Frame T E} {i : ℕ} (h : f.callback = some i) :
    (∃ event phase, f.part i = .invoke event (.callback phase)) ∨ ∃ phase, f = .executor i phase := by
  obtain ⟨⟨context, previous⟩, hscope, hi⟩ := Option.bind_eq_some_iff.mp h
  obtain rfl : context = some i := hi
  cases f with
  | worker phase =>
      cases phase with
      | invoke snapshot subs event events j phase =>
          obtain ⟨_, hphase, heq⟩ := Option.map_eq_some_iff.mp hscope
          cases heq
          cases phase with
          | callback phase => exact .inl ⟨event, phase, if_pos rfl⟩
          | _ => cases hphase
      | _ => cases hscope
  | executor j phase =>
      obtain ⟨_, hphase, heq⟩ := Option.map_eq_some_iff.mp hscope
      cases heq
      exact .inr ⟨phase, rfl⟩
  | invoke j event phase =>
      obtain ⟨_, hphase, heq⟩ := Option.map_eq_some_iff.mp hscope
      cases heq
      cases phase with
      | callback phase => exact .inl ⟨event, phase, if_pos rfl⟩
      | _ => cases hphase
  | foreign phase => cases phase <;> cases hscope
  | _ => cases hscope

omit [DecidableEq T] [Fintype T] in
theorem countP_base_le {stack : List (Frame T E)} (h : Bottomed stack) :
    stack.countP Frame.base ≤ 1 := by
  induction stack with
  | nil => simp
  | cons f rest ih =>
      cases hbase : f.base with
      | false => simpa [List.countP_cons, hbase] using ih h.2
      | true =>
          rw [h.1 hbase]
          simp [hbase]

/-- The callbacks of an isolated subscriber do not overlap. -/
theorem executing_le_one {s : Config T (DispatcherMem Q) (ThreadLoc Q)}
    (hs : (system setup Q).Reach ok s) {i : ℕ}
    (hisolated : (s.mem.subs i).options.delivery = .isolated) : executing i s ≤ 1 := by
  have hinv := threadInv_reach s hs
  have hexecutor : ∀ t, ∀ f ∈ (s.loc t).stack, f.callback = some i →
      ∃ phase, f = .executor i phase := by
    intro t f hf hcallback
    rcases callback_cases hcallback with ⟨event, phase, hpart⟩ | hexecutor
    · have hok := partOk_reach s hs i t (f.part i) (List.mem_map_of_mem hf)
      rw [hpart] at hok
      exact absurd hisolated (hok.2 rfl)
    · exact hexecutor
  have hone : ∀ t, (s.loc t).stack.countP (fun f => f.callback = some i) ≤ 1 := by
    intro t
    refine le_trans (List.countP_mono_left ?_) (countP_base_le (hinv.bottomed t))
    intro f hf hcallback
    obtain ⟨phase, rfl⟩ := hexecutor t f hf (by simpa using hcallback)
    rfl
  by_cases hsome : ∃ t, ∃ f ∈ (s.loc t).stack, f.callback = some i
  · obtain ⟨t, f, hf, hcallback⟩ := hsome
    obtain ⟨phase, rfl⟩ := hexecutor t f hf hcallback
    refine tally_le_card (S := {t}) hone ?_
    intro u hu
    rw [List.countP_eq_zero]
    intro g hg hgcallback
    obtain ⟨phase', rfl⟩ := hexecutor u g hg (by simpa using hgcallback)
    exact hu (Finset.mem_singleton.mpr (hinv.executor_unique hg hf).1)
  · refine le_trans (le_of_eq (tally_eq_zero ?_)) (Nat.zero_le 1)
    intro t
    rw [List.countP_eq_zero]
    intro f hf hcallback
    exact hsome ⟨t, f, hf, by simpa using hcallback⟩

end Dispatcher

end EventDispatcher
