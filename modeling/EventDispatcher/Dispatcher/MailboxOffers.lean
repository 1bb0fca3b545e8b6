import EventDispatcher.Dispatcher.ExecutorView

/-!
# What is offered to a subscriber

`try_invoke` counts every event before it does anything with it.  `recordOffer` writes down the
events so offered from the moves of the threads alone, so that the record can be compared with
what the mailbox has accepted: an event on its way is in the hands of a thread inside
`enqueue_isolated` (`Part.waiting`).
-/

namespace EventDispatcher

open Transition SubscriberState

variable {T E : Type} {Q : QueuePolicy T (Publication E)}

/-- The event that the part is about to count as offered. -/
def Part.offering : Part E → List (Publication E)
  | .invoke event .offer => [event]
  | _ => []

/-- The event that the part has offered to a mailbox that has not decided about it. -/
def Part.waiting : Part E → Multiset (Publication E)
  | .invoke event .lockMailbox => {event}
  | .invoke event .spaceParked => {event}
  | _ => 0

/-- The event that a thread offers to subscriber `i` when it moves. -/
def offeredBy (i : ℕ) (stack : List (Frame T E)) : List (Publication E) :=
  (topPart i stack).offering

/-- The events offered to subscriber `i` so far. -/
def recordOffer (i : ℕ) (s : Config T (DispatcherMem Q) (ThreadLoc Q)) (a : T × DispatcherChoice Q)
    (_ : Config T (DispatcherMem Q) (ThreadLoc Q)) (offered : List (Publication E)) :
    List (Publication E) :=
  offered ++ offeredBy i (s.loc a.1).stack

/-- What a step does to the events accepted and to the one that its part has offered. -/
def Offered (s s' : SubscriberState T (Publication E)) (p p' : Part E) : Prop :=
  (s'.mailed : Multiset (Publication E)) + p'.waiting = s.mailed + p.waiting + p.offering

section Steps

variable [DecidableEq T] {flag : Bool} {t : T} {next i : ℕ} {finished : Finset T}
  {s s' : SubscriberState T (Publication E)} {contexts contexts' : Contexts} {p p' : Part E}

omit [DecidableEq T] in
theorem CallbackStep.offered_eq {event : Publication E} {phase phase' : CallbackPhase}
    (h : CallbackStep i s contexts event phase s' contexts' phase') :
    s'.metrics.offered = s.metrics.offered ∧ s'.mailed = s.mailed := by
  cases h <;> exact ⟨rfl, rfl⟩

/-- `offered_` counts the offers. -/
theorem PartStep.offered_eq (h : PartStep flag t next i finished s p s' p') :
    s'.metrics.offered = s.metrics.offered + UInt64.ofNat p.offering.length := by
  have hnone : ∀ n : UInt64, n = n + UInt64.ofNat ([] : List (Publication E)).length := by simp
  cases h with
  | construct options hnext hfresh =>
      rw [hfresh]
      rfl
  | invoke hstep =>
      cases hstep with
      | offerMailbox | offerDirect => rfl
      | callback hstep =>
          rw [hstep.offered_eq.1]
          exact hnone _
      | park hphase | overflow hphase | refused hphase | copyThrew hphase | mail hphase =>
          obtain rfl | ⟨rfl, _⟩ := hphase <;> exact hnone _
      | _ => exact hnone _
  | executor hstep =>
      cases hstep with
      | callback hstep =>
          rw [hstep.offered_eq.1]
          exact hnone _
      | _ => exact hnone _
  | @stop drain _ _ _ hstep =>
      cases hstep with
      | stopMailbox => cases drain <;> exact hnone _
      | _ => exact hnone _
  | _ => exact hnone _

omit [DecidableEq T] in
/-- A step that neither accepts an event nor takes one up. -/
theorem Offered.of_eq (hmailed : s'.mailed = s.mailed) (hwaiting : p'.waiting = p.waiting)
    (hoffering : p.offering = []) : Offered s s' p p' := by
  unfold Offered
  rw [hmailed, hwaiting, hoffering, Multiset.coe_nil, add_zero]

/-- Nothing is offered, and nothing accepted, by a step that begins with no part. -/
theorem PartStep.offered_of_idle (h : PartStep flag t next i finished s .idle s' p') :
    Offered s s' .idle p' := by
  cases h with
  | construct options hnext hfresh =>
      rw [hfresh]
      exact .of_eq rfl rfl rfl
  | _ => exact .of_eq rfl rfl rfl

/-- An isolated subscriber that misses nothing accepts what it is offered. -/
theorem InvokeStep.offered_of_kept {event : Publication E} {phase phase' : InvokePhase}
    (h : InvokeStep flag t i s contexts event phase s' contexts' phase')
    (hisolated : s'.options.delivery = .isolated) (hkept : s'.missed = s.missed) :
    Offered s s' (.invoke event phase) (.invoke event phase') := by
  have hmissed : s.missed ++ [event] ≠ s.missed := by simp
  cases h with
  | offerMailbox => simp [Offered, Part.waiting, Part.offering]
  | offerDirect hdirect => exact absurd hisolated hdirect
  | callback hstep => exact .of_eq hstep.offered_eq.2 rfl rfl
  | mail hphase =>
      obtain rfl | ⟨rfl, _⟩ := hphase <;>
        simp [Offered, Part.waiting, Part.offering, ← Multiset.coe_add]
  | park hphase => obtain rfl | ⟨rfl, _⟩ := hphase <;> exact .of_eq rfl rfl rfl
  | overflow | refused | copyThrew | reject => exact absurd hkept hmissed
  | _ => exact .of_eq rfl rfl rfl

/-- **Step lemma** for the offers. -/
theorem PartStep.offered_of_kept (h : PartStep flag t next i finished s p s' p')
    (hisolated : s'.options.delivery = .isolated) (hkept : s'.missed = s.missed) :
    Offered s s' p p' := by
  cases h with
  | construct options hnext hfresh =>
      rw [hfresh]
      exact .of_eq rfl rfl rfl
  | invoke hstep => exact hstep.offered_of_kept hisolated hkept
  | executor hstep =>
      cases hstep with
      | callback hstep => exact .of_eq hstep.offered_eq.2 rfl rfl
      | _ => exact .of_eq rfl rfl rfl
  | @stop drain _ _ _ hstep =>
      cases hstep with
      | stopMailbox => cases drain <;> exact .of_eq rfl rfl rfl
      | _ => exact .of_eq rfl rfl rfl
  | finishInvoke event previous threw | finishExecutor event previous threw =>
      cases threw <;> exact .of_eq rfl rfl rfl
  | _ => exact .of_eq rfl rfl rfl

end Steps

namespace Dispatcher

variable {setup : Setup T}

/-- User code offers nothing before it returns. -/
theorem offeredBy_of_user {t : T} {stack : List (Frame T E)} (h : UserCode setup t stack) (i : ℕ) :
    offeredBy i stack = [] := by
  cases stack with
  | nil => rfl
  | cons f rest =>
      change f.user = true at h
      unfold Frame.user at h
      split at h
      case h_7 => cases h
      all_goals
        simp only [offeredBy, topPart, parts, List.map_cons, List.headD_cons, Frame.part]
        first | rfl | (split_ifs <;> rfl)

variable [DecidableEq T]

/-- The record grows by what the moving part was about to offer. -/
theorem StepShape.partStep_offered {t : T} {c : DispatcherChoice Q} {m m' : DispatcherMem Q}
    {l l' : ThreadLoc Q} (h : StepShape setup t m l c m' l') (hm : Known m) (i : ℕ) :
    ∃ p p', PartStep c.flag t m.registry.nextId i m.threads.finished (m.subs i) p (m'.subs i) p' ∧
      Replaced p p' (parts i l.stack) (parts i l'.stack) ∧ offeredBy i l.stack = p.offering := by
  obtain ⟨p, p', hpart, hreplaced, htop⟩ := h.partStep_top hm i
  refine ⟨p, p', hpart, hreplaced, ?_⟩
  obtain rfl | ⟨rfl, huser⟩ := htop
  · rfl
  · exact offeredBy_of_user huser i

variable [Fintype T]
  {ok : Config T (DispatcherMem Q) (ThreadLoc Q) → T × DispatcherChoice Q → Prop}

/-- A run with the record of what it offers to subscriber `i`. -/
def offersTo (setup : Setup T) (Q : QueuePolicy T (Publication E)) (i : ℕ) :
    System (Config T (DispatcherMem Q) (ThreadLoc Q) × List (Publication E))
      (T × DispatcherChoice Q) :=
  (system setup Q).watch (recordOffer i)

omit [Fintype T] in
theorem reach_of_offersTo {i : ℕ} {s : Config T (DispatcherMem Q) (ThreadLoc Q)}
    {offered : List (Publication E)}
    (h : (offersTo setup Q i).Steps (fun p a => ok p.1 a) (started setup Q, []) (s, offered)) :
    (system setup Q).Reach ok s :=
  (h.reach (s := (started setup Q, [])) rfl).of_watched

/-- Everything offered has been accepted or is in the hands of a thread. -/
def Accepted (i : ℕ) (s : Config T (DispatcherMem Q) (ThreadLoc Q))
    (offered : List (Publication E)) : Prop :=
  (offered : Multiset (Publication E)) =
    (s.mem.subs i).mailed + tally (partSum Part.waiting i) s.loc

/-- The balance of the offers is kept by a step that is `Offered`. -/
theorem Accepted.step {i : ℕ} {s : Config T (DispatcherMem Q) (ThreadLoc Q)} {t : T}
    {c : DispatcherChoice Q} {m : DispatcherMem Q} {l : ThreadLoc Q}
    {offered : List (Publication E)} (h : Accepted i s offered) {p p' : Part E}
    (hreplaced : Replaced p p' (parts i (s.loc t).stack) (parts i l.stack))
    (hoffers : offeredBy i (s.loc t).stack = p.offering)
    (hstep : Offered (s.mem.subs i) (m.subs i) p p') :
    Accepted i ⟨m, Function.update s.loc t l⟩
      (recordOffer i s (t, c) ⟨m, Function.update s.loc t l⟩ offered) := by
  have hsum : partSum Part.waiting i l + p.waiting =
      partSum Part.waiting i (s.loc t) + p'.waiting := hreplaced.sum_eq Part.waiting rfl
  unfold Accepted recordOffer
  simp only [hoffers]
  refine tally_balance ?_ h
  apply add_right_cancel (b := p.waiting)
  calc (↑(offered ++ p.offering) : Multiset (Publication E)) +
        (↑(s.mem.subs i).mailed + partSum Part.waiting i (s.loc t)) + p.waiting
      = offered + partSum Part.waiting i (s.loc t) +
          ((s.mem.subs i).mailed + p.waiting + p.offering) := by
        rw [← Multiset.coe_add]
        abel
    _ = offered + partSum Part.waiting i (s.loc t) + ((m.subs i).mailed + p'.waiting) := by
        rw [← show _ = _ from hstep]
    _ = offered + (m.subs i).mailed + (partSum Part.waiting i (s.loc t) + p'.waiting) := by abel
    _ = offered + (↑(m.subs i).mailed + partSum Part.waiting i l) + p.waiting := by
        rw [← hsum]
        abel

end Dispatcher

end EventDispatcher
