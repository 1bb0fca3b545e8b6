import EventDispatcher.Dispatcher.QueuePolicies
import EventDispatcher.Dispatcher.SubscriberView
import EventDispatcher.Dispatcher.Threads

/-!
# Wakeups of an isolated mailbox

The executor hands out one `mailbox_space_` wakeup for each event it takes, a worker one
`mailbox_ready_` wakeup for each event it puts in, and `stop_delivery` wakes everybody.
`MailInv` is the balance: while a worker is parked on a mailbox that accepts, the free
places are covered by the workers that are awake after waiting and by the notification the
executor still owes.  The one exit that breaks it is a worker that has been woken and then
leaves by the exception of its copy.
-/

namespace EventDispatcher

open Transition SubscriberState

variable {T E : Type} {Q : QueuePolicy T (Publication E)}

/-- What the mailbox of a subscriber can expect from a thread. -/
inductive MailRole
  | idle
  /-- inside the wait for space, parked or awake -/
  | waits
  | owesReady
  /-- inside the wait for an event -/
  | waitsReady
  | owesSpace
  /-- has stopped the mailbox and owes both broadcasts -/
  | owesAll
  | owesSpaceToAll
  deriving DecidableEq

/-- The part of `try_invoke` at the mailbox. -/
def InvokePhase.mailRole : InvokePhase → MailRole
  | .spaceParked => .waits
  | .notifyReady => .owesReady
  | _ => .idle

/-- The part of an executor at its mailbox. -/
def ExecutorPhase.mailRole {E : Type} : ExecutorPhase E → MailRole
  | .readyParked => .waitsReady
  | .notifySpace _ => .owesSpace
  | _ => .idle

/-- The part of a `stop_delivery` at the mailbox. -/
def StopPhase.mailRole : StopPhase → MailRole
  | .notifyReady => .owesAll
  | .notifySpace => .owesSpaceToAll
  | _ => .idle

/-- The role of a frame for the mailbox of subscriber `i`. -/
def Frame.mailRole (i : ℕ) : Frame T E → MailRole
  | .worker (.invoke _ _ _ _ j phase) => if j = i then phase.mailRole else .idle
  | .invoke j _ phase => if j = i then phase.mailRole else .idle
  | .executor j phase => if j = i then phase.mailRole else .idle
  | .unsubscribe j (.stop _ phase) => if j = i then phase.mailRole else .idle
  | .shutdown _ (.stop (j :: _) phase) => if j = i then phase.mailRole else .idle
  | _ => .idle

/-- The role of a thread; the frames below the top one stand in user code. -/
def mailRole (i : ℕ) : List (Frame T E) → MailRole
  | [] => .idle
  | f :: _ => f.mailRole i

/-- The frame is inside `enqueue_isolated` of subscriber `i`. -/
def Frame.enqueues (i : ℕ) : Frame T E → Bool
  | .worker (.invoke _ _ _ _ j .lockMailbox) | .worker (.invoke _ _ _ _ j .spaceParked)
  | .worker (.invoke _ _ _ _ j .notifyReady) => j = i
  | .invoke j _ .lockMailbox | .invoke j _ .spaceParked | .invoke j _ .notifyReady => j = i
  | _ => false

/-- The frames that matter to the mailbox of subscriber `i`. -/
theorem Frame.mailRole_cases (f : Frame T E) (i : ℕ) :
    f.mailRole i = .idle ∨
      (∃ event g phase, InvokeFrame i event g ∧ f = g phase ∧ f.mailRole i = phase.mailRole) ∨
      (∃ phase, f = .executor i phase ∧ f.mailRole i = phase.mailRole) ∨
      ∃ drain g phase, StopFrame i drain g ∧ f = g phase ∧ f.mailRole i = phase.mailRole := by
  cases f with
  | worker phase =>
      cases phase with
      | invoke snapshot subs event events j phase =>
          by_cases hj : j = i
          · subst hj
            exact .inr (.inl ⟨event, _, phase, .worker snapshot subs events, rfl, if_pos rfl⟩)
          · exact .inl (if_neg hj)
      | _ => exact .inl rfl
  | executor j phase =>
      by_cases hj : j = i
      · subst hj
        exact .inr (.inr (.inl ⟨phase, rfl, if_pos rfl⟩))
      · exact .inl (if_neg hj)
  | invoke j event phase =>
      by_cases hj : j = i
      · subst hj
        exact .inr (.inl ⟨event, _, phase, .direct, rfl, if_pos rfl⟩)
      · exact .inl (if_neg hj)
  | unsubscribe j phase =>
      cases phase with
      | stop self phase =>
          by_cases hj : j = i
          · subst hj
            exact .inr (.inr (.inr ⟨false, _, phase, .unsubscribe self, rfl, if_pos rfl⟩))
          · exact .inl (if_neg hj)
      | _ => exact .inl rfl
  | shutdown policy phase =>
      cases phase with
      | stop todo phase =>
          cases todo with
          | nil => exact .inl rfl
          | cons j todo =>
              by_cases hj : j = i
              · subst hj
                exact .inr (.inr (.inr ⟨_, _, phase, .shutdown policy todo, rfl, if_pos rfl⟩))
              · exact .inl (if_neg hj)
      | _ => exact .inl rfl
  | _ => exact .inl rfl

/-- A worker with a part in the wait or in its notification is inside `enqueue_isolated`. -/
theorem Frame.enqueues_of_mailRole {f : Frame T E} {i : ℕ}
    (h : f.mailRole i = .waits ∨ f.mailRole i = .owesReady) : f.enqueues i = true := by
  rcases f.mailRole_cases i with hidle | ⟨event, g, phase, hframe, rfl, hrole⟩ |
    ⟨phase, rfl, hrole⟩ | ⟨drain, g, phase, hframe, rfl, hrole⟩
  · simp [hidle] at h
  · rw [hrole] at h
    cases hframe <;> cases phase <;> simp_all [InvokePhase.mailRole, Frame.enqueues]
  · rw [hrole] at h
    cases phase <;> simp [ExecutorPhase.mailRole] at h
  · rw [hrole] at h
    cases phase <;> simp [StopPhase.mailRole] at h

/-- Only an executor waits for an event or owes the news of space. -/
theorem Frame.executor_of_mailRole {f : Frame T E} {i : ℕ}
    (h : f.mailRole i = .waitsReady ∨ f.mailRole i = .owesSpace) :
    ∃ phase, f = .executor i phase ∧ f.user = false := by
  rcases f.mailRole_cases i with hidle | ⟨event, g, phase, hframe, rfl, hrole⟩ |
    ⟨phase, rfl, hrole⟩ | ⟨drain, g, phase, hframe, rfl, hrole⟩
  · simp [hidle] at h
  · rw [hrole] at h
    cases phase <;> simp [InvokePhase.mailRole] at h
  · refine ⟨phase, rfl, ?_⟩
    rw [hrole] at h
    cases phase <;> first | rfl | simp [ExecutorPhase.mailRole] at h
  · rw [hrole] at h
    cases phase <;> simp [StopPhase.mailRole] at h

/-- The mailbox, its flags and its waiters are as before. -/
structure SameMail (s s' : SubscriberState T E) : Prop where
  mailbox : s'.mailbox = s.mailbox
  space : s'.mailboxSpace = s.mailboxSpace
  ready : s'.mailboxReady = s.mailboxReady
  accepting : s'.mailboxAccepting = s.mailboxAccepting
  stopping : s'.executorStopping = s.executorStopping
  options : s'.options = s.options

/-- A step that leaves the mailbox alone. -/
theorem SameMail.refl (s : SubscriberState T E) : SameMail s s := ⟨rfl, rfl, rfl, rfl, rfl, rfl⟩

section Moves

variable [DecidableEq T]

/-- The thread runs the critical section of `enqueue_isolated`. -/
def MailEntry (t : T) (s : SubscriberState T E) (role : MailRole) : Prop :=
  role = .idle ∨ (role = .waits ∧ t ∉ s.mailboxSpace)

/-- Everything a step can do to a mailbox. -/
inductive MailMove (flag : Bool) (t : T) (s : SubscriberState T E) :
    MailRole → SubscriberState T E → MailRole → Prop
  | quiet {s' : SubscriberState T E} (hsame : SameMail s s') : MailMove flag t s .idle s' .idle
  | fresh {s' : SubscriberState T E} (hmailbox : s'.mailbox = []) (hspace : s'.mailboxSpace = ∅)
      (hready : s'.mailboxReady = ∅) : MailMove flag t s .idle s' .idle
  | park {role : MailRole} (hrole : MailEntry t s role) (haccepting : s.mailboxAccepting = true)
      (hfull : s.options.mailboxCapacity ≤ s.mailbox.length) :
      MailMove flag t s role { s with mailboxSpace := insert t s.mailboxSpace } .waits
  | overflow {role : MailRole} {s' : SubscriberState T E} (hrole : MailEntry t s role)
      (hsame : SameMail s s') (hfull : s.mailbox.length = s.options.mailboxCapacity) :
      MailMove flag t s role s' .idle
  | refused {role : MailRole} {s' : SubscriberState T E} (hrole : MailEntry t s role)
      (hsame : SameMail s s') (hclosed : s.mailboxAccepting = false) :
      MailMove flag t s role s' .idle
  | threw {role : MailRole} {s' : SubscriberState T E} (hrole : MailEntry t s role)
      (hsame : SameMail s s') (hflag : flag = true) (haccepting : s.mailboxAccepting = true)
      (hroom : s.mailbox.length ≤ s.options.mailboxCapacity →
        s.mailbox.length < s.options.mailboxCapacity) : MailMove flag t s role s' .idle
  | mail {role : MailRole} (hrole : MailEntry t s role) (event : E)
      (haccepting : s.mailboxAccepting = true)
      (hroom : s.mailbox.length ≤ s.options.mailboxCapacity →
        s.mailbox.length < s.options.mailboxCapacity) :
      MailMove flag t s role (s.mail event) .owesReady
  | wake :
      MailMove flag t s .waits { s with mailboxSpace := s.mailboxSpace.erase t } .waits
  | notifyReady {waiter : Option T} {left : Finset T}
      (hnotify : notifyOne s.mailboxReady waiter = some left) :
      MailMove flag t s .owesReady { s with mailboxReady := left } .idle
  | parkReady (hrunning : s.executorStopping = false) (hempty : s.mailbox = []) :
      MailMove flag t s .idle { s with mailboxReady := insert t s.mailboxReady } .waitsReady
  | wakeReady :
      MailMove flag t s .waitsReady { s with mailboxReady := s.mailboxReady.erase t } .idle
  | take {event : E} {rest : List E} (hmailbox : s.mailbox = event :: rest) :
      MailMove flag t s .idle { s with mailbox := rest } .owesSpace
  | notifySpace {waiter : Option T} {left : Finset T}
      (hnotify : notifyOne s.mailboxSpace waiter = some left) :
      MailMove flag t s .owesSpace { s with mailboxSpace := left } .idle
  | stop (drain : Bool) : MailMove flag t s .idle (s.stopMailbox drain) .owesAll
  | notifyAllReady : MailMove flag t s .owesAll { s with mailboxReady := ∅ } .owesSpaceToAll
  | notifyAllSpace : MailMove flag t s .owesSpaceToAll { s with mailboxSpace := ∅ } .idle

variable {flag : Bool} {t : T} {i : ℕ} {s s' : SubscriberState T E}
  {contexts contexts' : Contexts} {event : E}

omit [DecidableEq T] in
/-- Stopping the mailbox wakes nobody yet. -/
theorem stopMailbox_waiters (s : SubscriberState T E) (drain : Bool) :
    (s.stopMailbox drain).mailboxSpace = s.mailboxSpace ∧
      (s.stopMailbox drain).mailboxReady = s.mailboxReady ∧
      (s.stopMailbox drain).mailboxAccepting = false ∧
      (s.stopMailbox drain).executorStopping = true := by
  unfold SubscriberState.stopMailbox
  split <;> exact ⟨rfl, rfl, rfl, rfl⟩

/-- The mailbox stays within its capacity. -/
theorem MailMove.bounded {r r' : MailRole} (h : MailMove flag t s r s' r')
    (hbounded : s.mailbox.length ≤ s.options.mailboxCapacity) :
    s'.mailbox.length ≤ s'.options.mailboxCapacity := by
  cases h with
  | quiet hsame | overflow _ hsame | refused _ hsame | threw _ hsame =>
      rwa [hsame.mailbox, hsame.options]
  | fresh hmailbox => simp [hmailbox]
  | mail hrole event haccepting hroom => simpa using hroom hbounded
  | take hmailbox =>
      rw [hmailbox] at hbounded
      exact (Nat.le_succ _).trans hbounded
  | stop drain =>
      unfold SubscriberState.stopMailbox
      split
      · exact hbounded
      · simp
  | _ => exact hbounded

/-- Who is parked on `mailbox_space_` after a step. -/
theorem MailMove.mem_space {r r' : MailRole} (h : MailMove flag t s r s' r')
    (hself : t ∈ s.mailboxSpace → r = .waits) {u : T} (hu : u ∈ s'.mailboxSpace) :
    (u = t → r' = .waits) ∧ (u ≠ t → u ∈ s.mailboxSpace) := by
  have hstop := stopMailbox_waiters s
  cases h <;> grind [MailEntry, SameMail, SubscriberState.mail_mailboxSpace]

/-- Who is parked on `mailbox_ready_` after a step. -/
theorem MailMove.mem_ready {r r' : MailRole} (h : MailMove flag t s r s' r')
    (hself : t ∈ s.mailboxReady → r = .waitsReady) {u : T} (hu : u ∈ s'.mailboxReady) :
    (u = t → r' = .waitsReady) ∧ (u ≠ t → u ∈ s.mailboxReady) := by
  have hstop := stopMailbox_waiters s
  cases h <;> grind [MailEntry, SameMail, SubscriberState.mail_mailboxReady]

omit [DecidableEq T] in
/-- A callback does not touch the mailbox. -/
theorem CallbackStep.sameMail {phase phase' : CallbackPhase}
    (h : CallbackStep i s contexts event phase s' contexts' phase') : SameMail s s' := by
  cases h <;> exact ⟨rfl, rfl, rfl, rfl, rfl, rfl⟩

/-- **Step lemma**, for `try_invoke`. -/
theorem InvokeStep.mailMove {phase phase' : InvokePhase}
    (h : InvokeStep flag t i s contexts event phase s' contexts' phase') :
    MailMove flag t s phase.mailRole s' phase'.mailRole := by
  have hentry : Entering t s phase → MailEntry t s phase.mailRole := by
    rintro (rfl | ⟨rfl, hawake⟩)
    · exact .inl rfl
    · exact .inr ⟨rfl, hawake⟩
  cases h with
  | park hphase hlossless haccepting hfull => exact .park (hentry hphase) haccepting hfull
  | overflow hphase hbestEffort hfull =>
      exact .overflow (hentry hphase) ⟨rfl, rfl, rfl, rfl, rfl, rfl⟩ hfull
  | refused hphase hclosed => exact .refused (hentry hphase) ⟨rfl, rfl, rfl, rfl, rfl, rfl⟩ hclosed
  | copyThrew hphase hflag haccepting hroom =>
      exact .threw (hentry hphase) ⟨rfl, rfl, rfl, rfl, rfl, rfl⟩ hflag haccepting hroom
  | mail hphase haccepting hroom => exact .mail (hentry hphase) event haccepting hroom
  | wake => exact .wake
  | notifyReady hnotify => exact .notifyReady hnotify
  | callback hstep => exact .quiet hstep.sameMail
  | _ => exact .quiet ⟨rfl, rfl, rfl, rfl, rfl, rfl⟩

/-- **Step lemma**, for an executor. -/
theorem ExecutorStep.mailMove {phase phase' : ExecutorPhase E}
    (h : ExecutorStep t i s contexts phase s' contexts' phase') :
    MailMove flag t s phase.mailRole s' phase'.mailRole := by
  cases h with
  | park hrunning hempty => exact .parkReady hrunning hempty
  | take hmailbox => exact .take hmailbox
  | wake => exact .wakeReady
  | notifySpace event hnotify => exact .notifySpace hnotify
  | callback hstep => exact .quiet hstep.sameMail
  | _ => exact .quiet ⟨rfl, rfl, rfl, rfl, rfl, rfl⟩

/-- **Step lemma**, for `stop_delivery`. -/
theorem StopStep.mailMove {finished : Finset T} {drain : Bool} {phase phase' : StopPhase}
    (h : StopStep t s finished drain phase s' phase') :
    MailMove flag t s phase.mailRole s' phase'.mailRole := by
  cases h with
  | stopMailbox => exact .stop drain
  | notifyReady => exact .notifyAllReady
  | notifySpace => exact .notifyAllSpace
  | _ => exact .quiet ⟨rfl, rfl, rfl, rfl, rfl, rfl⟩

end Moves

section Frames

variable [DecidableEq T] {setup : Setup T} {flag : Bool} {t : T} {m m' : DispatcherMem Q}
  {q q' : Q.Loc} {contexts contexts' : Contexts} {f : Frame T E} {f' : Option (Frame T E)}

/-- The role of the frame that is left, if any. -/
def nextMailRole (i : ℕ) : Option (Frame T E) → MailRole
  | none => .idle
  | some f => f.mailRole i

/-- A step of subscriber `j` is one of mailbox `i` exactly if `i` is `j`. -/
theorem MailMove.setSub {i j : ℕ} {s : SubscriberState T (Publication E)} {r r' : MailRole}
    (h : MailMove flag t (m.subs j) r s r') :
    MailMove flag t (m.subs i) (if j = i then r else .idle) (Function.update m.subs j s i)
      (if j = i then r' else .idle) := by
  by_cases hij : j = i
  · subst hij
    simpa using h
  · have hrefl : MailMove flag t (m.subs i) .idle (m.subs i) .idle := .quiet (.refl _)
    simpa [hij, Function.update_of_ne (Ne.symm hij)] using hrefl

/-- **Step lemma**, for the top frame. -/
theorem FrameStep.mailMove (h : FrameStep setup flag t m q contexts f m' q' contexts' f')
    (i : ℕ) : MailMove flag t (m.subs i) (f.mailRole i) (m'.subs i) (nextMailRole i f') := by
  have hrefl : MailMove flag t (m.subs i) .idle (m.subs i) .idle := .quiet (.refl _)
  have hquiet : ∀ (j : ℕ) (s : SubscriberState T (Publication E)), SameMail (m.subs j) s →
      MailMove flag t (m.subs i) .idle (Function.update m.subs j s i) .idle := by
    intro j s hsame
    have hmove : MailMove flag t (m.subs j) .idle s .idle := .quiet hsame
    simpa using hmove.setSub (i := i)
  cases h with
  | invoke hframe hstep => cases hframe <;> exact hstep.mailMove.setSub
  | executor hstep => exact hstep.mailMove.setSub
  | stop hframe hstep => cases hframe <;> exact hstep.mailMove.setSub
  | subscribeConstruct callback options hvalid =>
      by_cases hi : i = m.registry.nextId
      · subst hi
        exact .fresh (by simp) (by simp) (by simp)
      · simpa [Frame.mailRole, nextMailRole, Function.update_of_ne hi] using hrefl
  | subscribeSpawn callback options id next hisolated u hu =>
      exact hquiet id _ ⟨rfl, rfl, rfl, rfl, rfl, rfl⟩
  | deactivate j | deactivateAgain j =>
      simpa [Frame.mailRole, nextMailRole, StopPhase.mailRole] using
        hquiet j (m.subs j).deactivate ⟨rfl, rfl, rfl, rfl, rfl, rfl⟩
  | idlePark j | idleWake j => exact hquiet j _ ⟨rfl, rfl, rfl, rfl, rfl, rfl⟩
  | publishCounted | publishNext => simpa [Frame.mailRole, nextMailRole] using hrefl
  | nextSub | invoked | invokeThrew | invokeReturned =>
      simpa [Frame.mailRole, nextMailRole, InvokePhase.mailRole] using hrefl
  | executorDone => simpa [Frame.mailRole, nextMailRole, ExecutorPhase.mailRole] using hrefl
  | selfReturned | stopDone | retireUnlock | drainStopped | discardStopped =>
      simpa [Frame.mailRole, nextMailRole, StopPhase.mailRole] using hrefl
  | loadSnapshot policy =>
      cases hcurrent : m.registry.current <;>
        simpa [hcurrent, Frame.mailRole, nextMailRole, StopPhase.mailRole] using hrefl
  | stopNext policy j todo =>
      cases todo <;> simpa [Frame.mailRole, nextMailRole, StopPhase.mailRole] using hrefl
  | _ => exact hrefl

end Frames

namespace Dispatcher

/-- User code has no part at a mailbox. -/
theorem user_mailRole {f : Frame T E} (h : f.user = true) (i : ℕ) : f.mailRole i = .idle := by
  unfold Frame.user at h
  split at h
  case h_7 => cases h
  all_goals simp [Frame.mailRole, InvokePhase.mailRole, ExecutorPhase.mailRole]

/-- Nor has a frame inside the queue. -/
theorem inQueue_mailRole {f : Frame T E} (h : f.inQueue = true) (i : ℕ) :
    f.mailRole i = .idle := by
  unfold Frame.inQueue at h
  split at h <;> first | rfl | cases h

/-- Nor has a frame to which user code returns. -/
theorem finishUser_mailRole {f f' : Frame T E} {threw : Bool} (h : f.finishUser threw = some f')
    (i : ℕ) : f.mailRole i = .idle ∧ f'.mailRole i = .idle := by
  unfold Frame.finishUser at h
  split at h <;> cases h <;> cases threw <;>
    simp [Frame.mailRole, InvokePhase.mailRole, ExecutorPhase.mailRole]

/-- Nor has a call that has just been made. -/
theorem enter_mailRole {m m' : DispatcherMem Q} {call : Call T E} {f : Frame T E}
    (h : enter m call = some (m', f)) (i : ℕ) : f.mailRole i = .idle := by
  cases call with
  | unsubscribe j | invoke j event =>
      simp only [enter] at h
      split at h <;> cases h
      simp [Frame.mailRole, InvokePhase.mailRole]
  | _ =>
      cases h
      rfl

section Threads

variable [DecidableEq T] {setup : Setup T} {t : T} {m m' : DispatcherMem Q} {l l' : ThreadLoc Q}
  {c : DispatcherChoice Q}

/-- **Step lemma**, for a thread. -/
theorem StepShape.mailMove (h : StepShape setup t m l c m' l') (hl : InOrder l) (i : ℕ) :
    MailMove c.flag t (m.subs i) (mailRole i l.stack) (m'.subs i)
      (mailRole i l'.stack) := by
  have hrefl : MailMove c.flag t (m.subs i) .idle (m.subs i) .idle :=
    .quiet (.refl _)
  cases h with
  | constructed hstack => simpa [mailRole, hstack] using hrefl
  | start hstack hentry =>
      simpa [mailRole, hstack, Frame.mailRole, ExecutorPhase.mailRole] using hrefl
  | call huser henter =>
      have hbefore : mailRole i l.stack = .idle := by
        cases hstack : l.stack with
        | nil => rfl
        | cons top rest =>
            rw [hstack] at huser
            exact user_mailRole huser i
      rw [hbefore, mailRole, (enter_holds henter i).2, enter_mailRole henter i]
      exact hrefl
  | finish hstack hfinish =>
      obtain ⟨hbefore, hafter⟩ := finishUser_mailRole hfinish i
      rw [hstack, mailRole, mailRole, hbefore, hafter]
      exact hrefl
  | @frame flag _ _ _ _ top top' rest hstack hstep =>
      have hnext : mailRole i (top'.toList ++ rest) = nextMailRole i top' := by
        cases top' with
        | some g => rfl
        | none =>
            -- the frame below stands in user code
            cases rest with
            | nil => rfl
            | cons below rest =>
                refine user_mailRole (hl.suspended below ?_) i
                rw [hstack]
                exact List.mem_cons_self
      rw [hstack, hnext]
      exact hstep.mailMove i
  | queue hstack hin =>
      have hrole : mailRole i l.stack = .idle := by
        rw [hstack]
        exact inQueue_mailRole hin i
      rw [hrole]
      exact hrefl

end Threads

/-- **Run lemma**: no mailbox holds more than its capacity. -/
theorem mailbox_bounded [DecidableEq T] {setup : Setup T}
    {ok : Config T (DispatcherMem Q) (ThreadLoc Q) → T × DispatcherChoice Q → Prop} :
    ∀ s, (system setup Q).Reach ok s → ∀ i,
      (s.mem.subs i).mailbox.length ≤ (s.mem.subs i).options.mailboxCapacity := by
  refine interleave_invariant ?_ ?_
  · rintro s rfl i
    simp [started]
  · intro s t c m l hreach hinv _ hstep i
    exact ((step_shape hstep).mailMove (inOrder_reach s hreach t) i).bounded (hinv i)

/-- The step in which a wakeup is lost: the copy of a worker that has already waited throws
while another one is still parked. -/
def LosesMailWakeup (s : Config T (DispatcherMem Q) (ThreadLoc Q))
    (a : T × DispatcherChoice Q) : Prop :=
  ∃ i, a.2.flag = true ∧ mailRole i (s.loc a.1).stack = .waits ∧
    a.1 ∉ (s.mem.subs i).mailboxSpace ∧ (s.mem.subs i).mailboxAccepting = true ∧
    (s.mem.subs i).mailbox.length < (s.mem.subs i).options.mailboxCapacity ∧
    (s.mem.subs i).mailboxSpace.Nonempty

section Balance

variable [Fintype T]

/-- How many threads have the role `r`. -/
def mailCount (i : ℕ) (r : MailRole) (loc : T → ThreadLoc Q) : ℕ :=
  tally (fun l => if mailRole i l.stack = r then 1 else 0) loc

/-- The balance of wakeups of the mailbox of subscriber `i`. -/
structure MailInv (i : ℕ) (s : Config T (DispatcherMem Q) (ThreadLoc Q)) : Prop where
  parked : ∀ t ∈ (s.mem.subs i).mailboxSpace, mailRole i (s.loc t).stack = .waits
  parkedReady : ∀ t ∈ (s.mem.subs i).mailboxReady, mailRole i (s.loc t).stack = .waitsReady
  room : (s.mem.subs i).mailboxAccepting = true → (s.mem.subs i).mailboxSpace.Nonempty →
    (s.mem.subs i).options.mailboxCapacity + (s.mem.subs i).mailboxSpace.card ≤
      (s.mem.subs i).mailbox.length + mailCount i .waits s.loc + mailCount i .owesSpace s.loc
  roomClosed : (s.mem.subs i).mailboxAccepting = false → (s.mem.subs i).mailboxSpace.Nonempty →
    0 < mailCount i .owesAll s.loc + mailCount i .owesSpaceToAll s.loc
  data : (s.mem.subs i).mailbox ≠ [] → (s.mem.subs i).mailboxReady.Nonempty →
    0 < mailCount i .owesReady s.loc
  dataClosed : (s.mem.subs i).executorStopping = true → (s.mem.subs i).mailboxReady.Nonempty →
    0 < mailCount i .owesAll s.loc

/-- Every parked worker is counted. -/
theorem card_parked {i : ℕ} {waiters : Finset T} {loc : T → ThreadLoc Q}
    (h : ∀ t ∈ waiters, mailRole i (loc t).stack = .waits) :
    waiters.card ≤ mailCount i .waits loc := by
  refine card_le_tally ?_
  intro t ht
  simp [h t ht]

/-- Where somebody is counted, there is somebody. -/
theorem exists_of_mailCount_pos {i : ℕ} {r : MailRole} {loc : T → ThreadLoc Q}
    (h : 0 < mailCount i r loc) : ∃ t, mailRole i (loc t).stack = r := by
  by_contra hnone
  have hzero : mailCount i r loc = 0 := by
    refine tally_eq_zero ?_
    intro t
    exact if_neg fun hrole => hnone ⟨t, hrole⟩
  omega

variable [DecidableEq T] {i : ℕ} {flag : Bool} {t : T} {l : ThreadLoc Q}
  {s' : SubscriberState T (Publication E)} {s : Config T (DispatcherMem Q) (ThreadLoc Q)}

/-- How the step of one thread changes a count. -/
theorem mailCount_update (r : MailRole) (loc : T → ThreadLoc Q) (t : T) (l : ThreadLoc Q) :
    mailCount i r (Function.update loc t l) + (if mailRole i (loc t).stack = r then 1 else 0) =
      mailCount i r loc + (if mailRole i l.stack = r then 1 else 0) :=
  tally_update (fun l : ThreadLoc Q => if mailRole i l.stack = r then 1 else 0) loc t l

namespace MailInv

/-- Whoever is parked is inside the wait. -/
theorem parked_step (hinv : MailInv i s)
    (h : MailMove flag t (s.mem.subs i) (mailRole i (s.loc t).stack) s' (mailRole i l.stack)) :
    (∀ u ∈ s'.mailboxSpace, mailRole i (Function.update s.loc t l u).stack = .waits) ∧
      ∀ u ∈ s'.mailboxReady, mailRole i (Function.update s.loc t l u).stack = .waitsReady := by
  constructor
  · intro u hu
    obtain ⟨hsame, hother⟩ := h.mem_space (hinv.parked t) hu
    by_cases hut : u = t
    · rw [hut, Function.update_self, hsame hut]
    · rw [Function.update_of_ne hut, hinv.parked u (hother hut)]
  · intro u hu
    obtain ⟨hsame, hother⟩ := h.mem_ready (hinv.parkedReady t) hu
    by_cases hut : u = t
    · rw [hut, Function.update_self, hsame hut]
    · rw [Function.update_of_ne hut, hinv.parkedReady u (hother hut)]

/-- The workers' side of the balance. -/
theorem room_step (hinv : MailInv i s)
    (hbounded : (s.mem.subs i).mailbox.length ≤ (s.mem.subs i).options.mailboxCapacity)
    (h : MailMove flag t (s.mem.subs i) (mailRole i (s.loc t).stack) s' (mailRole i l.stack))
    (hok : flag = true → mailRole i (s.loc t).stack = .waits → t ∉ (s.mem.subs i).mailboxSpace →
      (s.mem.subs i).mailboxAccepting = true →
      (s.mem.subs i).mailbox.length < (s.mem.subs i).options.mailboxCapacity →
      (s.mem.subs i).mailboxSpace = ∅)
    (haccepting' : s'.mailboxAccepting = true) (hne : s'.mailboxSpace.Nonempty) :
    s'.options.mailboxCapacity + s'.mailboxSpace.card ≤
      s'.mailbox.length + mailCount i .waits (Function.update s.loc t l) +
        mailCount i .owesSpace (Function.update s.loc t l) := by
  have hcard := card_parked (hinv.parked_step h).1
  have hroom := hinv.room
  have hw := mailCount_update (i := i) .waits s.loc t l
  have ho := mailCount_update (i := i) .owesSpace s.loc t l
  generalize mailRole i (s.loc t).stack = r at h hw ho hok
  generalize mailRole i l.stack = r' at h hw ho
  cases h with
  | quiet hsame =>
      simp only [hsame.space, hsame.accepting, hsame.options, hsame.mailbox, reduceCtorEq,
        if_false] at *
      have := hroom haccepting' hne
      omega
  | fresh _ hspace =>
      rw [hspace] at hne
      simp at hne
  | park hrole haccepting hfull =>
      dsimp only at hcard ⊢
      omega
  | overflow hrole hsame hfull =>
      rw [hsame.options, hsame.mailbox]
      omega
  | refused hrole hsame hclosed =>
      rw [hsame.accepting, hclosed] at haccepting'
      cases haccepting'
  | threw hrole hsame hflag haccepting hfits =>
      simp only [hsame.space, hsame.options, hsame.mailbox] at *
      have hbalance := hroom haccepting hne
      rcases hrole with rfl | ⟨rfl, hawake⟩
      · simp only [reduceCtorEq, if_false] at hw ho
        omega
      · -- the wakeup that would be lost
        exact absurd (hok hflag rfl hawake haccepting (hfits hbounded)) hne.ne_empty
  | mail hrole event haccepting hfits =>
      have hbalance := hroom haccepting hne
      simp only [SubscriberState.mail_mailbox, SubscriberState.mail_mailboxSpace,
        SubscriberState.mail_options, List.length_append, List.length_singleton]
      rcases hrole with rfl | ⟨rfl, hawake⟩ <;> simp only [reduceCtorEq, if_true, if_false] at hw ho <;>
        omega
  | wake =>
      have hbalance := hroom haccepting' (hne.mono (Finset.erase_subset _ _))
      have := Finset.card_le_card (Finset.erase_subset t (s.mem.subs i).mailboxSpace)
      simp only [reduceCtorEq, if_true, if_false] at hw ho
      dsimp only
      omega
  | take hmailbox =>
      have hbalance := hroom haccepting' hne
      rw [hmailbox] at hbalance
      simp only [reduceCtorEq, if_true, if_false, List.length_cons] at hw ho hbalance
      dsimp only
      omega
  | notifySpace hnotify =>
      simp only [reduceCtorEq, if_true, if_false] at hw ho
      rcases notifyOne_cases hnotify with ⟨_, rfl⟩ | ⟨v, hv, _, hcard'⟩
      · simp at hne
      · have hbalance := hroom haccepting' ⟨v, hv⟩
        dsimp only
        omega
  | stop drain =>
      rw [(stopMailbox_waiters _ drain).2.2.1] at haccepting'
      cases haccepting'
  | notifyAllSpace => simp at hne
  | notifyReady | parkReady | wakeReady | notifyAllReady =>
      have hbalance := hroom haccepting' hne
      simp only [reduceCtorEq, if_false] at hw ho
      dsimp only
      omega

/-- Workers are parked on a stopped mailbox only until the broadcast. -/
theorem roomClosed_step (hinv : MailInv i s)
    (h : MailMove flag t (s.mem.subs i) (mailRole i (s.loc t).stack) s' (mailRole i l.stack))
    (hclosed' : s'.mailboxAccepting = false) (hne : s'.mailboxSpace.Nonempty) :
    0 < mailCount i .owesAll (Function.update s.loc t l) +
      mailCount i .owesSpaceToAll (Function.update s.loc t l) := by
  have hroom := hinv.roomClosed
  have ha := mailCount_update (i := i) .owesAll s.loc t l
  have hs := mailCount_update (i := i) .owesSpaceToAll s.loc t l
  generalize mailRole i (s.loc t).stack = r at h ha hs
  generalize mailRole i l.stack = r' at h ha hs
  have hentry : MailEntry t (s.mem.subs i) r → r ≠ .owesAll ∧ r ≠ .owesSpaceToAll := by
    rintro (rfl | ⟨rfl, _⟩) <;> simp
  cases h with
  | fresh _ hspace =>
      rw [hspace] at hne
      simp at hne
  | quiet hsame =>
      rw [hsame.accepting] at hclosed'
      rw [hsame.space] at hne
      have := hroom hclosed' hne
      simp only [reduceCtorEq, if_false] at ha hs
      omega
  | overflow hrole hsame | refused hrole hsame =>
      rw [hsame.accepting] at hclosed'
      rw [hsame.space] at hne
      have := hroom hclosed' hne
      simp only [hentry hrole, reduceCtorEq, if_false] at ha hs
      omega
  | threw _ hsame _ haccepting =>
      rw [hsame.accepting, haccepting] at hclosed'
      cases hclosed'
  | park _ haccepting | mail _ _ haccepting =>
      cases haccepting.symm.trans hclosed'
  | wake =>
      have := hroom hclosed' (hne.mono (Finset.erase_subset _ _))
      simp only [reduceCtorEq, if_false] at ha hs
      omega
  | notifySpace hnotify =>
      obtain ⟨v, hv⟩ := hne
      have := hroom hclosed' ⟨v, mem_of_mem_notifyOne hnotify hv⟩
      simp only [reduceCtorEq, if_false] at ha hs
      omega
  | stop drain =>
      simp only [reduceCtorEq, if_true, if_false] at ha hs
      omega
  | notifyAllSpace => simp at hne
  | notifyReady | parkReady | wakeReady | take | notifyAllReady =>
      have := hroom hclosed' hne
      simp only [reduceCtorEq, if_true, if_false] at ha hs
      omega

/-- The executor's side of the balance.  There is one executor only. -/
theorem data_step (hinv : MailInv i s)
    (h : MailMove flag t (s.mem.subs i) (mailRole i (s.loc t).stack) s' (mailRole i l.stack))
    (hunique : ∀ u v, u ∈ (s.mem.subs i).mailboxReady → v ∈ (s.mem.subs i).mailboxReady → u = v)
    (hmail : s'.mailbox ≠ []) (hne : s'.mailboxReady.Nonempty) :
    0 < mailCount i .owesReady (Function.update s.loc t l) := by
  have hdata := hinv.data
  have ho := mailCount_update (i := i) .owesReady s.loc t l
  generalize mailRole i (s.loc t).stack = r at h ho
  generalize mailRole i l.stack = r' at h ho
  have hentry : MailEntry t (s.mem.subs i) r → r ≠ .owesReady := by
    rintro (rfl | ⟨rfl, _⟩) <;> simp
  cases h with
  | fresh hmailbox => exact absurd hmailbox hmail
  | quiet hsame =>
      rw [hsame.mailbox] at hmail
      rw [hsame.ready] at hne
      have := hdata hmail hne
      simp only [reduceCtorEq, if_false] at ho
      omega
  | overflow hrole hsame | refused hrole hsame | threw hrole hsame =>
      rw [hsame.mailbox] at hmail
      rw [hsame.ready] at hne
      have := hdata hmail hne
      simp only [hentry hrole, reduceCtorEq, if_false] at ho
      omega
  | park hrole =>
      have := hdata hmail hne
      simp only [hentry hrole, reduceCtorEq, if_false] at ho
      omega
  | mail hrole =>
      simp only [hentry hrole, if_true, if_false] at ho
      omega
  | notifyReady hnotify =>
      rcases notifyOne_cases hnotify with ⟨_, rfl⟩ | ⟨v, hv, rfl, _⟩
      · simp at hne
      · obtain ⟨w, hw⟩ := hne
        obtain ⟨hwv, hw⟩ := Finset.mem_erase.mp hw
        exact absurd (hunique w v hw hv) hwv
  | parkReady _ hempty => exact absurd hempty hmail
  | wakeReady =>
      have := hdata hmail (hne.mono (Finset.erase_subset _ _))
      simp only [reduceCtorEq, if_false] at ho
      omega
  | take hmailbox =>
      have := hdata (by simp [hmailbox]) hne
      simp only [reduceCtorEq, if_false] at ho
      omega
  | stop drain =>
      rw [(stopMailbox_waiters _ drain).2.1] at hne
      have hbefore : (s.mem.subs i).mailbox ≠ [] := by
        unfold SubscriberState.stopMailbox at hmail
        split at hmail
        · exact hmail
        · exact absurd rfl hmail
      have := hdata hbefore hne
      simp only [reduceCtorEq, if_false] at ho
      omega
  | notifyAllReady => simp at hne
  | wake | notifySpace | notifyAllSpace =>
      have := hdata hmail hne
      simp only [reduceCtorEq, if_false] at ho
      omega

/-- The executor is parked after a stop only until the broadcast. -/
theorem dataClosed_step (hinv : MailInv i s)
    (h : MailMove flag t (s.mem.subs i) (mailRole i (s.loc t).stack) s' (mailRole i l.stack))
    (hstopping : s'.executorStopping = true) (hne : s'.mailboxReady.Nonempty) :
    0 < mailCount i .owesAll (Function.update s.loc t l) := by
  have hdata := hinv.dataClosed
  have ho := mailCount_update (i := i) .owesAll s.loc t l
  generalize mailRole i (s.loc t).stack = r at h ho
  generalize mailRole i l.stack = r' at h ho
  have hentry : MailEntry t (s.mem.subs i) r → r ≠ .owesAll := by
    rintro (rfl | ⟨rfl, _⟩) <;> simp
  cases h with
  | fresh _ _ hready =>
      rw [hready] at hne
      simp at hne
  | quiet hsame =>
      rw [hsame.stopping] at hstopping
      rw [hsame.ready] at hne
      have := hdata hstopping hne
      simp only [reduceCtorEq, if_false] at ho
      omega
  | overflow hrole hsame | refused hrole hsame | threw hrole hsame =>
      rw [hsame.stopping] at hstopping
      rw [hsame.ready] at hne
      have := hdata hstopping hne
      simp only [hentry hrole, reduceCtorEq, if_false] at ho
      omega
  | park hrole | mail hrole =>
      have := hdata hstopping hne
      simp only [hentry hrole, reduceCtorEq, if_false] at ho
      omega
  | notifyReady hnotify =>
      obtain ⟨v, hv⟩ := hne
      have := hdata hstopping ⟨v, mem_of_mem_notifyOne hnotify hv⟩
      simp only [reduceCtorEq, if_false] at ho
      omega
  | parkReady hrunning => cases hrunning.symm.trans hstopping
  | wakeReady =>
      have := hdata hstopping (hne.mono (Finset.erase_subset _ _))
      simp only [reduceCtorEq, if_false] at ho
      omega
  | stop drain =>
      simp only [reduceCtorEq, if_true, if_false] at ho
      omega
  | notifyAllReady => simp at hne
  | wake | take | notifySpace | notifyAllSpace =>
      have := hdata hstopping hne
      simp only [reduceCtorEq, if_false] at ho
      omega

end MailInv

variable {setup : Setup T}

/-- **Run lemma.** -/
theorem mailInv_reach : ∀ s, (system setup Q).Reach (fun s a => ¬ LosesMailWakeup s a) s →
    ∀ i, MailInv i s := by
  refine interleave_invariant ?_ ?_
  · rintro s rfl i
    refine ⟨?_, ?_, ?_, ?_, ?_, ?_⟩ <;> simp [started]
  · intro s t c m l hreach hinv hok hstep i
    have hmove := (step_shape hstep).mailMove (inOrder_reach s hreach t) i
    have hi := hinv i
    obtain ⟨hparked, hparkedReady⟩ := hi.parked_step hmove
    have hexecutor : ∀ u ∈ (s.mem.subs i).mailboxReady, (s.mem.subs i).executor = some u := by
      intro u hu
      have hrole := hi.parkedReady u hu
      cases hstack : (s.loc u).stack with
      | nil => simp [hstack, mailRole] at hrole
      | cons f rest =>
          rw [hstack] at hrole
          obtain ⟨phase, rfl, _⟩ := Frame.executor_of_mailRole (.inl hrole)
          exact ((threadInv_reach s hreach).placed u (.executor i phase) (by simp [hstack])).1
    have hunique : ∀ u v, u ∈ (s.mem.subs i).mailboxReady → v ∈ (s.mem.subs i).mailboxReady →
        u = v := by
      intro u v hu hv
      exact Option.some.inj ((hexecutor u hu).symm.trans (hexecutor v hv))
    refine ⟨hparked, hparkedReady, ?_, hi.roomClosed_step hmove, hi.data_step hmove hunique,
      hi.dataClosed_step hmove⟩
    refine hi.room_step (mailbox_bounded s hreach i) hmove ?_
    intro hflag hrole hawake haccepting hfits
    by_contra hnonempty
    exact hok ⟨i, hflag, hrole, hawake, haccepting, hfits, Finset.nonempty_iff_ne_empty.mpr hnonempty⟩

end Balance

section Rest

variable [DecidableEq T]

/-- The thread is outside `enqueue_isolated` or parked in it, and, if it is the executor, is
parked or in user code. -/
def restsAt (i : ℕ) (s : SubscriberState T (Publication E)) (t : T) : List (Frame T E) → Bool
  | [] => true
  | f :: _ =>
      (!f.enqueues i || decide (t ∈ s.mailboxSpace)) &&
        (f.executes != some i || decide (t ∈ s.mailboxReady) || f.user)

/-- Every worker is outside `enqueue_isolated` or parked on `mailbox_space_`, and the
executor is parked on `mailbox_ready_`, finished or in user code. -/
def AtRest (i : ℕ) (s : Config T (DispatcherMem Q) (ThreadLoc Q)) : Prop :=
  ∀ t, restsAt i (s.mem.subs i) t (s.loc t).stack = true

/-- A `stop_delivery` has left its critical section and not yet notified `mailbox_ready_`. -/
def StopNotifiesReady (i : ℕ) (s : Config T (DispatcherMem Q) (ThreadLoc Q)) : Prop :=
  ∃ t, mailRole i (s.loc t).stack = .owesAll

/-- A `stop_delivery` has left its critical section and not yet notified `mailbox_space_`. -/
def StopNotifiesSpace (i : ℕ) (s : Config T (DispatcherMem Q) (ThreadLoc Q)) : Prop :=
  ∃ t, mailRole i (s.loc t).stack = .owesAll ∨ mailRole i (s.loc t).stack = .owesSpaceToAll

variable {i : ℕ} {s : SubscriberState T (Publication E)} {t : T} {stack : List (Frame T E)}

/-- A thread at rest is parked if it has a part to play. -/
theorem mailRole_of_restsAt (h : restsAt i s t stack = true) :
    (mailRole i stack = .waits ∨ mailRole i stack = .owesReady → t ∈ s.mailboxSpace) ∧
      (mailRole i stack = .owesSpace → t ∈ s.mailboxReady) := by
  cases stack with
  | nil => simp [mailRole]
  | cons f rest =>
      simp only [restsAt, Bool.and_eq_true, Bool.or_eq_true] at h
      obtain ⟨hworker, hexecutor⟩ := h
      constructor
      · intro hrole
        simpa [Frame.enqueues_of_mailRole hrole] using hworker
      · intro hrole
        obtain ⟨phase, rfl, huser⟩ := Frame.executor_of_mailRole (.inr hrole)
        simpa [Frame.executes, huser] using hexecutor

variable [Fintype T] {setup : Setup T}

/-- **No lost wakeup in an isolated mailbox.**  In every run in which no worker leaves a wait
by the exception of its copy while another one is parked: in a state at rest a worker is
parked only if the mailbox is full and accepting, and the executor only if the mailbox is
empty and nobody has stopped it, but for a `stop_delivery` whose broadcast is still to
come. -/
theorem mailbox_waits_justified {s : Config T (DispatcherMem Q) (ThreadLoc Q)}
    (hs : (system setup Q).Reach (fun s a => ¬ LosesMailWakeup s a) s) (i : ℕ)
    (hrest : AtRest i s) :
    (∀ t ∈ (s.mem.subs i).mailboxSpace,
      ((s.mem.subs i).mailbox.length = (s.mem.subs i).options.mailboxCapacity ∧
        (s.mem.subs i).mailboxAccepting = true) ∨ StopNotifiesSpace i s) ∧
    ∀ t ∈ (s.mem.subs i).mailboxReady,
      ((s.mem.subs i).mailbox = [] ∧ (s.mem.subs i).executorStopping = false) ∨
        StopNotifiesReady i s := by
  have hinv := mailInv_reach s hs i
  have hbounded := mailbox_bounded s hs i
  have hwaits : mailCount i .waits s.loc ≤ (s.mem.subs i).mailboxSpace.card := by
    refine tally_le_card ?_ ?_
    · intro t
      split <;> simp
    · intro t ht
      refine if_neg fun hrole => ht ?_
      exact (mailRole_of_restsAt (hrest t)).1 (.inl hrole)
  have hready : mailCount i .owesReady s.loc = 0 := by
    refine tally_eq_zero fun t => if_neg fun hrole => ?_
    have hparked := hinv.parked t ((mailRole_of_restsAt (hrest t)).1 (.inr hrole))
    cases hrole.symm.trans hparked
  have hspace : mailCount i .owesSpace s.loc = 0 := by
    refine tally_eq_zero fun t => if_neg fun hrole => ?_
    have hparked := hinv.parkedReady t ((mailRole_of_restsAt (hrest t)).2 hrole)
    cases hrole.symm.trans hparked
  constructor
  · intro t ht
    cases haccepting : (s.mem.subs i).mailboxAccepting with
    | true =>
        have hroom := hinv.room haccepting ⟨t, ht⟩
        exact .inl ⟨by omega, rfl⟩
    | false =>
        right
        have hpos := hinv.roomClosed haccepting ⟨t, ht⟩
        rcases Nat.add_pos_iff_pos_or_pos.mp hpos with hpos | hpos
        · obtain ⟨u, hu⟩ := exists_of_mailCount_pos hpos
          exact ⟨u, .inl hu⟩
        · obtain ⟨u, hu⟩ := exists_of_mailCount_pos hpos
          exact ⟨u, .inr hu⟩
  · intro t ht
    cases hstopping : (s.mem.subs i).executorStopping with
    | true => exact .inr (exists_of_mailCount_pos (hinv.dataClosed hstopping ⟨t, ht⟩))
    | false =>
        refine .inl ⟨?_, rfl⟩
        by_contra hmail
        have hpos := hinv.data hmail ⟨t, ht⟩
        omega

end Rest

/-- Two workers wait for room in a mailbox of capacity one, whose executor is in the callback
of an earlier event. -/
def bothWaiting (first second client executor : Fin 4) :
    List (Fin 4 × DispatcherChoice (mutexPolicy (Fin 4) (Publication ℕ) 4)) :=
  List.flatten [[(client, .constructed), (client, .call (.subscribe true
      { delivery := .isolated, guarantee := .lossless, mailboxCapacity := 1 }))],
    advance client 4, [(client, .go false (some executor))], advance client 3,
    publishingOn client 5, publishingOn client 6, publishingOn client 7, publishingOn client 8,
    workingOn first 8, [(executor, .start)], advance executor 4, workingOn first 8,
    workingOn first 5, workingOn second 5]

/-- The worker is parked, in a state at rest, on a mailbox of capacity one that
accepts and holds `size` events. -/
def parkedAtRest {Q : QueuePolicy (Fin 4) (Publication ℕ)}
    (worker : Fin 4) (s : Config (Fin 4) (DispatcherMem Q) (ThreadLoc Q)) (size : ℕ) : Bool :=
  (∀ t, restsAt 1 (s.mem.subs 1) t (s.loc t).stack = true) &&
    worker ∈ (s.mem.subs 1).mailboxSpace && (s.mem.subs 1).mailbox.length = size &&
    (s.mem.subs 1).options.mailboxCapacity = 1 && (s.mem.subs 1).mailboxAccepting

/-- Two workers are parked on a full mailbox. -/
theorem mailbox_waits_justified_parked :
    ∃ s, (system pairSetup (mutexPolicy (Fin 4) (Publication ℕ) 4)).Reach
        (fun s a => ¬ LosesMailWakeup s a) s ∧ 1 ∈ (s.mem.subs 1).mailboxSpace ∧
      (((s.mem.subs 1).mailbox.length = (s.mem.subs 1).options.mailboxCapacity ∧
        (s.mem.subs 1).mailboxAccepting = true) ∨ StopNotifiesSpace 1 s) := by
  obtain ⟨s, hs, hp⟩ := System.exists_reach_of_run
    (system pairSetup (mutexPolicy (Fin 4) (Publication ℕ) 4)) (fun s a => ¬ LosesMailWakeup s a)
    (fun _ a => !a.2.flag) (s := started pairSetup _) rfl (bothWaiting 0 1 2 3)
    (fun s => parkedAtRest 1 s 1)
    (by
      rintro a _ s htest ⟨i, hflag, _⟩
      simp [hflag] at htest) (by decide +kernel)
  simp only [parkedAtRest, Bool.and_eq_true, decide_eq_true_eq] at hp
  obtain ⟨⟨⟨⟨hrest, hparked⟩, _⟩, _⟩, _⟩ := hp
  exact ⟨s, hs, hparked, (mailbox_waits_justified hs 1 hrest).1 1 hparked⟩

/-- The executor takes an event and wakes one of the two workers, whose copy throws: the
mailbox is empty and accepts, and the other worker stays parked. -/
theorem copy_throw_strands_worker :
    ∃ s, (system pairSetup (mutexPolicy (Fin 4) (Publication ℕ) 4)).Reachable s ∧ AtRest 1 s ∧
      1 ∈ (s.mem.subs 1).mailboxSpace ∧ (s.mem.subs 1).mailbox = [] ∧
      (s.mem.subs 1).options.mailboxCapacity = 1 ∧ (s.mem.subs 1).mailboxAccepting = true := by
  obtain ⟨s, hs, hp⟩ := System.exists_reach_of_run
    (system pairSetup (mutexPolicy (Fin 4) (Publication ℕ) 4)) (fun _ _ => True)
    (fun _ _ => true) (s := started pairSetup _) rfl
    (List.flatten [bothWaiting 0 1 2 3, [(3, .finish false)], advance 3 6, [(3, .go false (some 0))],
      advance 3 2, [(0, .go true none)], advance 0 1])
    (fun s => parkedAtRest 1 s 0) (by simp) (by decide +kernel)
  simp only [parkedAtRest, Bool.and_eq_true, decide_eq_true_eq, List.length_eq_zero_iff] at hp
  obtain ⟨⟨⟨⟨hrest, hparked⟩, hempty⟩, hcapacity⟩, haccepting⟩ := hp
  exact ⟨s, hs, hrest, hparked, hempty, hcapacity, haccepting⟩

end Dispatcher

end EventDispatcher
