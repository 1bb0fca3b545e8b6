import EventDispatcher.Lib.Threads
import EventDispatcher.Queue.OperationGate

/-!
# `operation_guard` and `close_gate` under any interleaving

One gate, used by any number of guards and closers at once.  A local state stands
for one guard or one call of `close_gate` at a time; a thread that nests guards is
several of them.  Every step is one atomic operation on the gate word, so what a
guard compares with may be stale by the time it exchanges.

`shuts` and `returned` record what has happened so far and steer nothing.
-/

namespace EventDispatcher

namespace OperationGate

open Transition

/-- The gate and the threads parked in `gate.wait`. -/
structure GateWord (T : Type) where
  state : ℕ
  waiters : Finset T
  /-- number of `fetch_or(closed_bit)` so far -/
  shuts : ℕ
  /-- number of `close_gate` calls that have returned -/
  returned : ℕ

/-- Where a guard or a closer stands. -/
inductive GateLoc
  | outside
  /-- the constructor of `operation_guard` -/
  | load
  | exchange (expected : OpenState)
  /-- between the constructor and the destructor -/
  | entered
  | notify
  /-- `close_gate` -/
  | shut
  | wait (state : ℕ)
  | parked (state : ℕ)
  | reload
  deriving DecidableEq

/-- The choices a step can depend on. -/
inductive GateChoice
  | construct
  | close
  /-- the next step; `flag` lets an exchange fail or a parked thread wake spuriously -/
  | go (flag : Bool)
  deriving DecidableEq

section Step

variable {T : Type}

/-- The loop condition of `close_gate` for the state it has just read. -/
def closeLoop (m : GateWord T) (state : ℕ) : GateWord T × GateLoc :=
  if active state = 0 then ({ m with returned := m.returned + 1 }, .outside)
  else (m, .wait state)

variable [DecidableEq T]

/-- One atomic step. -/
def stepGate (t : T) (c : GateChoice) (m : GateWord T) : GateLoc → Option (GateWord T × GateLoc)
  | .outside =>
      match c with
      | .construct => some (m, .load)
      | .close => some (m, .shut)
      | .go _ => none
  | .load => guardLoop m.state (m, .outside) fun expected => (m, .exchange expected)
  | .exchange expected =>
      if m.state = expected ∧ c ≠ .go true then
        some ({ m with state := wordInc expected }, .entered)
      else guardLoop m.state (m, .outside) fun expected => (m, .exchange expected)
  | .entered => some ({ m with state := wordDec m.state }, .notify)
  | .notify => some ({ m with waiters := ∅ }, .outside)
  | .shut =>
      let state := OperationGate.shut m.state
      some (closeLoop { m with state := state, shuts := m.shuts + 1 } state)
  | .wait state =>
      if m.state = state then some ({ m with waiters := insert t m.waiters }, .parked state)
      else some (m, .reload)
  | .parked state =>
      if t ∈ m.waiters then
        if c = .go true then some ({ m with waiters := m.waiters.erase t }, .parked state)
        else none
      else some (m, .wait state)
  | .reload => some (closeLoop m m.state)

/-- Any number of guards and closers on a fresh gate. -/
def gateSystem (T : Type) [DecidableEq T] : System (Config T (GateWord T) GateLoc) (T × GateChoice) :=
  interleave stepGate fun s =>
    s.mem = { state := 0, waiters := ∅, shuts := 0, returned := 0 } ∧ ∀ t, s.loc t = .outside

/-- The guards a local state has entered. -/
def GateLoc.inside : GateLoc → ℕ
  | .entered => 1
  | _ => 0

/-- A closer that has left its first read behind. -/
def GateLoc.hasShut : GateLoc → Prop
  | .wait _ | .parked _ | .reload => True
  | _ => False

/-- What one step can do. -/
inductive GateStep : GateWord T → GateLoc → GateWord T → GateLoc → Prop
  | quiet (m : GateWord T) (l l' : GateLoc) (waiters : Finset T) (hinside : l.inside = 0)
      (hinside' : l'.inside = 0) (hhas : l'.hasShut → l.hasShut) :
      GateStep m l { m with waiters := waiters } l'
  | enter (m : GateWord T) (expected : OpenState) (hstate : m.state = expected) :
      GateStep m (.exchange expected) { m with state := wordInc m.state } .entered
  | leave (m : GateWord T) : GateStep m .entered { m with state := wordDec m.state } .notify
  | shut (m : GateWord T) (l' : GateLoc) (hinside' : l'.inside = 0) :
      GateStep m .shut { m with state := OperationGate.shut m.state, shuts := m.shuts + 1 } l'
  | shutReturn (m : GateWord T) (hactive : active (OperationGate.shut m.state) = 0) :
      GateStep m .shut
        { m with
          state := OperationGate.shut m.state
          shuts := m.shuts + 1
          returned := m.returned + 1 } .outside
  | reloadReturn (m : GateWord T) (hactive : active m.state = 0) :
      GateStep m .reload { m with returned := m.returned + 1 } .outside

variable {t : T} {c : GateChoice} {m m' : GateWord T} {l l' : GateLoc}

omit [DecidableEq T] in
/-- A guard that has read a state goes on to the exchange or stays outside. -/
theorem guardLoop_step (hinside : l.inside = 0)
    (h : guardLoop m.state (m, .outside) (fun expected => (m, GateLoc.exchange expected)) =
      some (m', l')) : GateStep m l m' l' := by
  obtain ⟨-, heq⟩ | ⟨expected, heq⟩ := guardLoop_eq_some h
  · cases heq
    exact .quiet m l .outside m.waiters hinside rfl False.elim
  · cases heq
    exact .quiet m l (.exchange expected) m.waiters hinside rfl False.elim

/-- `stepGate` takes the steps of the relation and no others. -/
theorem stepGate_cases (h : stepGate t c m l = some (m', l')) : GateStep m l m' l' := by
  cases l with
  | outside =>
      cases c with
      | construct =>
          cases h
          exact .quiet m _ _ m.waiters rfl rfl False.elim
      | close =>
          cases h
          exact .quiet m _ _ m.waiters rfl rfl False.elim
      | go flag => cases h
  | load => exact guardLoop_step rfl h
  | exchange expected =>
      simp only [stepGate] at h
      split at h
      · next hmatch =>
          obtain ⟨hstate, -⟩ := hmatch
          cases h
          rw [← hstate]
          exact .enter m expected hstate
      · exact guardLoop_step rfl h
  | entered =>
      cases h
      exact .leave m
  | notify =>
      cases h
      exact .quiet m _ _ ∅ rfl rfl False.elim
  | shut =>
      simp only [stepGate, closeLoop] at h
      split at h
      · next hactive =>
          cases h
          exact .shutReturn m hactive
      · cases h
        exact .shut m _ rfl
  | wait state =>
      simp only [stepGate] at h
      split at h
      · cases h
        exact .quiet m _ _ _ rfl rfl id
      · cases h
        exact .quiet m _ _ m.waiters rfl rfl id
  | parked state =>
      simp only [stepGate] at h
      split at h
      · split at h
        · cases h
          exact .quiet m _ _ _ rfl rfl id
        · cases h
      · cases h
        exact .quiet m _ _ m.waiters rfl rfl id
  | reload =>
      simp only [stepGate, closeLoop] at h
      split at h
      · next hactive =>
          cases h
          exact .reloadReturn m hactive
      · cases h
        exact .quiet m _ _ m.waiters rfl rfl id

end Step

section Counts

variable {T : Type} {m m' : GateWord T} {l l' : GateLoc}

/-- The gate word says whether the gate was closed and counts `n` guards. -/
structure Counts (m : GateWord T) (n : ℕ) : Prop where
  state : m.state = word (decide (0 < m.shuts)) n
  count_le : n ≤ activeMask
  returned : 0 < m.returned → 0 < m.shuts ∧ n = 0

theorem Counts.active_eq {n : ℕ} (h : Counts m n) : active m.state = n := by
  rw [h.state, active_word _ h.count_le]

theorem Counts.isClosed_eq {n : ℕ} (h : Counts m n) : isClosed m.state = decide (0 < m.shuts) := by
  rw [h.state, isClosed_word _ h.count_le]

/-- Only a gate that nobody has shut lets a guard in. -/
theorem Counts.tryEnter {n : ℕ} (h : Counts m n) (hnext : guardNext m.state = .tryEnter) :
    m.shuts = 0 ∧ n < activeMask := by
  rw [h.state] at hnext
  obtain ⟨hshut, hlt⟩ := tryEnter_word h.count_le hnext
  rw [decide_eq_false_iff_not] at hshut
  exact ⟨by omega, hlt⟩

theorem Counts.shut {n : ℕ} (h : Counts m n) : OperationGate.shut m.state = word true n := by
  rw [h.state, shut_word _ h.count_le]

/-- **One step keeps the word in line with the guards.** -/
theorem GateStep.counts (hstep : GateStep m l m' l') {n n' : ℕ} (h : Counts m n)
    (hhas : l.hasShut → 0 < m.shuts) (hle : l.inside ≤ n) (hn : n' + l.inside = n + l'.inside) :
    Counts m' n' := by
  cases hstep with
  | quiet _ _ waiters hinside hinside' _ =>
      obtain rfl : n' = n := by omega
      exact ⟨h.state, h.count_le, h.returned⟩
  | enter expected hstate =>
      obtain ⟨hshuts, hlt⟩ := h.tryEnter (by rw [hstate]; exact expected.2)
      obtain rfl : n' = n + 1 := hn
      have hopen : decide (0 < m.shuts) = false := by simp [hshuts]
      have hword := h.state
      rw [hopen] at hword
      refine ⟨?_, hlt, ?_⟩
      · show wordInc m.state = word (decide (0 < m.shuts)) (n + 1)
        rw [hopen, hword, wordInc_word hlt]
      · intro hreturned
        have hpos := (h.returned hreturned).1
        omega
  | leave =>
      obtain rfl : n = n' + 1 := hn.symm
      have hcount := h.count_le
      refine ⟨?_, by omega, ?_⟩
      · show wordDec m.state = word (decide (0 < m.shuts)) n'
        rw [h.state, wordDec_word]
      · intro hreturned
        have hzero := (h.returned hreturned).2
        omega
  | shut _ hinside' =>
      obtain rfl : n' = n := by
        rw [hinside'] at hn
        exact hn
      refine ⟨?_, h.count_le, ?_⟩
      · rw [h.shut, decide_eq_true (Nat.succ_pos m.shuts)]
      · intro hreturned
        exact ⟨Nat.succ_pos _, (h.returned hreturned).2⟩
  | shutReturn hactive =>
      obtain rfl : n' = n := hn
      rw [h.shut, active_word _ h.count_le] at hactive
      refine ⟨?_, h.count_le, ?_⟩
      · rw [h.shut, decide_eq_true (Nat.succ_pos m.shuts)]
      · intro _
        exact ⟨Nat.succ_pos _, hactive⟩
  | reloadReturn hactive =>
      obtain rfl : n' = n := hn
      rw [h.active_eq] at hactive
      refine ⟨h.state, h.count_le, ?_⟩
      intro _
      exact ⟨hhas trivial, hactive⟩

theorem GateStep.hasShut (hstep : GateStep m l m' l') (hhas : l.hasShut → 0 < m.shuts) :
    l'.hasShut → 0 < m'.shuts := by
  intro hhas'
  cases hstep with
  | quiet _ _ _ _ _ hkeeps => exact hhas (hkeeps hhas')
  | enter _ _ => exact hhas'.elim
  | leave => exact hhas'.elim
  | shut _ _ => exact Nat.succ_pos _
  | shutReturn _ => exact hhas'.elim
  | reloadReturn _ => exact hhas'.elim

theorem GateStep.shuts_le (hstep : GateStep m l m' l') : m.shuts ≤ m'.shuts := by
  cases hstep <;> simp

theorem GateStep.returned_le (hstep : GateStep m l m' l') : m.returned ≤ m'.returned := by
  cases hstep <;> simp

end Counts

section Runs

variable {T : Type} [Fintype T] [DecidableEq T]

/-- The guards that have entered and not left. -/
def entered (s : Config T (GateWord T) GateLoc) : ℕ := tally GateLoc.inside s.loc

/-- The word counts the guards of all threads, and a closer past its first read has
shut the gate. -/
def WordInv (s : Config T (GateWord T) GateLoc) : Prop :=
  Counts s.mem (entered s) ∧ ∀ t, (s.loc t).hasShut → 0 < s.mem.shuts

theorem wordInv_init {s : Config T (GateWord T) GateLoc} (h : (gateSystem T).init s) :
    WordInv s := by
  obtain ⟨hmem, hloc⟩ := h
  have hzero : entered s = 0 := by
    apply tally_eq_zero
    intro t
    rw [hloc t]
    rfl
  constructor
  · rw [hmem, hzero]
    exact ⟨rfl, Nat.zero_le _, fun hreturned => absurd hreturned (Nat.lt_irrefl 0)⟩
  · intro t hhas
    rw [hloc t] at hhas
    exact hhas.elim

theorem wordInv_step {s : Config T (GateWord T) GateLoc} (h : WordInv s) {t : T} {m : GateWord T}
    {l : GateLoc} (hstep : GateStep s.mem (s.loc t) m l) :
    WordInv ⟨m, Function.update s.loc t l⟩ := by
  obtain ⟨hcounts, hhas⟩ := h
  constructor
  · apply hstep.counts hcounts (hhas t)
    · exact le_tally GateLoc.inside s.loc t
    · exact tally_update GateLoc.inside s.loc t l
  · apply (Function.forall_update_iff s.loc fun u l => l.hasShut → 0 < m.shuts).mpr
    refine ⟨hstep.hasShut (hhas t), ?_⟩
    intro u _ hu
    exact (hhas u hu).trans_le hstep.shuts_le

/-- Every run keeps the word in line with the guards. -/
theorem wordInv_reach {s : Config T (GateWord T) GateLoc} (hreach : (gateSystem T).Reachable s) :
    WordInv s := by
  refine interleave_invariant (I := WordInv) (fun _ => wordInv_init) ?_ s hreach
  intro s t c m l _ hinv _ hprog
  exact wordInv_step hinv (stepGate_cases hprog)

/-- Once the gate is shut a step lets no guard in. -/
theorem no_entry {s s' : Config T (GateWord T) GateLoc} {a : T × GateChoice} (hinv : WordInv s)
    (hshut : 0 < s.mem.shuts) (hstep : (gateSystem T).step s a = some s') :
    ∀ t, s'.loc t = .entered → s.loc t = .entered := by
  obtain ⟨t, c⟩ := a
  obtain ⟨m, l, hprog, rfl⟩ := Config.step_eq_some hstep
  apply (Function.forall_update_iff s.loc fun u l => l = .entered → s.loc u = .entered).mpr
  refine ⟨?_, fun _ _ hu => hu⟩
  intro hl
  have hcases := stepGate_cases hprog
  generalize s.loc t = old at hcases ⊢
  generalize hmem : s.mem = mem at hcases
  subst hl
  cases hcases with
  | quiet _ _ _ _ hinside' _ => cases hinside'
  | enter expected hstate =>
      have hopen := hinv.1.tryEnter (by rw [hmem, hstate]; exact expected.2)
      omega
  | shut _ hinside' => cases hinside'

omit [Fintype T] in
/-- A returned `close_gate` stays returned. -/
theorem returned_steps {s s' : Config T (GateWord T) GateLoc}
    (hsteps : (gateSystem T).Steps (fun _ _ => True) s s') : s.mem.returned ≤ s'.mem.returned := by
  induction hsteps with
  | refl => exact le_rfl
  | @tail mid last a _ _ hstep ih =>
      obtain ⟨t, c⟩ := a
      obtain ⟨m, l, hprog, rfl⟩ := Config.step_eq_some hstep
      exact ih.trans (stepGate_cases hprog).returned_le

/-- **Operation-gate exclusion.**  In every reachable state the gate word is the closed
bit, if it has ever been set, plus the number of guards inside; a gate that was shut
lets nobody in; and from the return of the first `close_gate` on nobody is inside. -/
theorem gate_exclusion {s : Config T (GateWord T) GateLoc}
    (hreach : (gateSystem T).Reachable s) :
    (s.mem.state = (if 0 < s.mem.shuts then closedBit else 0) + entered s ∧
      entered s ≤ activeMask ∧ isClosed s.mem.state = decide (0 < s.mem.shuts) ∧
      active s.mem.state = entered s) ∧
    (0 < s.mem.shuts → ∀ a s', (gateSystem T).step s a = some s' →
      ∀ t, s'.loc t = .entered → s.loc t = .entered) ∧
    (0 < s.mem.returned → ∀ s', (gateSystem T).Steps (fun _ _ => True) s s' →
      s'.mem.state = closedBit ∧ ∀ t, s'.loc t ≠ .entered) := by
  have hinv := wordInv_reach hreach
  refine ⟨⟨?_, hinv.1.count_le, hinv.1.isClosed_eq, hinv.1.active_eq⟩, ?_, ?_⟩
  · rw [hinv.1.state, word]
    split
    · next hshut => rw [if_pos (of_decide_eq_true hshut)]
    · next hopen => rw [if_neg (fun hpos => hopen (decide_eq_true hpos)), Nat.zero_add]
  · intro hshut a s' hstep
    exact no_entry hinv hshut hstep
  · intro hreturned s' hsteps
    have hinv' := wordInv_reach (hreach.steps hsteps)
    have hreturned' := hreturned.trans_le (returned_steps hsteps)
    obtain ⟨hshut, hzero⟩ := hinv'.1.returned hreturned'
    constructor
    · rw [hinv'.1.state, hzero, decide_eq_true hshut]
      rfl
    · intro t hentered
      have hle := le_tally GateLoc.inside s'.loc t
      rw [hentered] at hle
      change 1 ≤ entered s' at hle
      omega

/-- A guard inside when the gate is shut: the closer parks, and returns once it has
left. -/
theorem gate_exclusion_after_wait :
    ∃ s : Config (Fin 2) (GateWord (Fin 2)) GateLoc, (gateSystem (Fin 2)).Reachable s ∧
      0 < s.mem.returned ∧ s.mem.state = closedBit := by
  obtain ⟨s, hreach, hreturned⟩ :=
    (gateSystem (Fin 2)).exists_reach_of_run (fun _ _ => True) (fun _ _ => true)
      (s := ⟨{ state := 0, waiters := ∅, shuts := 0, returned := 0 }, fun _ => .outside⟩)
      ⟨rfl, fun _ => rfl⟩
      [(0, .construct), (0, .go false), (0, .go true), (0, .go false), (1, .close), (1, .go false),
        (1, .go false), (0, .go false), (0, .go false), (1, .go false), (1, .go false),
        (1, .go false)]
      (fun s => decide (0 < s.mem.returned)) (fun _ _ _ _ => trivial) (by decide +kernel)
  rw [decide_eq_true_eq] at hreturned
  exact ⟨s, hreach, hreturned, ((gate_exclusion hreach).2.2 hreturned s .refl).1⟩

end Runs

end OperationGate

end EventDispatcher
