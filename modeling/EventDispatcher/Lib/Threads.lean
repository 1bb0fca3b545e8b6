import EventDispatcher.Lib.Transition
import Mathlib

/-!
# Interleaved threads over a shared memory

A thread program maps a choice, the shared memory and the thread's own local
state to a new memory and a new local state.  `interleave` lets any thread take
the next step, one at a time; each step is atomic.

Counting arguments over all threads go through `tally`, the sum of a weight of
the local states.  One thread moves at a time, so `tally_update` says all there
is to say about how such a sum changes.
-/

namespace Transition

/-- Shared memory and one local state for each thread. -/
@[ext]
structure Config (T M L : Type) where
  mem : M
  loc : T → L

section Interleave

variable {T C M L : Type} [DecidableEq T]

/-- The step of one thread inside a configuration. -/
def Config.step (prog : T → C → M → L → Option (M × L)) (s : Config T M L)
    (a : T × C) : Option (Config T M L) :=
  (prog a.1 a.2 s.mem (s.loc a.1)).map fun r =>
    ⟨r.1, Function.update s.loc a.1 r.2⟩

/-- Every thread runs `prog`; the label names the thread and its choice. -/
def interleave (prog : T → C → M → L → Option (M × L))
    (init : Config T M L → Prop) : System (Config T M L) (T × C) where
  init := init
  step := Config.step prog

/-- A step of the interleaving is a step of one thread's program. -/
theorem Config.step_eq_some {prog : T → C → M → L → Option (M × L)}
    {s s' : Config T M L} {t : T} {c : C}
    (h : Config.step prog s (t, c) = some s') :
    ∃ m l, prog t c s.mem (s.loc t) = some (m, l) ∧
      s' = ⟨m, Function.update s.loc t l⟩ := by
  obtain ⟨⟨m, l⟩, hr, rfl⟩ := Option.map_eq_some_iff.mp h
  exact ⟨m, l, hr, rfl⟩

/-- **Invariant rule for interleavings**: it is enough to look at one step of
one thread. -/
theorem interleave_invariant {prog : T → C → M → L → Option (M × L)}
    {init : Config T M L → Prop} {ok : Config T M L → T × C → Prop}
    {I : Config T M L → Prop} (hinit : ∀ s, init s → I s)
    (hstep : ∀ (s : Config T M L) t c m l, (interleave prog init).Reach ok s →
      I s → ok s (t, c) → prog t c s.mem (s.loc t) = some (m, l) →
      I ⟨m, Function.update s.loc t l⟩) :
    ∀ s, (interleave prog init).Reach ok s → I s := by
  refine @System.Reach.invariant _ _ (interleave prog init) ok I hinit ?_
  rintro s ⟨t, c⟩ s' hreach hI hok hs
  obtain ⟨m, l, hprog, rfl⟩ := Config.step_eq_some hs
  exact hstep s t c m l hreach hI hok hprog

end Interleave

section Tally

variable {T L A : Type} [Fintype T] [AddCommMonoid A]

/-- Sum of a weight of the local states over all threads. -/
def tally (f : L → A) (loc : T → L) : A := ∑ t, f (loc t)

/-- If every thread weighs zero, so does the tally. -/
theorem tally_eq_zero {f : L → A} {loc : T → L} (h : ∀ t, f (loc t) = 0) :
    tally f loc = 0 :=
  Finset.sum_eq_zero fun t _ => h t

/-- One thread's weight is at most the tally. -/
theorem le_tally (f : L → ℕ) (loc : T → L) (t : T) : f (loc t) ≤ tally f loc :=
  Finset.single_le_sum (f := fun u => f (loc u)) (fun _ _ => Nat.zero_le _)
    (Finset.mem_univ t)

/-- Threads that weigh something are at most as many as the tally. -/
theorem card_le_tally {f : L → ℕ} {loc : T → L} {S : Finset T}
    (h : ∀ t ∈ S, 1 ≤ f (loc t)) : S.card ≤ tally f loc :=
  calc S.card = ∑ _t ∈ S, 1 := by simp
    _ ≤ ∑ t ∈ S, f (loc t) := Finset.sum_le_sum h
    _ ≤ tally f loc := Finset.sum_le_univ_sum_of_nonneg fun _ => Nat.zero_le _

/-- A tally of indicators of a set is at most its size. -/
theorem tally_le_card {f : L → ℕ} {loc : T → L} {S : Finset T}
    (hin : ∀ t, f (loc t) ≤ 1) (hout : ∀ t, t ∉ S → f (loc t) = 0) :
    tally f loc ≤ S.card :=
  calc tally f loc = ∑ t ∈ S, f (loc t) :=
        (Finset.sum_subset (Finset.subset_univ S) fun t _ ht => hout t ht).symm
    _ ≤ ∑ _t ∈ S, 1 := Finset.sum_le_sum fun t _ => hin t
    _ = S.card := by simp

variable [DecidableEq T]

/-- What one thread's move does to a tally. -/
theorem tally_update (f : L → A) (loc : T → L) (t : T) (l : L) :
    tally f (Function.update loc t l) + f (loc t) = tally f loc + f l := by
  unfold tally
  rw [← Finset.add_sum_erase _ _ (Finset.mem_univ t),
    ← Finset.add_sum_erase _ (fun u => f (loc u)) (Finset.mem_univ t)]
  have hrest : ∑ u ∈ Finset.univ.erase t, f (Function.update loc t l u) =
      ∑ u ∈ Finset.univ.erase t, f (loc u) := by
    apply Finset.sum_congr rfl
    intro u hu
    rw [Function.update_of_ne (Finset.ne_of_mem_erase hu)]
  rw [hrest, Function.update_self]
  abel

/-- **Balance rule.**  What a move puts into `y` and into its thread's weight it puts into
`x`, so the balance of `x` against `y` and the tally stays. -/
theorem tally_balance {A : Type} [AddCancelCommMonoid A] {f : L → A} {loc : T → L} {t : T} {l : L}
    {x x' y y' : A} (h : x' + (y + f (loc t)) = x + (y' + f l)) (hbalance : x = y + tally f loc) :
    x' = y' + tally f (Function.update loc t l) := by
  have hmove := tally_update f loc t l
  apply add_right_cancel (b := y + f (loc t))
  calc x' + (y + f (loc t)) = y + tally f loc + (y' + f l) := by rw [h, hbalance]
    _ = y + y' + (tally f loc + f l) := by abel
    _ = y + y' + (tally f (Function.update loc t l) + f (loc t)) := by rw [hmove]
    _ = y' + tally f (Function.update loc t l) + (y + f (loc t)) := by abel

end Tally

end Transition
