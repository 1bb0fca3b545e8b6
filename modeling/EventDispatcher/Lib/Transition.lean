import Mathlib

/-!
# Transition systems with a step function

A system is given by its initial states and by a partial step function whose
label resolves every nondeterministic choice, so a schedule is a list of labels
and `run` executes it.  Reachability is taken under a side condition `ok` on
the state before a step and on its label: with `fun _ _ => True` it is plain
reachability, and with a real condition it describes the runs all of whose
steps meet that condition.

Only the induction principles that turn a step lemma into a statement about
whole runs are proved here.  `watch` adds a record of the run to the states; the
record cannot influence the run.
-/

namespace Transition

/-- Initial states and a partial, labelled step function. -/
structure System (σ α : Type) where
  init : σ → Prop
  step : σ → α → Option σ

namespace System

variable {σ α : Type} (sys : System σ α)

/-- States reached by runs whose every step meets `ok`. -/
inductive Reach (ok : σ → α → Prop) : σ → Prop
  | init {s : σ} (hinit : sys.init s) : Reach ok s
  | step {s s' : σ} {a : α} (tail : Reach ok s) (hok : ok s a)
      (hstep : sys.step s a = some s') : Reach ok s'

/-- States reached by any run at all. -/
abbrev Reachable : σ → Prop := sys.Reach fun _ _ => True

/-- `s'` is reached from `s` by finitely many steps meeting `ok`. -/
inductive Steps (ok : σ → α → Prop) (s : σ) : σ → Prop
  | refl : Steps ok s s
  | tail {m s' : σ} {a : α} (head : Steps ok s m) (hok : ok m a)
      (hstep : sys.step m a = some s') : Steps ok s s'

/-- Execute a list of labels, each of which has to pass `test` in its state. -/
def run (test : σ → α → Bool) (s : σ) : List α → Option σ
  | [] => some s
  | a :: rest => if test s a then (sys.step s a).bind fun m => run test m rest else none

variable {sys}

/-- **Invariant rule.**  The step obligation may use that its source state is
reachable, so invariants can be established one after another. -/
theorem Reach.invariant {ok : σ → α → Prop} {I : σ → Prop}
    (hinit : ∀ s, sys.init s → I s)
    (hstep : ∀ s a s', sys.Reach ok s → I s → ok s a →
      sys.step s a = some s' → I s') :
    ∀ s, sys.Reach ok s → I s := by
  intro s h
  induction h with
  | init h => exact hinit _ h
  | step tail hok hs ih => exact hstep _ _ _ tail ih hok hs

/-- A weaker side condition reaches at least as much. -/
theorem Reach.mono {ok ok' : σ → α → Prop} (hle : ∀ s a, ok s a → ok' s a)
    {s : σ} (h : sys.Reach ok s) : sys.Reach ok' s := by
  induction h with
  | init h => exact .init h
  | step _ hok hs ih => exact .step ih (hle _ _ hok) hs

/-- Dropping the side condition altogether. -/
theorem Reach.reachable {ok : σ → α → Prop} {s : σ} (h : sys.Reach ok s) :
    sys.Reachable s :=
  h.mono fun _ _ _ => trivial

/-- Reachability extends along further steps. -/
theorem Reach.steps {ok : σ → α → Prop} {s s' : σ} (h : sys.Reach ok s)
    (hs : sys.Steps ok s s') : sys.Reach ok s' := by
  induction hs with
  | refl => exact h
  | tail _ hok hstep ih => exact .step ih hok hstep

/-- A run from an initial state reaches its end. -/
theorem Steps.reach {ok : σ → α → Prop} {s s' : σ} (h : sys.Steps ok s s') (hinit : sys.init s) :
    sys.Reach ok s' :=
  (Reach.init hinit).steps h

/-- A weaker side condition allows at least the same steps. -/
theorem Steps.mono {ok ok' : σ → α → Prop} (hle : ∀ s a, ok s a → ok' s a) {s s' : σ}
    (h : sys.Steps ok s s') : sys.Steps ok' s s' := by
  induction h with
  | refl => exact .refl
  | tail _ hok hs ih => exact .tail ih (hle _ _ hok) hs

/-- Runs compose. -/
theorem Steps.trans {ok : σ → α → Prop} {s m s' : σ} (h : sys.Steps ok s m)
    (h' : sys.Steps ok m s') : sys.Steps ok s s' := by
  induction h' with
  | refl => exact h
  | tail _ hok hs ih => exact .tail ih hok hs

/-- Some steps are none, or begin with a first one. -/
theorem Steps.head_cases {ok : σ → α → Prop} {s s' : σ} (h : sys.Steps ok s s') :
    s = s' ∨ ∃ a m, sys.step s a = some m ∧ sys.Steps ok m s' := by
  induction h with
  | refl => exact .inl rfl
  | @tail m s' a _ hok hs ih =>
      right
      obtain rfl | ⟨b, first, hfirst, hrest⟩ := ih
      · exact ⟨a, s', hs, .refl⟩
      · exact ⟨b, first, hfirst, .tail hrest hok hs⟩

/-- **Stability rule.**  A property kept by every step from a reachable state
holds in every later state. -/
theorem Steps.stable {ok : σ → α → Prop} {I : σ → Prop} {s s' : σ}
    (hstep : ∀ m a m', sys.Reach ok m → I m → ok m a →
      sys.step m a = some m' → I m')
    (hreach : sys.Reach ok s) (hs : sys.Steps ok s s') (hI : I s) : I s' := by
  induction hs with
  | refl => exact hI
  | tail hs hok hm ih => exact hstep _ _ _ (hreach.steps hs) ih hok hm

/-- A successful execution from a reachable state is a run.  What the test has to give may
use that the states in between are reached. -/
theorem run_reach {ok : σ → α → Prop} {test : σ → α → Bool} {s s' : σ} {as : List α}
    (h : sys.Reach ok s) (hok : ∀ a ∈ as, ∀ m, sys.Reach ok m → test m a = true → ok m a)
    (hrun : sys.run test s as = some s') : sys.Reach ok s' := by
  induction as generalizing s with
  | nil =>
      cases hrun
      exact h
  | cons a rest ih =>
      simp only [run] at hrun
      split at hrun
      · next htest =>
          obtain ⟨m, hm, hrest⟩ := Option.bind_eq_some_iff.mp hrun
          exact ih (.step h (hok a List.mem_cons_self s h htest) hm)
            (fun b hb => hok b (List.mem_cons_of_mem _ hb)) hrest
      · cases hrun

/-- A successful execution makes the steps it executes. -/
theorem run_steps {ok : σ → α → Prop} {test : σ → α → Bool} {s s' : σ} {as : List α}
    (hok : ∀ m a, test m a = true → ok m a) (hrun : sys.run test s as = some s') :
    sys.Steps ok s s' := by
  induction as generalizing s with
  | nil =>
      cases hrun
      exact .refl
  | cons a rest ih =>
      simp only [run] at hrun
      split at hrun
      · next htest =>
          obtain ⟨m, hm, hrest⟩ := Option.bind_eq_some_iff.mp hrun
          exact Steps.trans (.tail .refl (hok s a htest) hm) (ih hrest)
      · cases hrun

/-- An executed schedule that ends where `p` holds exhibits a reached state with `p`. -/
theorem exists_reach_of_tested_run (sys : System σ α) (ok : σ → α → Prop) (test : σ → α → Bool)
    {s : σ} (hinit : sys.init s) (as : List α) (p : σ → Bool)
    (hok : ∀ a ∈ as, ∀ m, sys.Reach ok m → test m a = true → ok m a)
    (h : (sys.run test s as).any p = true) : ∃ s', sys.Reach ok s' ∧ p s' = true := by
  cases hrun : sys.run test s as with
  | none => simp [hrun] at h
  | some s' => exact ⟨s', run_reach (.init hinit) hok hrun, by simpa [hrun] using h⟩

/-- The same with a test that is enough in any state. -/
theorem exists_reach_of_run (sys : System σ α) (ok : σ → α → Prop) (test : σ → α → Bool) {s : σ}
    (hinit : sys.init s) (as : List α) (p : σ → Bool)
    (hok : ∀ a ∈ as, ∀ m, test m a = true → ok m a) (h : (sys.run test s as).any p = true) :
    ∃ s', sys.Reach ok s' ∧ p s' = true :=
  exists_reach_of_tested_run sys ok test hinit as p (fun a ha m _ => hok a ha m) h

/-- The system with a record that every step adds to. -/
def watch {ρ : Type} (sys : System σ α) (record : σ → α → σ → ρ → ρ) : System (σ × ρ) α where
  init p := sys.init p.1
  step p a := (sys.step p.1 a).map fun s' => (s', record p.1 a s' p.2)

/-- **Stability rule for a watched run.**  What the run and its record keep together holds
at its end. -/
theorem Steps.watched_within {ρ : Type} {record : σ → α → σ → ρ → ρ} {ok : σ × ρ → α → Prop}
    {within : σ → α → Prop} {I : σ → ρ → Prop} {p p' : σ × ρ}
    (h : (sys.watch record).Steps ok p p') (hwithin : ∀ p a, ok p a → within p.1 a)
    (hreach : sys.Reach within p.1) (hI : I p.1 p.2)
    (hstep : ∀ s r a s', sys.Reach within s → I s r → ok (s, r) a → sys.step s a = some s' →
      I s' (record s a s' r)) :
    sys.Reach within p'.1 ∧ I p'.1 p'.2 := by
  induction h with
  | refl => exact ⟨hreach, hI⟩
  | tail _ hok hs ih =>
      obtain ⟨hreach', hI'⟩ := ih
      obtain ⟨s', hs', heq⟩ := Option.map_eq_some_iff.mp hs
      subst heq
      exact ⟨.step hreach' (hwithin _ _ hok) hs', hstep _ _ _ _ hreach' hI' hok hs'⟩

/-- The same for a run of any steps. -/
theorem Steps.watched {ρ : Type} {record : σ → α → σ → ρ → ρ} {ok : σ × ρ → α → Prop}
    {I : σ → ρ → Prop} {p p' : σ × ρ} (h : (sys.watch record).Steps ok p p')
    (hreach : sys.Reachable p.1) (hI : I p.1 p.2)
    (hstep : ∀ s r a s', sys.Reachable s → I s r → ok (s, r) a → sys.step s a = some s' →
      I s' (record s a s' r)) :
    sys.Reachable p'.1 ∧ I p'.1 p'.2 :=
  h.watched_within (fun _ _ _ => trivial) hreach hI hstep

/-- A watched run is a run. -/
theorem Reach.of_watched {ρ : Type} {record : σ → α → σ → ρ → ρ} {ok : σ → α → Prop} {p : σ × ρ}
    (h : (sys.watch record).Reach (fun p a => ok p.1 a) p) : sys.Reach ok p.1 := by
  induction h with
  | init h => exact .init h
  | step _ hok hs ih =>
      obtain ⟨s', hs', heq⟩ := Option.map_eq_some_iff.mp hs
      subst heq
      exact .step ih hok hs'

/-- Any run can be watched. -/
theorem Reach.exists_watched {ρ : Type} [Inhabited ρ] (record : σ → α → σ → ρ → ρ)
    {ok : σ → α → Prop} {s : σ} (h : sys.Reach ok s) :
    ∃ r, (sys.watch record).Reach (fun p a => ok p.1 a) (s, r) := by
  induction h with
  | init h => exact ⟨default, .init h⟩
  | @step s s' a _ hok hs ih =>
      obtain ⟨r, hr⟩ := ih
      refine ⟨record s a s' r, .step hr hok (a := a) ?_⟩
      simp [watch, hs]

/-- Systems with the same steps reach the same from the same initial states. -/
theorem Reach.of_init {sys' : System σ α} {ok : σ → α → Prop} (hsame : sys'.step = sys.step)
    (hinit : ∀ s, sys.init s → sys'.init s) {s : σ} (h : sys.Reach ok s) : sys'.Reach ok s := by
  induction h with
  | init h => exact .init (hinit _ h)
  | step _ hok hs ih => exact .step ih hok (hsame ▸ hs)

/-- A system whose steps are made of steps of another reaches no more than that one. -/
theorem Reach.of_leaps {β : Type} {leaps : System σ β} {ok : σ → α → Prop} {s : σ}
    (h : leaps.Reachable s) (hinit : ∀ s, leaps.init s → sys.init s)
    (hstep : ∀ s b s', leaps.step s b = some s' → sys.Steps ok s s') : sys.Reach ok s := by
  induction h with
  | init h => exact .init (hinit _ h)
  | step _ _ hs ih => exact ih.steps (hstep _ _ _ hs)

end System

end Transition
