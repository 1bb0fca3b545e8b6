import Mathlib

/-!
# Operations executed one at a time

`outputs` collects what a specification answers to a list of operations, `replay`
what an implementation answers; an implementation step may be undefined.  A
relation between the states that every single operation keeps, with equal answers,
makes whole sequences of operations agree.
-/

namespace Replay

variable {σ τ I O : Type}

/-- The answers of a specification. -/
def outputs (spec : τ → I → O × τ) (t : τ) : List I → List O
  | [] => []
  | i :: rest => (spec t i).1 :: outputs spec (spec t i).2 rest

/-- The answers of an implementation, if every step is defined. -/
def replay (exec : σ → I → Option (O × σ)) (s : σ) : List I → Option (List O)
  | [] => some []
  | i :: rest => (exec s i).bind fun r => (replay exec r.2 rest).map fun os => r.1 :: os

/-- One operation of the implementation answers as the specification does and keeps
the relation. -/
def Simulates (R : σ → τ → Prop) (exec : σ → I → Option (O × σ)) (spec : τ → I → O × τ) : Prop :=
  ∀ s t i, R s t → ∃ s', exec s i = some ((spec t i).1, s') ∧ R s' (spec t i).2

/-- **Simulation rule**: related states answer alike for ever. -/
theorem Simulates.replay {R : σ → τ → Prop} {exec : σ → I → Option (O × σ)}
    {spec : τ → I → O × τ} (hsim : Simulates R exec spec) {s : σ} {t : τ} (hR : R s t)
    (is : List I) : Replay.replay exec s is = some (outputs spec t is) := by
  induction is generalizing s t with
  | nil => rfl
  | cons i rest ih =>
      obtain ⟨s', hexec, hR'⟩ := hsim s t i hR
      rw [Replay.replay, hexec, Option.bind_some, ih hR']
      rfl

end Replay
