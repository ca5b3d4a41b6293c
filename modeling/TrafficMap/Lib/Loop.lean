import Mathlib.Data.Nat.Notation

/-!
# Loops that end or throw

A loop is given by its round: it throws, it goes on from a new state, or it ends
with a result.  It is run for a number of rounds, and the rule for it has an
invariant and a measure: the rounds beyond the measure are not needed.
-/

namespace Loop

variable {σ ρ : Type*}

/-- What comes after a round that does not throw. -/
inductive Next (σ ρ : Type*)
  | again (s : σ)
  | done (r : ρ)

/-- The result of the loop, if it ends within so many rounds and does not throw. -/
def run (round : σ → Option (Next σ ρ)) : ℕ → σ → Option ρ
  | 0, _ => none
  | n + 1, s =>
      match round s with
      | none => none
      | some (.again s') => run round n s'
      | some (.done r) => some r

section Rules

variable {round : σ → Option (Next σ ρ)} {s : σ}

theorem run_of_again {s' : σ} (h : round s = some (.again s')) (n : ℕ) :
    run round (n + 1) s = run round n s' := by
  rw [run, h]

theorem run_of_done {r : ρ} (h : round s = some (.done r)) (n : ℕ) :
    run round (n + 1) s = some r := by
  rw [run, h]

/-- The rule: the invariant keeps the result that is promised, and the measure
falls in every round that is not the last. -/
theorem run_eq_some (I : σ → Prop) (result : σ → ρ) (μ : σ → ℕ)
    (hround : ∀ s, I s → round s = some (.done (result s)) ∨
      ∃ s', round s = some (.again s') ∧ I s' ∧ result s' = result s ∧ μ s' < μ s)
    (hs : I s) {n : ℕ} (hn : μ s < n) : run round n s = some (result s) := by
  induction n generalizing s with
  | zero => exact absurd hn (Nat.not_lt_zero _)
  | succ n ih =>
      rcases hround s hs with hdone | ⟨s', hagain, hs', hresult, hless⟩
      · exact run_of_done hdone n
      · rw [run_of_again hagain, ← hresult]
        exact ih hs' (Nat.lt_of_lt_of_le hless (Nat.le_of_lt_succ hn))

end Rules

end Loop
