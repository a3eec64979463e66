/-!
# Counted repetition

Runs a fallible computation with state a given number of times, and stops at
the first failure with the state it left.
-/
namespace ClassFormat

variable {ε σ α : Type}

/-- An answer that is given in any state, and leaves it as it is. -/
def ofExcept (result : Except ε α) : EStateM ε σ α := fun s =>
  match result with
  | .ok a => .ok a s
  | .error e => .error e s

/-- Repeats `step` behind the results so far, last one first. -/
def collectOnto (step : EStateM ε σ α) : Nat → List α → EStateM ε σ (List α)
  | 0, results => pure results.reverse
  | count + 1, results => do
    let result ← step
    collectOnto step count (result :: results)

/-- The results of `count` runs of `step`, in order. -/
def collect (count : Nat) (step : EStateM ε σ α) : EStateM ε σ (List α) :=
  collectOnto step count []

@[simp] theorem collect_zero (step : EStateM ε σ α) : collect 0 step = pure [] := rfl

theorem collectOnto_eq (step : EStateM ε σ α) (count : Nat) (results : List α) :
    collectOnto step count results = do return results.reverse ++ (← collect count step) := by
  induction count generalizing results with
  | zero => simp [collectOnto, collect]
  | succ count ih =>
    simp only [collect, collectOnto, bind_assoc]
    congr 1
    funext result
    rw [ih (result :: results), ih [result]]
    simp

theorem collect_succ (step : EStateM ε σ α) (count : Nat) :
    collect (count + 1) step = do
      let result ← step
      let results ← collect count step
      return result :: results := by
  simp only [collect, collectOnto]
  congr 1
  funext result
  rw [collectOnto_eq]
  rfl

end ClassFormat
