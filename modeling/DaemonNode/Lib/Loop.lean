import Mathlib.Tactic.Common

/-!
# Loops with fuel

A loop runs its body until the body returns. A body may itself run out of fuel,
in loops of its own, and then the loop has no result either. That a loop never
returns is that it has no result whatever its fuel.
-/

namespace Loop

universe u v

variable {State : Type u} {Result : Type v}

/-- Repeat a body until it returns a result; no result when the fuel is used up. -/
def run (body : State → Option (Result ⊕ State)) : Nat → State → Option Result
  | 0, _ => none
  | fuel + 1, state =>
    match body state with
    | none => none
    | some (.inl result) => some result
    | some (.inr after) => run body fuel after

variable {body : State → Option (Result ⊕ State)}

/-- A body that returns ends the loop. -/
theorem run_of_returns (returns : body state = some (.inl result)) (fuel : Nat) :
    run body (fuel + 1) state = some result := by
  rw [run, returns]

/-- Divergence rule: a loop whose body goes on from every state of an invariant,
into the invariant, never returns. -/
theorem run_eq_none (holds : State → Prop)
    (continues : ∀ state, holds state → ∃ after, body state = some (.inr after) ∧ holds after)
    (initial : holds state) (fuel : Nat) :
    run body fuel state = none := by
  induction fuel generalizing state with
  | zero => rfl
  | succ fuel ih =>
    obtain ⟨after, goesOn, kept⟩ := continues state initial
    rw [run, goesOn]
    exact ih kept

end Loop
