import Mathlib.Tactic.Common

/-!
# Chains of checks

Fallible code makes its checks one after another and answers with the first
that fails. Such a chain succeeds exactly when every check passes.
-/

namespace Checks

/-- A check passes when its condition for refusal is false. -/
@[simp] theorem refuse_eq_ok_iff [Decidable condition] :
    (if condition then Except.error refusal else rest) = .ok value ↔
      ¬condition ∧ rest = .ok value := by
  split
  · simp [*]
  · simp [*]

/-- A computation succeeds when each part of it does. -/
theorem bind_eq_ok_iff {first : Except ε α} {next : α → Except ε β} :
    first >>= next = .ok result ↔ ∃ value, first = .ok value ∧ next value = .ok result := by
  cases first <;> simp [bind, Except.bind]

theorem mapError_eq_ok_iff {first : Except ε α} {rename : ε → δ} :
    first.mapError rename = .ok value ↔ first = .ok value := by
  cases first <;> simp [Except.mapError]

end Checks
