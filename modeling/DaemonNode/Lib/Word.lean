import Mathlib.Algebra.GroupWithZero.Nat
import Mathlib.Data.Nat.Init
import Mathlib.Tactic.Common

/-!
# Fixed-width unsigned sums

Machine words are natural numbers here, and the width enters only where a sum
can leave its word. An unchecked sum that overflows either traps or wraps,
depending on how the program was built; a saturating operation clamps.
-/

namespace Word

/-- What an unchecked sum does when it leaves its word. -/
inductive Overflow
  /-- The program stops: the sum has no value. -/
  | trap
  /-- The sum is reduced modulo the word size. -/
  | wrap
  deriving DecidableEq, Repr

/-- Unchecked `+` on words of `width` bits. -/
def Overflow.add (mode : Overflow) (width left right : Nat) : Option Nat :=
  if left + right < 2 ^ width then some (left + right)
  else
    match mode with
    | .trap => none
    | .wrap => some ((left + right) % 2 ^ width)

/-- Unchecked `*` on words of `width` bits. -/
def Overflow.mul (mode : Overflow) (width left right : Nat) : Option Nat :=
  if left * right < 2 ^ width then some (left * right)
  else
    match mode with
    | .trap => none
    | .wrap => some ((left * right) % 2 ^ width)

/-- Unchecked sum of the terms of a list, from left to right. -/
def Overflow.sum (mode : Overflow) (width : Nat) (term : α → Option Nat)
    (items : List α) : Option Nat :=
  items.foldlM (fun total item => do
    let value ← term item
    mode.add width total value) 0

/-- Sum clamped to the largest word of `width` bits. -/
def saturatingAdd (width left right : Nat) : Nat :=
  min (left + right) (2 ^ width - 1)

/-- Product clamped to the largest word of `width` bits. -/
def saturatingMul (width left right : Nat) : Nat :=
  min (left * right) (2 ^ width - 1)

namespace Overflow

/-- A trapping sum has a value exactly when it stays inside its word. -/
theorem trap_add_eq_some_iff {width left right sum : Nat} :
    trap.add width left right = some sum ↔ left + right < 2 ^ width ∧ sum = left + right := by
  unfold add
  by_cases inside : left + right < 2 ^ width
  · simp [inside, eq_comm]
  · simp [inside]

/-- A sum inside its word is exact, whatever the build does. -/
theorem add_of_lt (mode : Overflow) (inside : left + right < 2 ^ width) :
    mode.add width left right = some (left + right) := by
  unfold add
  rw [if_pos inside]

/-- A product inside its word is exact, whatever the build does. -/
theorem mul_of_lt (mode : Overflow) (inside : left * right < 2 ^ width) :
    mode.mul width left right = some (left * right) := by
  unfold mul
  rw [if_pos inside]

/-- A trapping product has a value exactly when it stays inside its word. -/
theorem trap_mul_eq_some_iff {width left right product : Nat} :
    trap.mul width left right = some product ↔
      left * right < 2 ^ width ∧ product = left * right := by
  unfold mul
  by_cases inside : left * right < 2 ^ width
  · simp [inside, eq_comm]
  · simp [inside]

/-- A sum that does not trap is the sum of every build. -/
theorem add_of_trap (mode : Overflow) {sum : Nat} (added : trap.add width left right = some sum) :
    mode.add width left right = some sum := by
  obtain ⟨inside, rfl⟩ := trap_add_eq_some_iff.mp added
  exact mode.add_of_lt inside

/-- A product that does not trap is the product of every build. -/
theorem mul_of_trap (mode : Overflow) (multiplied : trap.mul width left right = some product) :
    mode.mul width left right = some product := by
  obtain ⟨inside, rfl⟩ := trap_mul_eq_some_iff.mp multiplied
  exact mode.mul_of_lt inside

/-- A sum of terms that does not trap is the sum of every build. -/
theorem sum_of_trap (mode : Overflow)
    (terms : ∀ item value, trapping item = some value → term item = some value)
    (summed : trap.sum width trapping items = some total) :
    mode.sum width term items = some total := by
  unfold sum at summed ⊢
  generalize 0 = start at summed ⊢
  induction items generalizing start with
  | nil => exact summed
  | cons item items ih =>
    rw [List.foldlM_cons] at summed ⊢
    obtain ⟨next, added, rest⟩ := Option.bind_eq_some_iff.mp summed
    obtain ⟨value, found, added⟩ := Option.bind_eq_some_iff.mp added
    rw [terms item value found]
    simp only [Option.bind_eq_bind, Option.bind_some, mode.add_of_trap added]
    exact ih next rest

/-- A sum of terms that stays inside its word is exact. -/
theorem sum_of_lt (mode : Overflow) (terms : ∀ item ∈ items, term item = some (value item))
    (inside : (items.map value).sum < 2 ^ width) :
    mode.sum width term items = some (items.map value).sum := by
  suffices accumulated : ∀ total, total + (items.map value).sum < 2 ^ width →
      items.foldlM (fun total item => do
        let value ← term item
        mode.add width total value) total = some (total + (items.map value).sum) by
    have whole := accumulated 0 (by rwa [Nat.zero_add])
    rwa [Nat.zero_add] at whole
  clear inside
  induction items with
  | nil => intro total _; rfl
  | cons item items ih =>
    intro total inside
    rw [List.map_cons, List.sum_cons, ← Nat.add_assoc] at inside ⊢
    rw [List.foldlM_cons, terms item List.mem_cons_self]
    have added := mode.add_of_lt (Nat.lt_of_le_of_lt (Nat.le_add_right _ _) inside)
    simp only [Option.bind_eq_bind, Option.bind_some, added]
    apply ih _ _ inside
    intro other member
    exact terms other (List.mem_cons_of_mem _ member)

/-- Whatever the build does, a sum that has a value is no larger than the
exact sum. -/
theorem add_le {mode : Overflow} {sum : Nat} (added : mode.add width left right = some sum) :
    sum ≤ left + right := by
  unfold add at added
  split at added
  · simp_all
  · cases mode with
    | trap => simp at added
    | wrap =>
      simp only [Option.some.injEq] at added
      exact added ▸ Nat.mod_le _ _

/-- A sum that is no smaller than a word of it did not overflow. -/
theorem lt_of_le_add
    {mode : Overflow}
    {sum : Nat}
    (added : mode.add width left right = some sum)
    (first : left < 2 ^ width)
    (second : right < 2 ^ width)
    (above : left ≤ sum) :
    left + right < 2 ^ width := by
  by_contra outside
  unfold add at added
  rw [if_neg outside] at added
  cases mode with
  | trap => cases added
  | wrap =>
    cases added
    rw [Nat.mod_eq_sub_mod (Nat.le_of_not_lt outside), Nat.mod_eq_of_lt] at above <;> omega

end Overflow

end Word
