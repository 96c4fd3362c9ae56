import Mathlib.Data.List.Basic

/-!
# Reservations in a directory

Workers reserve keys in a shared directory. A reservation is an entry with a tag;
the worker that made it keeps key and tag and gives the key back by removing the
entry, if it still has that tag. An entry can also be evicted, without regard to
who holds it.

As long as only entries without a holder are evicted, each key has at most one
holder and the directory lists exactly the keys that are held.
-/

namespace Slots

open Function (update update_of_ne)

universe u v

section Updates

variable {α : Type u} {β : Type v} [DecidableEq α] {map : α → Option β}

theorem update_some_eq_some_iff :
    update map place (some value) other = some found ↔
      (other = place ∧ value = found) ∨ (other ≠ place ∧ map other = some found) := by
  by_cases same : other = place
  · simp [same]
  · simp [same]

theorem update_none_eq_some_iff :
    update map place none other = some found ↔ other ≠ place ∧ map other = some found := by
  by_cases same : other = place
  · simp [same]
  · simp [same]

end Updates

variable {Key : Type u} {Tag : Type v}

/-- A directory and what each worker holds. -/
structure State (Key : Type u) (Tag : Type v) where
  directory : Key → Option Tag
  holds : Nat → Option (Key × Tag)

/-- Remove an entry if it has the tag. -/
def release [DecidableEq Key] [DecidableEq Tag] (directory : Key → Option Tag) (key : Key)
    (tag : Tag) : Key → Option Tag :=
  if directory key = some tag then update directory key none else directory

/-- What one step can do; the label names a key that is evicted. -/
inductive Move [DecidableEq Key] [DecidableEq Tag] :
    State Key Tag → Option Key → State Key Tag → Prop
  | stay (state) : Move state none state
  | claim (state : State Key Tag) (worker : Nat) (key : Key) (tag : Tag)
      (vacant : state.directory key = none)
      (free : state.holds worker = none) :
      Move state none
        { directory := update state.directory key (some tag)
          holds := update state.holds worker (some (key, tag)) }
  | release (state : State Key Tag) (worker : Nat) (key : Key) (tag : Tag)
      (holding : state.holds worker = some (key, tag)) :
      Move state none
        { directory := Slots.release state.directory key tag
          holds := update state.holds worker none }
  | evict (state : State Key Tag) (key : Key) :
      Move state (some key)
        { directory := update state.directory key none, holds := state.holds }

/-- While one worker gives its key back, the others keep what they hold. -/
theorem Move.holds_of_release [DecidableEq Key] [DecidableEq Tag] {state after : State Key Tag}
    (moved : Move state evicted after) (held : state.holds worker ≠ none)
    (given : after.holds worker = none) (different : other ≠ worker) :
    after.holds other = state.holds other := by
  cases moved with
  | stay | evict => exact absurd given held
  | claim claimer key tag vacant free =>
    have away : worker ≠ claimer := by
      rintro rfl
      exact held free
    simp only [update_of_ne away] at given
    exact absurd given held
  | release releaser key tag holding =>
    by_cases self : worker = releaser
    · exact update_of_ne (self ▸ different) _ _
    · simp only [update_of_ne self] at given
      exact absurd given held

/-- Each key has at most one holder, and the directory lists the keys held. -/
structure Exclusive (state : State Key Tag) : Prop where
  listed : ∀ worker key tag, state.holds worker = some (key, tag) → state.directory key = some tag
  held : ∀ key tag, state.directory key = some tag → ∃ worker, state.holds worker = some (key, tag)
  alone : ∀ worker other key tag tag', state.holds worker = some (key, tag) →
    state.holds other = some (key, tag') → worker = other

namespace Exclusive

variable {state after : State Key Tag}

section

variable (exclusive : Exclusive state)

include exclusive

theorem claim [DecidableEq Key] (tag : Tag) (vacant : state.directory key = none)
    (free : state.holds worker = none) :
    Exclusive
      { directory := update state.directory key (some tag)
        holds := update state.holds worker (some (key, tag)) : State Key Tag } := by
  -- nobody held the key, or the directory would have listed it
  have unheld (other : Nat) (tag' : Tag) : state.holds other ≠ some (key, tag') := by
    intro holding
    have entry := exclusive.listed other key tag' holding
    rw [vacant] at entry
    cases entry
  constructor
  · intro other key' tag' holding
    rcases update_some_eq_some_iff.mp holding with ⟨_, new⟩ | ⟨_, before⟩
    · cases new
      exact Function.update_self _ _ _
    · refine update_some_eq_some_iff.mpr (.inr ⟨?_, exclusive.listed other key' tag' before⟩)
      rintro rfl
      exact unheld other tag' before
  · intro key' tag' entry
    rcases update_some_eq_some_iff.mp entry with ⟨rfl, rfl⟩ | ⟨_, before⟩
    · exact ⟨worker, Function.update_self _ _ _⟩
    · obtain ⟨other, holding⟩ := exclusive.held key' tag' before
      refine ⟨other, update_some_eq_some_iff.mpr (.inr ⟨?_, holding⟩)⟩
      rintro rfl
      rw [free] at holding
      cases holding
  · intro first second key' tag₁ tag₂ firstHolds secondHolds
    rcases update_some_eq_some_iff.mp firstHolds with ⟨rfl, new⟩ | ⟨_, firstBefore⟩ <;>
      rcases update_some_eq_some_iff.mp secondHolds with ⟨rfl, other⟩ | ⟨_, secondBefore⟩
    · rfl
    · cases new
      exact absurd secondBefore (unheld second tag₂)
    · cases other
      exact absurd firstBefore (unheld first tag₁)
    · exact exclusive.alone first second key' tag₁ tag₂ firstBefore secondBefore

theorem release [DecidableEq Key] [DecidableEq Tag]
    (holding : state.holds worker = some (key, tag)) :
    Exclusive
      { directory := Slots.release state.directory key tag
        holds := update state.holds worker none : State Key Tag } := by
  rw [Slots.release, if_pos (exclusive.listed worker key tag holding)]
  constructor
  · intro other key' tag' holds
    obtain ⟨different, before⟩ := update_none_eq_some_iff.mp holds
    refine update_none_eq_some_iff.mpr ⟨?_, exclusive.listed other key' tag' before⟩
    -- the released key had this worker as its only holder
    rintro rfl
    exact different (exclusive.alone other worker key' tag' tag before holding)
  · intro key' tag' entry
    obtain ⟨away, before⟩ := update_none_eq_some_iff.mp entry
    obtain ⟨other, holds⟩ := exclusive.held key' tag' before
    refine ⟨other, update_none_eq_some_iff.mpr ⟨?_, holds⟩⟩
    rintro rfl
    rw [holding] at holds
    exact away (Prod.mk.inj (Option.some.inj holds)).1.symm
  · intro first second key' tag₁ tag₂ firstHolds secondHolds
    exact exclusive.alone first second key' tag₁ tag₂
      (update_none_eq_some_iff.mp firstHolds).2 (update_none_eq_some_iff.mp secondHolds).2

/-- A step that evicts nobody's reservation keeps reservations exclusive. -/
theorem move [DecidableEq Key] [DecidableEq Tag] (moved : Move state evicted after)
    (unheld : ∀ key ∈ evicted, ∀ worker tag, state.holds worker ≠ some (key, tag)) :
    Exclusive after := by
  cases moved with
  | stay => exact exclusive
  | claim worker key tag vacant free => exact exclusive.claim tag vacant free
  | release worker key tag holding => exact exclusive.release holding
  | evict key =>
    have vacant : state.directory key = none := by
      cases entry : state.directory key with
      | none => rfl
      | some tag =>
        obtain ⟨worker, holding⟩ := exclusive.held key tag entry
        exact absurd holding (unheld key rfl worker tag)
    rw [← vacant, Function.update_eq_self]
    exact exclusive

end

end Exclusive

end Slots
