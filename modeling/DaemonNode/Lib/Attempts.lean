import Mathlib.Tactic.Common

/-!
# A budget of attempts

A ticket is issued once, with a budget of attempts. While it is live an attempt may
be admitted when none is running under it. An attempt that fails spends one unit and
frees the ticket, and a budget that is spent retires it; an attempt that succeeds
retires it, and so may anybody at any time. Attempts that were running when the
ticket was retired still end.

The account of a ticket counts its attempts.
-/

namespace Attempts

/-- The standing of a ticket. -/
inductive Standing
  | unissued
  | live (remaining : Nat) (busy : Bool)
  | retired
  deriving DecidableEq, Repr

namespace Standing

/-- Retire a live ticket. -/
def retire : Standing → Standing
  | .unissued => .unissued
  | .live _ _ => .retired
  | .retired => .retired

/-- Spend one unit of a live ticket and free it. -/
def spend : Standing → Standing
  | .unissued => .unissued
  | .live remaining _ =>
    if remaining - 1 = 0 then .retired else .live (remaining - 1) false
  | .retired => .retired

end Standing

/-- A ticket and the attempts made under it. -/
@[ext]
structure Account where
  standing : Standing
  (admitted running succeeded : Nat)
  deriving DecidableEq, Repr

/-- What can happen to a ticket. -/
inductive Move (budget : Nat) (account : Account) : Account → Prop
  | stay : Move budget account account
  | issue (unissued : account.standing = .unissued) :
      Move budget account { account with standing := .live budget false }
  | retire : Move budget account { account with standing := account.standing.retire }
  | admitted (remaining : Nat) (free : account.standing = .live remaining false) :
      Move budget account
        { account with
          standing := .live remaining true
          admitted := account.admitted + 1
          running := account.running + 1 }
  | failed (running : Nat) (one : account.running = running + 1) :
      Move budget account { account with standing := account.standing.spend, running := running }
  | succeeded (running : Nat) (one : account.running = running + 1) :
      Move budget account
        { account with
          standing := account.standing.retire
          running := running
          succeeded := account.succeeded + 1 }

/-- What the moves keep: a live ticket has spent a unit for every attempt but the one
that runs. -/
def Sound (budget : Nat) (account : Account) : Prop :=
  match account.standing with
  | .unissued => account.admitted = 0 ∧ account.running = 0 ∧ account.succeeded = 0
  | .live remaining busy =>
    account.admitted + remaining = budget + busy.toNat ∧ 0 < remaining ∧
      account.running = busy.toNat ∧ account.succeeded = 0
  | .retired => account.admitted ≤ budget ∧ account.running + account.succeeded ≤ 1

section

variable (sound : Sound budget account)

include sound

theorem Sound.of_live (live : account.standing = .live remaining busy) :
    account.admitted + remaining = budget + busy.toNat ∧ 0 < remaining ∧
      account.running = busy.toNat ∧ account.succeeded = 0 := by
  rw [Sound, live] at sound
  exact sound

/-- The bounds of the account of a ticket. -/
theorem Sound.bounds : account.admitted ≤ budget ∧ account.running + account.succeeded ≤ 1 := by
  rw [Sound] at sound
  split at sound
  · omega
  · rename_i busy _
    have atMost := busy.toNat_le
    omega
  · exact sound

/-- A ticket is retired without harm. -/
theorem Sound.retire : Sound budget { account with standing := account.standing.retire } := by
  have bounds := sound.bounds
  cases standing : account.standing with
  | unissued =>
    rw [Sound, standing] at sound
    exact sound
  | live | retired => exact bounds

theorem Sound.failed {running : Nat} (one : account.running = running + 1) :
    Sound budget { account with standing := account.standing.spend, running := running } := by
  have bounds := sound.bounds
  cases standing : account.standing with
  | unissued =>
    rw [Sound, standing] at sound
    omega
  | live remaining busy =>
    obtain ⟨total, positive, runs, none⟩ := sound.of_live standing
    have atMost := busy.toNat_le
    by_cases last : remaining - 1 = 0
    · simp only [Sound, Standing.spend, last, ↓reduceIte]
      omega
    · simp only [Sound, Standing.spend, last, ↓reduceIte, Bool.toNat_false]
      omega
  | retired =>
    simp only [Sound, Standing.spend]
    omega

theorem Sound.succeeded (one : account.running = running + 1) :
    Sound budget
      { account with
        standing := account.standing.retire
        running := running
        succeeded := account.succeeded + 1 } := by
  have bounds := sound.bounds
  cases standing : account.standing with
  | unissued =>
    rw [Sound, standing] at sound
    omega
  | live | retired =>
    simp only [Sound, Standing.retire]
    omega

end

/-- The step lemma of tickets. -/
theorem Sound.move (positive : 0 < budget) (sound : Sound budget account)
    (moved : Move budget account after) :
    Sound budget after := by
  cases moved with
  | stay => exact sound
  | issue unissued =>
    rw [Sound, unissued] at sound
    simp only [Sound, Bool.toNat_false]
    omega
  | retire => exact sound.retire
  | admitted remaining free =>
    obtain ⟨total, unspent, runs, none⟩ := sound.of_live free
    simp only [Sound, Bool.toNat_true, Bool.toNat_false] at *
    omega
  | failed running one => exact sound.failed one
  | succeeded running one => exact sound.succeeded one

/-- A retired ticket stays retired. -/
theorem Move.retired (moved : Move budget account after) (retired : account.standing = .retired) :
    after.standing = .retired := by
  cases moved with
  | stay => exact retired
  | issue unissued => exact absurd (retired.symm.trans unissued) nofun
  | retire | failed | succeeded => rw [retired]; rfl
  | admitted remaining free => exact absurd (retired.symm.trans free) nofun

/-- An issued ticket stays issued. -/
theorem Move.issued (moved : Move budget account after) (issued : account.standing ≠ .unissued) :
    after.standing ≠ .unissued := by
  cases moved with
  | stay => exact issued
  | issue | admitted => exact nofun
  | retire | succeeded => cases standing : account.standing <;> simp_all [Standing.retire]
  | failed =>
    cases standing : account.standing with
    | unissued => exact absurd standing issued
    | live =>
      simp only [Standing.spend]
      split <;> exact nofun
    | retired => exact nofun

end Attempts
