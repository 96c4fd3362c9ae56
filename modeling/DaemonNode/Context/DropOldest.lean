import DaemonNode.Context.Assembly

/-!
# Compaction by dropping the oldest turns

The engine that keeps no summaries drops turns from the front until an estimate of the tokens is
within the budget. The plan subtracts the quotient of each turn, where the estimate rounds the
total once, so it never promises more than the drop frees.
-/

namespace DaemonNode.Context

open Engine (bytes)

/-- The system prompt and the turns. -/
structure Conversation where
  system : List Char
  turns : List Turn

/-- The bytes of a turn, with some for the framing of each message. -/
def estimateTurnChars : Turn → Nat
  | .user text => bytes text + 16
  | .assistant message => bytes message.text + (message.reasoning.map bytes).getD 0 + 16
  | .tool turn =>
    bytes turn.assistant.text + 16 + (turn.calls.map fun (call, result) =>
      bytes call.name.toList + bytes call.args.toList + bytes result.content + 16).sum

/-- A quarter of the bytes. -/
def estimateTokens (conv : Conversation) : Nat :=
  (bytes conv.system + (conv.turns.map estimateTurnChars).sum) / 4

/-- How many of the turns to drop, and the estimate after that; the last turn stays. -/
def planLoop (budget : Nat) : List Turn → Nat → Nat × Nat
  | [], used => (0, used)
  | turn :: rest, used =>
    if rest ≠ [] ∧ used > budget then
      let (drop, after) := planLoop budget rest (used - estimateTurnChars turn / 4)
      (drop + 1, after)
    else (0, used)

/-- How many of the oldest turns to drop, and the estimate after that. -/
def planDrop
    (conv : Conversation)
    (budget : Nat) : Nat × Nat :=
  planLoop budget conv.turns (estimateTokens conv)

/-- Drop the oldest turns, unless that frees less than a tenth. -/
def dropOldest
    (conv : Conversation)
    (budget : Nat) : Conversation :=
  let usedBefore := estimateTokens conv
  let (drop, usedAfter) := planDrop conv budget
  if drop = 0 ∨ (usedBefore - usedAfter) * 10 < usedBefore then conv
  else { conv with turns := conv.turns.drop drop }

/-- Nothing is dropped within the budget, nor of a single turn. -/
theorem planLoop_eq_zero_iff
    (budget : Nat)
    (turns : List Turn)
    (used : Nat) :
    (planLoop budget turns used).1 = 0 ↔ used ≤ budget ∨ turns.length ≤ 1 := by
  cases turns with
  | nil => simp [planLoop]
  | cons turn rest =>
    unfold planLoop
    split
    · rename_i goes
      have several := List.length_pos_iff.mpr goes.1
      simp only [List.length_cons]
      omega
    · rename_i stops
      refine iff_of_true rfl (or_iff_not_imp_left.mpr fun above => ?_)
      have last : rest = [] := by
        by_contra more
        exact stops ⟨more, Nat.lt_of_not_le above⟩
      simp [last]

/-- The plan leaves a turn, prices what is left from above, and stops within the budget or at the
last turn. -/
theorem planLoop_spec
    {used : Nat}
    (chars : Nat)
    (turns : List Turn)
    (priced : (chars + (turns.map estimateTurnChars).sum) / 4 ≤ used)
    (some : turns ≠ []) :
    ∃ kept, turns.drop (planLoop budget turns used).1 = kept ∧ kept ≠ [] ∧
      (chars + (kept.map estimateTurnChars).sum) / 4 ≤ (planLoop budget turns used).2 ∧
      ((planLoop budget turns used).2 ≤ budget ∨ kept.length = 1) := by
  induction turns generalizing used with
  | nil => contradiction
  | cons turn rest ih =>
    unfold planLoop
    split
    · rename_i goes
      refine ih ?_ goes.1
      simp only [List.map_cons, List.sum_cons] at priced
      omega
    · rename_i stops
      refine ⟨_, rfl, some, priced, or_iff_not_imp_left.mpr fun above => ?_⟩
      have last : rest = [] := by
        by_contra more
        exact stops ⟨more, Nat.lt_of_not_le above⟩
      simp [last]

end DaemonNode.Context
