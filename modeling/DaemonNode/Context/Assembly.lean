import DaemonNode.Engine.Fence

/-!
# Token budgets of the context engine

A conversation that grows too long is replaced by a summary and its last turns, under a cap
on tokens. A summary that stays too long is cut in its middle, as the last resort. Tokens
are counted by an encoding, or estimated from the bytes of a text.
-/

namespace DaemonNode.Context

open Engine (bytes ToolCall ToolResult)
open List (replicate)

/-- The tokens that frame a message. -/
def perMessageOverhead : Nat := 4

/-- The tokens that open a reply. -/
def replyPriming : Nat := 3

/-- An encoding, if there is one for the model. -/
structure Tokenizer where
  bpe : Option (List Char → Nat)

/-- A message of the assistant. -/
structure AssistantMsg where
  text : List Char
  reasoning : Option (List Char)

/-- A message of the assistant with its tool calls and their results. -/
structure ToolTurn where
  assistant : AssistantMsg
  calls : List (ToolCall × ToolResult)

/-- A turn of the conversation. -/
inductive Turn
  | user (text : List Char)
  | assistant (message : AssistantMsg)
  | tool (turn : ToolTurn)

/-- A summary that no other summary covers. -/
structure SummaryNode where
  (depth nodeId : Int)
  (summary expandHint : List Char)

namespace Tokenizer

variable (tok : Tokenizer)

/-- The tokenizer of a model without an encoding. -/
def heuristic : Tokenizer := ⟨none⟩

/-- The tokens of a text: of its encoding, or one for four bytes. -/
def countText (text : List Char) : Nat :=
  if text.isEmpty then 0
  else
    match tok.bpe with
    | some encode => encode text
    | none => bytes text / 4 + 1

/-- The tokens of a turn. -/
def countTurn : Turn → Nat
  | .user text => tok.countText text + perMessageOverhead
  | .assistant message => tok.countText message.text + perMessageOverhead
  | .tool turn =>
    tok.countText turn.assistant.text + perMessageOverhead +
      (turn.calls.map fun (call, result) =>
        tok.countText call.name.toList + tok.countText call.args.toList + perMessageOverhead +
          (tok.countText result.content + perMessageOverhead)).sum

/-- The tokens of a system prompt; an empty one is not sent. -/
def countSystem (system : List Char) : Nat :=
  if system.isEmpty then 0 else tok.countText system + perMessageOverhead

/-- The tokens of a prompt and the turns. -/
def countConversation
    (system : List Char)
    (turns : List Turn) : Nat :=
  replyPriming + tok.countSystem system + (turns.map tok.countTurn).sum

end Tokenizer

/-- What stands for the part that is cut out. -/
def truncationMarker : List Char :=
  "\n\n[...deterministic truncation — details available via lcm_expand...]\n\n".toList

/-- Keep the beginning and the end of a text that is too long. -/
def deterministicTruncate
    (tok : Tokenizer)
    (text : List Char)
    (maxTokens : Nat) : List Char :=
  if tok.countText text ≤ maxTokens then text
  else
    let charBudget := maxTokens * 4
    if text.length ≤ charBudget then text
    else
      let head := charBudget * 4 / 10
      let tail := charBudget * 4 / 10
      text.take head ++ truncationMarker ++ text.drop (text.length - tail)

/-- The first line of a summary turn. -/
def summarySentinel : List Char := "[LCM context summary]".toList

/-- What stands between summaries. -/
def summaryPartSeparator : List Char := "\n\n---\n\n".toList

/-- What marks a preserved objective. -/
def preservedObjectivePrefix : List Char :=
  "[Current user objective preserved from compacted history]".toList

/-- What marks a preserved task list. -/
def preservedTodoPrefix : List Char :=
  "[Your active task list was preserved across context compression]".toList

/-- Whether a pattern occurs in a text. -/
def contains (text pattern : List Char) : Bool :=
  text.tails.any fun rest => pattern.isPrefixOf rest

/-- A turn of the user stops the selection; a turn with a preserved text is kept. -/
def isBudgetDroppableTailTurn (turn : Turn) : Bool :=
  let droppable (text : List Char) :=
    !contains text preservedTodoPrefix && !contains text preservedObjectivePrefix
  match turn with
  | .user _ => false
  | .assistant message => droppable message.text
  | .tool turn => droppable turn.assistant.text

/-- The name of a level of summaries. -/
def depthLabel (depth : Int) : List Char :=
  if depth = 0 then "Recent".toList
  else if depth = 1 then "Session Arc".toList
  else if depth = 2 then "Durable".toList
  else "Depth-".toList ++ (toString depth).toList

/-- The text of a summary. -/
def SummaryNode.part (node : SummaryNode) : List Char :=
  '[' :: (depthLabel node.depth ++ " Summary (d".toList ++ (toString node.depth).toList ++
    ", node ".toList ++ (toString node.nodeId).toList ++ ")]\n".toList ++ node.summary ++
    "\n[Expand for details: ".toList ++ node.expandHint ++ [']'])

/-- The text of a turn of summaries. -/
def summaryTurnBody (parts : List (List Char)) : List Char :=
  summarySentinel ++ '\n' :: '\n' :: summaryPartSeparator.intercalate parts

/-- A turn with the rows it stands for. -/
abbrev Indexed := Turn × List Int

section Assembly

variable (tok : Tokenizer)

/-- The turns to keep, newest first; a gap ends them at the next turn that fits. The turns
kept so far come with their tokens. -/
def keepTail (used cap : Nat) : List Indexed → List Indexed × Nat → Bool → List Indexed × Nat
  | [], kept, _ => kept
  | newest :: older, kept, skippedTailGap =>
    if used + kept.2 + tok.countTurn newest.1 > cap then
      if isBudgetDroppableTailTurn newest.1 then keepTail used cap older kept true else kept
    else if skippedTailGap then kept
    else keepTail used cap older (newest :: kept.1, kept.2 + tok.countTurn newest.1) false

/-- A part of the summary is taken if the body with it fits. -/
def selectPart
    (summaryBudget : Option Nat)
    (selected : List (List Char))
    (part : List Char) :
    List (List Char) :=
  match summaryBudget with
  | none => selected ++ [part]
  | some budget =>
    if tok.countText (summaryTurnBody (selected ++ [part])) + perMessageOverhead > budget then
      selected
    else selected ++ [part]

/-- The kept turns with their rows; a turn without rows has none. -/
def aligned
    (keptTurns : List Turn)
    (keptIndex : List (List Int)) : List Indexed :=
  keptTurns.zip (keptIndex ++ replicate keptTurns.length [])

/-- The summaries and the kept turns that fit the cap, with the rows they stand for. -/
def assembleCapped
    (frontier : List SummaryNode)
    (system : List Char)
    (preservedObjective : Option (List Char))
    (keptTurns : List Turn)
    (keptIndex : List (List Int))
    (cap : Option Nat) : List Turn × List (List Int) :=
  let used := tok.countSystem system
  let pairs := aligned keptTurns keptIndex
  let tail :=
    match cap with
    | some cap => keepTail tok used cap pairs.reverse ([], 0) false
    | none => (pairs, 0)
  let summaryBudget := cap.map fun cap => cap - (used + tail.2)
  let selected := (preservedObjective.toList ++ frontier.map SummaryNode.part).foldl
    (selectPart tok summaryBudget) []
  let summary := if selected.isEmpty then [] else [summaryTurnBody selected]
  (summary.map (fun body => .assistant ⟨body, none⟩) ++ tail.1.map Prod.fst,
    summary.map (fun _ => []) ++ tail.1.map Prod.snd)

end Assembly

section Truncation

/-- The estimate is within a bound exactly for a text of fewer than four bytes a token. -/
theorem heuristic_countText_le_iff
    {text : List Char}
    (positive : 0 < maxTokens) :
    Tokenizer.heuristic.countText text ≤ maxTokens ↔ bytes text < maxTokens * 4 := by
  unfold Tokenizer.countText
  split
  · rename_i empty
    have none : bytes text = 0 := by
      rw [List.isEmpty_iff.mp empty]
      rfl
    omega
  · change bytes text / 4 + 1 ≤ maxTokens ↔ _
    omega

/-- A text that fits is returned, and any other becomes a front and an end of it around the
marker, within the bound and shorter. -/
def Converges
    (text : List Char)
    (maxTokens : Nat) : Prop :=
  let cut := deterministicTruncate .heuristic text maxTokens
  (Tokenizer.heuristic.countText text ≤ maxTokens → cut = text) ∧
    (maxTokens < Tokenizer.heuristic.countText text →
      ∃ front back, front <+: text ∧ back <:+ text ∧ cut = front ++ truncationMarker ++ back ∧
        Tokenizer.heuristic.countText cut ≤ maxTokens ∧ bytes cut < bytes text)

/--
The truncation converges exactly for a text of fewer than four bytes a token, and for one of more
than four characters a token whose first and last characters, eight for each five tokens, leave
room for the marker.
-/
theorem truncation_converges_iff
    {text : List Char}
    {maxTokens : Nat}
    (large : 128 ≤ maxTokens) :
    Converges text maxTokens ↔
      bytes text < maxTokens * 4 ∨ maxTokens * 4 < text.length ∧
        bytes (text.take (maxTokens * 4 * 4 / 10)) + bytes truncationMarker +
          bytes (text.drop (text.length - maxTokens * 4 * 4 / 10)) < maxTokens * 4 := by
  have fits {text : List Char} :=
    @heuristic_countText_le_iff maxTokens text (by omega)
  unfold Converges
  by_cases small : bytes text < maxTokens * 4
  · have kept : deterministicTruncate .heuristic text maxTokens = text := if_pos (fits.mpr small)
    exact iff_of_true ⟨fun _ => kept, fun long => absurd (fits.mpr small) long.not_ge⟩ (.inl small)
  have long := Nat.not_le.mp (fits.not.mpr small)
  by_cases short : text.length ≤ maxTokens * 4
  · -- The whole text is returned although it does not fit, so nothing is shorter.
    have kept : deterministicTruncate .heuristic text maxTokens = text := by
      rw [deterministicTruncate, if_neg (fits.not.mpr small), if_pos short]
    rw [kept]
    refine iff_of_false ?_ (by omega)
    rintro ⟨_, shorter⟩
    obtain ⟨_, _, _, _, _, _, less⟩ := shorter long
    exact Nat.lt_irrefl _ less
  have cut : deterministicTruncate .heuristic text maxTokens =
      text.take (maxTokens * 4 * 4 / 10) ++ truncationMarker ++
        text.drop (text.length - maxTokens * 4 * 4 / 10) := by
    rw [deterministicTruncate, if_neg (fits.not.mpr small), if_neg short]
  have total : bytes (deterministicTruncate .heuristic text maxTokens) =
      bytes (text.take (maxTokens * 4 * 4 / 10)) + bytes truncationMarker +
        bytes (text.drop (text.length - maxTokens * 4 * 4 / 10)) := by
    rw [cut]
    simp only [bytes, Text.size_append]
  rw [← total]
  constructor
  · rintro ⟨_, shorter⟩
    obtain ⟨_, _, _, _, _, within, _⟩ := shorter long
    exact .inr ⟨Nat.not_le.mp short, fits.mp within⟩
  · intro room
    refine ⟨fun fit => absurd fit long.not_ge, fun _ => ⟨_, _, List.take_prefix _ text,
      List.drop_suffix _ text, cut, fits.mpr ?_, ?_⟩⟩ <;> omega

theorem truncation_converges_long :
    Converges (replicate 10 'é' ++ replicate 600 'a') 128 :=
  (truncation_converges_iff (by decide)).mpr (.inr (by decide +kernel))

/-- Four letters for each token, or fewer signs of three bytes, are returned as they are and do
not fit. -/
theorem truncation_keeps_long_text :
    (128 < Tokenizer.heuristic.countText (replicate 512 'a') ∧
      deterministicTruncate .heuristic (replicate 512 'a') 128 = replicate 512 'a') ∧
    (128 < Tokenizer.heuristic.countText (replicate 200 '…') ∧
      deterministicTruncate .heuristic (replicate 200 '…') 128 = replicate 200 '…') := by
  decide +kernel

end Truncation

section Cap

variable {tok : Tokenizer} {used cap : Nat}

/-- After a gap no turn is kept. -/
theorem keepTail_gap
    (older : List Indexed)
    (kept : List Indexed × Nat) :
    keepTail tok used cap older kept true = kept := by
  induction older with
  | nil => rfl
  | cons newest older ih =>
    unfold keepTail
    split
    · split
      · exact ih
      · rfl
    · rfl

/-- The longest end of a list whose weight is within a budget. -/
def LongestEnd
    (weight : α → Nat)
    (budget : Nat)
    (all kept : List α) : Prop :=
  kept <:+ all ∧ (kept.map weight).sum ≤ budget ∧
    ∀ other, other <:+ all → (other.map weight).sum ≤ budget → other <:+ kept

/-- The members of a list that are chosen in its order behind those chosen before it: each one
with which the choice fits. -/
inductive Chosen (fits : List α → Prop) : List α → List α → List α → Prop
  | nil (chosen) : Chosen fits chosen [] chosen
  | take : fits (chosen ++ [first]) → Chosen fits (chosen ++ [first]) rest all →
      Chosen fits chosen (first :: rest) all
  | skip : ¬ fits (chosen ++ [first]) → Chosen fits chosen rest all →
      Chosen fits chosen (first :: rest) all

/-- There is one longest end. -/
theorem LongestEnd.unique
    (left : LongestEnd weight budget all kept)
    (right : LongestEnd weight budget all kept') :
    kept = kept' :=
  (right.2.2 kept left.1 left.2.1).eq_of_length_le (left.2.2 kept' right.1 right.2.1).length_le

/-- The greedy choice is one. -/
theorem Chosen.unique
    (left : Chosen fits chosen parts all)
    (right : Chosen fits chosen parts all') :
    all = all' := by
  induction left with
  | nil =>
    cases right
    rfl
  | take room _ ih =>
    cases right with
    | take _ right => exact ih right
    | skip full => exact absurd room full
  | skip full _ ih =>
    cases right with
    | take room => exact absurd room full
    | skip _ right => exact ih right

/-- What is chosen behind a choice that fits, or behind none, fits or is empty. -/
theorem Chosen.fits_or_nil
    (chosen : Chosen fits before parts all)
    (start : before = [] ∨ fits before) :
    all = [] ∨ fits all := by
  induction chosen with
  | nil => exact start
  | take room _ ih => exact ih (.inr room)
  | skip _ _ ih => exact ih start

/-- A turn that does not fit ends the turns that are kept, which are the longest end of the turns
within the cap. -/
theorem keepTail_spec
    {kept : List Indexed × Nat}
    (newest : List Indexed)
    (counted : (kept.1.map fun pair => tok.countTurn pair.1).sum = kept.2)
    (fits : used + kept.2 ≤ cap) :
    ((keepTail tok used cap newest kept false).1.map fun pair => tok.countTurn pair.1).sum =
        (keepTail tok used cap newest kept false).2 ∧
      LongestEnd (fun pair => tok.countTurn pair.1) (cap - used) (newest.reverse ++ kept.1)
        (keepTail tok used cap newest kept false).1 := by
  induction newest generalizing kept with
  | nil =>
    exact ⟨counted, List.suffix_refl _, by rw [keepTail, counted]; omega, fun _ ends _ => ends⟩
  | cons first older ih =>
    unfold keepTail
    split
    · rename_i full
      have stays : (if isBudgetDroppableTailTurn first.1 then
          keepTail tok used cap older kept true else kept) = kept := by
        rw [keepTail_gap, ite_self]
      rw [stays]
      refine ⟨counted, List.suffix_append _ _, by rw [counted]; omega, fun other ends within => ?_⟩
      -- An end with more than the kept turns has the turn that does not fit in it.
      rw [List.reverse_cons, List.append_assoc] at ends
      have heavy : ¬ first :: kept.1 <:+ other := by
        rintro ⟨front, rfl⟩
        rw [List.map_append, List.sum_append, List.map_cons, List.sum_cons, counted] at within
        omega
      rcases List.suffix_or_suffix_of_suffix ends (List.suffix_append older.reverse _) with
        inside | longer
      · rcases List.suffix_cons_iff.mp inside with rfl | kept
        · exact absurd (List.suffix_refl _) heavy
        · exact kept
      · exact absurd longer heavy
    · rename_i room
      rw [if_neg Bool.false_ne_true, List.reverse_cons, List.append_assoc]
      apply ih
      · rw [List.map_cons, List.sum_cons, counted, Nat.add_comm]
      · rw [← Nat.add_assoc]
        exact Nat.not_lt.mp room

/-- The tokens of the summary of some parts. -/
def Tokenizer.countSummary
    (tok : Tokenizer)
    (parts : List (List Char)) : Nat :=
  if parts.isEmpty then 0 else tok.countText (summaryTurnBody parts) + perMessageOverhead

/-- The loop over the summaries makes the greedy choice. -/
theorem selectPart_chosen (parts chosen : List (List Char)) :
    Chosen (fun parts => tok.countSummary parts ≤ cap) chosen parts
      (parts.foldl (selectPart tok (some cap)) chosen) := by
  induction parts generalizing chosen with
  | nil => exact .nil chosen
  | cons part parts ih =>
    have price : tok.countSummary (chosen ++ [part]) =
        tok.countText (summaryTurnBody (chosen ++ [part])) + perMessageOverhead := if_neg (by simp)
    rw [List.foldl_cons]
    unfold selectPart
    dsimp only
    rw [← price]
    split
    · rename_i full
      exact .skip (Nat.not_le.mpr full) (ih chosen)
    · rename_i room
      exact .take (Nat.not_lt.mp room) (ih _)

theorem aligned_map_fst
    (keptTurns : List Turn)
    (keptIndex : List (List Int)) :
    (aligned keptTurns keptIndex).map Prod.fst = keptTurns := by
  apply List.map_fst_zip
  rw [List.length_append, List.length_replicate]
  exact Nat.le_add_left _ _

theorem countConversation_body
    (system : List Char)
    (chosen : List (List Char))
    (kept : List Indexed) :
    tok.countConversation system
        ((if chosen.isEmpty then [] else [summaryTurnBody chosen]).map
          (fun body => .assistant ⟨body, none⟩) ++ kept.map Prod.fst) =
      replyPriming + (tok.countSystem system + (kept.map fun pair => tok.countTurn pair.1).sum) +
        tok.countSummary chosen := by
  have turns : (kept.map Prod.fst).map tok.countTurn = kept.map fun pair => tok.countTurn pair.1 :=
    List.map_map
  unfold Tokenizer.countConversation
  rw [List.map_append, List.sum_append, turns]
  cases chosen with
  | nil =>
    change _ + (0 + _) = _ + 0
    omega
  | cons part parts =>
    change _ + (tok.countSummary (part :: parts) + 0 + _) = _
    omega

/-- The body is the summary of the chosen parts and the longest end of the turns that fits. -/
theorem assembleCapped_eq
    {frontier : List SummaryNode}
    {system : List Char}
    {objective : Option (List Char)}
    {keptTurns : List Turn}
    {keptIndex : List (List Int)}
    (fits : tok.countSystem system ≤ cap) :
    ∃ (kept : List Indexed) (chosen : List (List Char)),
      let summary := if chosen.isEmpty then [] else [summaryTurnBody chosen]
      LongestEnd (fun pair => tok.countTurn pair.1) (cap - tok.countSystem system)
        (aligned keptTurns keptIndex) kept ∧
      Chosen (fun parts => tok.countSummary parts ≤ cap - (tok.countSystem system +
        (kept.map fun pair => tok.countTurn pair.1).sum)) []
        (objective.toList ++ frontier.map SummaryNode.part) chosen ∧
      assembleCapped tok frontier system objective keptTurns keptIndex (some cap) =
        (summary.map (fun body => .assistant ⟨body, none⟩) ++ kept.map Prod.fst,
          summary.map (fun _ => []) ++ kept.map Prod.snd) := by
  obtain ⟨counted, longest⟩ := @keepTail_spec tok (tok.countSystem system) cap ([], 0)
    (aligned keptTurns keptIndex).reverse rfl fits
  rw [List.reverse_reverse, List.append_nil] at longest
  refine ⟨_, _, longest, selectPart_chosen _ _, ?_⟩
  rw [counted]
  rfl

end Cap

end DaemonNode.Context
