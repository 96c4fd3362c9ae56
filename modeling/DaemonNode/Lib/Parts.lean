import Mathlib.Algebra.Group.Action.Defs
import Mathlib.Algebra.Order.BigOperators.Group.List
import Mathlib.Data.Nat.ModEq
import Mathlib.Tactic.Ring

/-!
# Dividing a whole into parts

Two ways in which a whole is cut up. A number is apportioned by weight: each
part gets the floor of its share, and what the floors leave over is handed out
one unit at a time. An interval is tiled by pieces when each piece starts
where the one before it stops.
-/

namespace Parts

/-- The floored share of each weight. -/
def floors (total : Nat) (weights : List Nat) : List Nat :=
  weights.map fun weight => total * weight / weights.sum

/-- Add one unit to each listed position, at most `leftover` times. -/
def handOut : List Nat → Nat → List Nat → List Nat
  | [], _, sizes => sizes
  | _, 0, sizes => sizes
  | position :: positions, leftover + 1, sizes =>
    handOut positions leftover (sizes.modify position (· + 1))

@[simp] theorem length_floors (total : Nat) (weights : List Nat) :
    (floors total weights).length = weights.length :=
  List.length_map _

@[simp] theorem length_handOut (positions : List Nat) (leftover : Nat) (sizes : List Nat) :
    (handOut positions leftover sizes).length = sizes.length := by
  induction positions generalizing leftover sizes with
  | nil => rfl
  | cons position positions ih =>
    cases leftover with
    | zero => rfl
    | succ leftover => rw [handOut, ih, List.length_modify]

theorem sum_modify_succ {sizes : List Nat} (inside : position < sizes.length) :
    (sizes.modify position (· + 1)).sum = sizes.sum + 1 := by
  induction sizes generalizing position with
  | nil => simp at inside
  | cons size sizes ih =>
    cases position with
    | zero =>
      simp only [List.modify_zero_cons, List.sum_cons]
      omega
    | succ position =>
      simp only [List.modify_succ_cons, List.sum_cons]
      rw [ih (by simpa using inside)]
      omega

/-- Handing out units to existing positions adds as many as there are units or
positions. -/
theorem sum_handOut {positions : List Nat} (leftover : Nat)
    (inside : ∀ position ∈ positions, position < sizes.length) :
    (handOut positions leftover sizes).sum = sizes.sum + min leftover positions.length := by
  induction positions generalizing leftover sizes with
  | nil => simp [handOut]
  | cons position positions ih =>
    cases leftover with
    | zero => simp [handOut]
    | succ leftover =>
      have first := sum_modify_succ (inside position List.mem_cons_self)
      have later : ∀ other ∈ positions, other < (sizes.modify position (· + 1)).length := by
        intro other member
        rw [List.length_modify]
        exact inside other (List.mem_cons_of_mem _ member)
      rw [handOut, ih leftover later, first, List.length_cons]
      omega

/-- Division with remainder, summed over a list of dividends. -/
theorem sum_div_add_sum_mod (total divisor : Nat) (weights : List Nat) :
    divisor * (weights.map fun weight => total * weight / divisor).sum +
        (weights.map fun weight => total * weight % divisor).sum =
      total * weights.sum := by
  induction weights with
  | nil => simp
  | cons weight weights ih =>
    have divided := Nat.div_add_mod (total * weight) divisor
    simp only [List.map_cons, List.sum_cons, Nat.mul_add]
    omega

/-- The floors do not exceed the whole. -/
theorem sum_floors_le (total : Nat) (positive : 0 < weights.sum) :
    (floors total weights).sum ≤ total := by
  have divided := sum_div_add_sum_mod total weights.sum weights
  have scaled : weights.sum * (floors total weights).sum ≤ weights.sum * total := by
    rw [Nat.mul_comm weights.sum total]
    exact le_of_le_of_eq (Nat.le_add_right _ _) divided
  exact Nat.le_of_mul_le_mul_left scaled positive

/-- What the floors leave over is at most one unit for each part. -/
theorem sub_sum_floors_le (total : Nat) (positive : 0 < weights.sum) :
    total - (floors total weights).sum ≤ weights.length := by
  have divided := sum_div_add_sum_mod total weights.sum weights
  have remainders : (weights.map fun weight => total * weight % weights.sum).sum ≤
      weights.length * weights.sum := by
    calc
      (weights.map fun weight => total * weight % weights.sum).sum
          ≤ (weights.map fun weight => total * weight % weights.sum).length • weights.sum := by
        apply List.sum_le_card_nsmul
        intro remainder member
        obtain ⟨weight, _, rfl⟩ := List.mem_map.mp member
        exact (Nat.mod_lt _ positive).le
      _ = weights.length * weights.sum := by
        rw [List.length_map, smul_eq_mul]
  have scaled : weights.sum * (total - (floors total weights).sum) ≤
      weights.sum * weights.length := by
    rw [Nat.mul_sub, Nat.mul_comm weights.sum weights.length, Nat.mul_comm weights.sum total]
    unfold floors
    omega
  exact Nat.le_of_mul_le_mul_left scaled positive

/-- Handing out what the floors leave over, to positions that list every part
once, restores the whole. -/
theorem sum_handOut_floors (positive : 0 < weights.sum)
    (listed : positions.Perm (List.range weights.length)) :
    (handOut positions (total - (floors total weights).sum)
        (floors total weights)).sum = total := by
  have inside : ∀ position ∈ positions, position < (floors total weights).length := by
    intro position member
    rw [length_floors]
    exact List.mem_range.mp (listed.mem_iff.mp member)
  have enough := sub_sum_floors_le total positive
  have below := sum_floors_le total positive
  rw [sum_handOut _ inside, listed.length_eq, List.length_range]
  omega

/-- `Tiles start pieces stop`: the half-open pieces follow each other from
`start` to `stop` without gap or overlap. -/
inductive Tiles : Nat → List (Nat × Nat) → Nat → Prop
  | nil (start : Nat) : Tiles start [] start
  | cons {start middle stop : Nat} {pieces : List (Nat × Nat)} :
      start ≤ middle →
      Tiles middle pieces stop →
      Tiles start ((start, middle) :: pieces) stop

/-- The indices of a half-open interval. -/
def indices (piece : Nat × Nat) : List Nat :=
  List.range' piece.1 (piece.2 - piece.1)

namespace Tiles

variable {start middle stop : Nat} {pieces : List (Nat × Nat)}

theorem le (tiled : Tiles start pieces stop) : start ≤ stop := by
  induction tiled with
  | nil => exact le_rfl
  | cons ordered _ ih => exact ordered.trans ih

theorem single (ordered : start ≤ stop) : Tiles start [(start, stop)] stop :=
  .cons ordered (.nil stop)

theorem append (first : Tiles start pieces middle) (second : Tiles middle later stop) :
    Tiles start (pieces ++ later) stop := by
  induction first with
  | nil => exact second
  | cons ordered _ ih => exact .cons ordered (ih second)

section

variable (tiled : Tiles start pieces stop)

include tiled

/-- Cutting each piece of a tiling again gives a finer tiling. -/
theorem refine (finer : List.Forall₂ (fun piece cut => Tiles piece.1 cut piece.2) pieces cuts) :
    Tiles start cuts.flatten stop := by
  induction tiled generalizing cuts with
  | nil start =>
    cases finer
    exact .nil start
  | cons _ _ ih =>
    cases finer with
    | cons first later =>
      rw [List.flatten_cons]
      exact first.append (ih later)

/-- A piece lies inside the whole. -/
theorem bounds_of_mem (member : piece ∈ pieces) :
    start ≤ piece.1 ∧ piece.1 ≤ piece.2 ∧ piece.2 ≤ stop := by
  induction tiled with
  | nil => simp at member
  | cons ordered rest ih =>
    rcases List.mem_cons.mp member with rfl | later
    · exact ⟨le_rfl, ordered, rest.le⟩
    · obtain ⟨above, inside, below⟩ := ih later
      exact ⟨ordered.trans above, inside, below⟩

/-- The indices of the pieces, in order, are the indices of the whole. -/
theorem flatMap_indices : pieces.flatMap indices = List.range' start (stop - start) := by
  induction tiled with
  | nil => simp
  | @cons start middle stop pieces ordered rest ih =>
    have split : stop - start = (middle - start) + (stop - middle) := by
      have := rest.le
      omega
    rw [List.flatMap_cons, ih, split, ← List.range'_append_1, Nat.add_sub_cancel' ordered]
    rfl

/-- Each piece starts where the one before it stops. -/
theorem isChain : pieces.IsChain fun earlier later => earlier.2 = later.1 := by
  induction tiled with
  | nil => exact .nil
  | cons ordered rest ih =>
    cases rest with
    | nil => exact .singleton _
    | cons _ _ => exact .cons_cons rfl ih

/-- Pieces of whole units have as many units together as the whole. -/
theorem sum_units (aligned : ∀ piece ∈ pieces, unit ∣ piece.2 - piece.1) :
    (pieces.map fun piece => (piece.2 - piece.1) / unit).sum = (stop - start) / unit := by
  induction tiled with
  | nil => simp
  | @cons start middle stop pieces ordered rest ih =>
    obtain ⟨first, later⟩ := List.forall_mem_cons.mp aligned
    have split : stop - start = (middle - start) + (stop - middle) := by
      have := rest.le
      omega
    rw [List.map_cons, List.sum_cons, ih later, split, Nat.add_div_of_dvd_right first]

end

end Tiles

/-- The lengths of the pieces cut off a length one `size` at a time, the last one
short, in at most the given number of cuts. -/
def cuts (size : Nat) : Nat → Nat → List Nat
  | 0, _ => []
  | count + 1, remaining =>
    if 0 < remaining then min remaining size :: cuts size count (remaining - min remaining size)
    else []

/-- The consecutive pieces of a list, `size` elements each but for the last. -/
def chunks (size : Nat) : Nat → List α → List (List α)
  | 0, _ => []
  | count + 1, items =>
    if items.isEmpty then []
    else items.take size :: chunks size count (items.drop size)

/-- There are no more parts of a positive size than units. -/
theorem ceil_le (positive : 0 < size) (total : Nat) : (total + size - 1) / size ≤ total := by
  have wide := Nat.le_mul_of_pos_right total positive
  rw [← Nat.lt_succ_iff, Nat.div_lt_iff_lt_mul positive, Nat.succ_mul]
  omega

/-- Enough cuts use up the whole length. -/
theorem sum_cuts (positive : 0 < size) (enough : remaining ≤ count) :
    (cuts size count remaining).sum = remaining := by
  induction count generalizing remaining with
  | zero => simp [cuts, Nat.le_zero.mp enough]
  | succ count ih =>
    rw [cuts]
    split
    · rw [List.sum_cons, ih (by omega)]
      omega
    · simp only [List.sum_nil]
      omega

/-- Every piece is nonempty and not longer than the size. -/
theorem bounds_of_mem_cuts (positive : 0 < size) (member : piece ∈ cuts size count remaining) :
    0 < piece ∧ piece ≤ size := by
  induction count generalizing remaining with
  | zero => simp [cuts] at member
  | succ count ih =>
    rw [cuts] at member
    split at member
    · rcases List.mem_cons.mp member with rfl | later
      · omega
      · exact ih later
    · simp at member

/-- What divides the length and the size divides every piece. -/
theorem dvd_of_mem_cuts (size_aligned : width ∣ size) (aligned : width ∣ remaining)
    (member : piece ∈ cuts size count remaining) :
    width ∣ piece := by
  induction count generalizing remaining with
  | zero => simp [cuts] at member
  | succ count ih =>
    rw [cuts] at member
    split at member
    · have cut : width ∣ min remaining size := by
        rcases min_choice remaining size with least | least <;> rwa [least]
      rcases List.mem_cons.mp member with rfl | later
      · exact cut
      · exact ih (Nat.dvd_sub aligned cut) later
    · simp at member

/-- Enough cuts make as many pieces as the length divided by the size, rounded
up. -/
theorem length_cuts (positive : 0 < size) (enough : remaining ≤ count) :
    (cuts size count remaining).length = (remaining + size - 1) / size := by
  induction count generalizing remaining with
  | zero =>
    have empty : (size - 1) / size = 0 := Nat.div_eq_of_lt (by omega)
    simp [cuts, Nat.le_zero.mp enough, empty]
  | succ count ih =>
    rw [cuts]
    split
    · rename_i some
      rw [List.length_cons, ih (by omega)]
      by_cases short : remaining ≤ size
      · rw [Nat.min_eq_left short, Nat.sub_self, Nat.zero_add,
          Nat.div_eq_of_lt (show size - 1 < size by omega),
          show remaining + size - 1 = (remaining - 1) + size by omega,
          Nat.add_div_right _ positive, Nat.div_eq_of_lt (by omega)]
      · rw [Nat.min_eq_right (by omega),
          show remaining + size - 1 = (remaining - size + size - 1) + size by omega,
          Nat.add_div_right _ positive]
    · rename_i none
      have empty : (size - 1) / size = 0 := Nat.div_eq_of_lt (by omega)
      rw [show remaining = 0 by omega, Nat.zero_add, empty]
      rfl

theorem map_length_chunks (items : List α) :
    (chunks size count items).map List.length = cuts size count items.length := by
  induction count generalizing items with
  | zero => rfl
  | succ count ih =>
    rw [chunks, cuts]
    by_cases empty : items = []
    · simp [empty]
    · have nonempty : 0 < items.length := List.length_pos_iff.mpr empty
      rw [if_neg (by simpa using empty), if_pos nonempty, List.map_cons,
        ih, List.length_take, List.length_drop, Nat.min_comm]
      congr 2
      omega

section Framing

variable (header : Nat → List α) (size : Nat)

/-- The items of a stream from an offset on, with the header of each block of
`size` items in front of its first item. -/
def frame (offset : Nat) (items : List α) : List α :=
  (items.zipIdx offset).flatMap fun (item, position) =>
    (if position % size = 0 then header (position / size) else []) ++ [item]

theorem frame_append (offset : Nat) (first second : List α) :
    frame header size offset (first ++ second) =
      frame header size offset first ++ frame header size (offset + first.length) second := by
  rw [frame, List.zipIdx_append, List.flatMap_append]
  rfl

theorem frame_cons (offset : Nat) (item : α) (items : List α) :
    frame header size offset (item :: items) =
      (if offset % size = 0 then header (offset / size) else []) ++
        item :: frame header size (offset + 1) items := by
  rw [frame, List.zipIdx_cons, List.flatMap_cons, List.append_assoc]
  rfl

variable {size}

/-- After the first item of a block no header is added. -/
theorem frame_succ_eq_self (within : offset % size + 1 + items.length ≤ size) :
    frame header size (offset + 1) items = items := by
  induction items generalizing offset with
  | nil => rfl
  | cons item items ih =>
    rw [List.length_cons] at within
    have next : (offset + 1) % size = offset % size + 1 := by
      rw [Nat.add_mod, Nat.mod_eq_of_lt (show 1 < size by omega), Nat.mod_eq_of_lt (by omega)]
    rw [frame_cons, next, if_neg (Nat.succ_ne_zero _), List.nil_append, ih (by omega)]

/-- Items that stay within one block get its header only if they start it. -/
theorem frame_of_within_block (nonempty : items ≠ [])
    (within : offset % size + items.length ≤ size) :
    frame header size offset items =
      (if offset % size = 0 then header (offset / size) else []) ++ items := by
  cases items with
  | nil => exact absurd rfl nonempty
  | cons item items =>
    rw [List.length_cons] at within
    rw [frame_cons, frame_succ_eq_self header (by omega)]

/-- A stream is framed block by block. -/
theorem frame_eq_flatMap_blocks (positive : 0 < size) (items : List α)
    (covered : blocks * size < items.length + size) :
    frame header size 0 (items.take (blocks * size)) =
      (List.range blocks).flatMap fun block =>
        header block ++ (items.drop (block * size)).take size := by
  induction blocks with
  | zero => simp [frame]
  | succ blocks ih =>
    rw [Nat.succ_mul] at covered
    have before : blocks * size < items.length := by omega
    have split : items.take ((blocks + 1) * size) =
        items.take (blocks * size) ++ (items.drop (blocks * size)).take size := by
      rw [Nat.succ_mul, List.take_add]
    have block_ne : (items.drop (blocks * size)).take size ≠ [] := by
      rw [← List.length_pos_iff, List.length_take, List.length_drop]
      omega
    have aligned : (0 + (items.take (blocks * size)).length) = blocks * size := by
      rw [List.length_take]
      omega
    rw [split, frame_append, ih (by omega), aligned,
      frame_of_within_block header block_ne, Nat.mul_mod_left, if_pos rfl,
      Nat.mul_div_cancel _ positive, List.range_succ, List.flatMap_append,
      List.flatMap_singleton]
    rw [Nat.mul_mod_left, List.length_take]
    omega

end Framing

end Parts
