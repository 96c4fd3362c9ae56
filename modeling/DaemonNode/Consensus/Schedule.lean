import DaemonNode.Consensus.Digest
import Mathlib.Data.Nat.Bitwise
import Mathlib.Data.Fintype.EquivFin

/-!
# Every digest schedule is complete

The draw of a schedule passes over blocks drawn before, so it ends only if the generator comes
to enough blocks. It comes to all of them: its state runs through every word, the step being
odd, and each stage of the mixing is one-to-one.
-/

namespace DaemonNode

theorem xor_shiftRight_injective (positive : 0 < shift) :
    Function.Injective fun word : Nat => word ^^^ word >>> shift := by
  intro first second equal
  have difference : first ^^^ second = (first ^^^ second) / 2 ^ shift := by
    rw [← Nat.shiftRight_eq_div_pow, Nat.shiftRight_xor_distrib]
    apply Nat.xor_right_inj.mp
    change first ^^^ (first ^^^ second) = first ^^^ _
    dsimp only at equal
    rw [← Nat.xor_assoc, ← Nat.xor_assoc, equal, Nat.xor_self, Nat.zero_xor, Nat.xor_assoc,
      Nat.xor_self, Nat.xor_zero]
  rw [← Nat.xor_eq_zero_iff]
  by_contra different
  have smaller := Nat.div_lt_self (Nat.pos_of_ne_zero different) (Nat.one_lt_two_pow positive.ne')
  omega

/-- Multiplying by an odd word loses nothing. -/
theorem eq_of_mul_mod_eq (odd : Nat.gcd (2 ^ 64) factor = 1) (low : first < 2 ^ 64)
    (low' : second < 2 ^ 64) (equal : first * factor % 2 ^ 64 = second * factor % 2 ^ 64) :
    first = second :=
  (Nat.ModEq.cancel_right_of_coprime odd equal).eq_of_lt_of_lt low low'

theorem xor_shiftRight_lt (low : word < 2 ^ 64) (shift : Nat) : word ^^^ word >>> shift < 2 ^ 64 :=
  Nat.xor_lt_two_pow low (lt_of_le_of_lt (Nat.shiftRight_le word shift) low)

/-- A drawn word comes from one state only. -/
theorem splitmix64_injective
    (equal : (splitmix64 first).1 = (splitmix64 second).1) :
    (first + 0x9E3779B97F4A7C15) % 2 ^ 64 = (second + 0x9E3779B97F4A7C15) % 2 ^ 64 := by
  have low : ∀ number, number % 2 ^ 64 < 2 ^ 64 := fun number => Nat.mod_lt _ (Nat.two_pow_pos _)
  have lower := xor_shiftRight_injective (by decide) equal
  have middle := eq_of_mul_mod_eq (by decide) (xor_shiftRight_lt (low _) _)
    (xor_shiftRight_lt (low _) _) lower
  have upper := xor_shiftRight_injective (by decide) middle
  have mixed := eq_of_mul_mod_eq (by decide) (xor_shiftRight_lt (low _) _)
    (xor_shiftRight_lt (low _) _) upper
  exact xor_shiftRight_injective (by decide) mixed

/-- A one-to-one sequence of as many words as there are comes to each. -/
theorem exists_lt_eq_of_injective {sequence : Nat → Nat} (small : ∀ index, sequence index < bound)
    (injective : ∀ first < bound, ∀ second < bound, sequence first = sequence second →
      first = second) (low : word < bound) : ∃ index < bound, sequence index = word := by
  let draw (index : Fin bound) : Fin bound := ⟨sequence index, small index⟩
  have one_to_one : Function.Injective draw := fun first second equal =>
    Fin.ext (injective first first.isLt second second.isLt (Fin.mk.inj equal))
  obtain ⟨index, drawn⟩ := Finite.surjective_of_injective one_to_one ⟨word, low⟩
  exact ⟨index, index.isLt, congrArg Fin.val drawn⟩

/-- The generator's state after some draws. -/
def stateAfter (prng draws : Nat) : Nat := (fun state => (splitmix64 state).2)^[draws] prng

theorem stateAfter_modEq (prng draws : Nat) :
    stateAfter prng draws ≡ prng + draws * 0x9E3779B97F4A7C15 [MOD 2 ^ 64] := by
  induction draws with
  | zero => rfl
  | succ draws ih =>
    rw [stateAfter, Function.iterate_succ_apply', Nat.succ_mul, ← Nat.add_assoc]
    exact (Nat.mod_modEq _ _).trans (ih.add_right _)

/-- Every word is drawn. -/
theorem exists_splitmix64_eq (prng : Nat) (low : word < 2 ^ 64) :
    ∃ earlier < 2 ^ 64, (splitmix64 (stateAfter prng earlier)).1 = word := by
  refine exists_lt_eq_of_injective ?_ ?_ low
  · intro earlier
    exact xor_shiftRight_lt (Nat.mod_lt _ (Nat.two_pow_pos _)) _
  · intro first first_lt second second_lt equal
    have states := Nat.ModEq.add_right_cancel' _ (splitmix64_injective equal)
    have steps : first * 0x9E3779B97F4A7C15 ≡ second * 0x9E3779B97F4A7C15 [MOD 2 ^ 64] := by
      apply Nat.ModEq.add_left_cancel' prng
      exact (stateAfter_modEq prng first).symm.trans (states.trans (stateAfter_modEq prng second))
    exact eq_of_mul_mod_eq (by decide) first_lt second_lt steps

/-- A choice of at most `want` blocks, ascending. -/
structure Choice (numBlocks want : Nat) (chosen : List Nat) : Prop where
  ascending : chosen.Pairwise (· ≤ ·)
  distinct : chosen.Nodup
  inside : ∀ block ∈ chosen, block < numBlocks
  few : chosen.length ≤ want

theorem Choice.insert (choice : Choice numBlocks want chosen) (fewer : chosen.length < want)
    (inside : block < numBlocks) (new : block ∉ chosen) :
    Choice numBlocks want (chosen.orderedInsert (· ≤ ·) block) where
  ascending := choice.ascending.orderedInsert block
  distinct := (List.perm_orderedInsert _ block chosen).nodup_iff.mpr
    (List.nodup_cons.mpr ⟨new, choice.distinct⟩)
  inside := by
    intro other member
    rcases (List.mem_orderedInsert _).mp member with rfl | member
    · exact inside
    · exact choice.inside other member
  few := by
    rw [List.orderedInsert_length]
    exact fewer

/-- A draw that runs out of turns has put every block it came to into too few. -/
theorem Choice.drawBlocks (positive : 0 < numBlocks) (draws prng : Nat)
    (choice : Choice numBlocks want chosen) :
    (∃ blocks, drawBlocks numBlocks want draws prng chosen = some blocks ∧
        Choice numBlocks want blocks ∧ want ≤ blocks.length) ∨
      ∃ blocks, Choice numBlocks want blocks ∧ chosen ⊆ blocks ∧ ∀ earlier < draws,
        (splitmix64 (stateAfter prng earlier)).1 % numBlocks ∈ blocks := by
  induction draws generalizing prng chosen with
  | zero => exact .inr ⟨chosen, choice, List.Subset.refl _, nofun⟩
  | succ draws ih =>
    rw [DaemonNode.drawBlocks]
    by_cases fewer : chosen.length < want
    · rw [if_pos fewer]
      dsimp only
      have inside := Nat.mod_lt (splitmix64 prng).1 positive
      generalize next : (if (splitmix64 prng).1 % numBlocks ∈ chosen then chosen
        else chosen.orderedInsert (· ≤ ·) ((splitmix64 prng).1 % numBlocks)) = more
      have grown : Choice numBlocks want more ∧ chosen ⊆ more ∧
          (splitmix64 prng).1 % numBlocks ∈ more := by
        subst next
        split
        · exact ⟨choice, List.Subset.refl _, ‹_›⟩
        · exact ⟨choice.insert fewer inside ‹_›, (List.sublist_orderedInsert _ _).subset,
            (List.mem_orderedInsert _).mpr (.inl rfl)⟩
      obtain ⟨choice, kept, taken⟩ := grown
      refine (ih _ choice).imp id ?_
      rintro ⟨blocks, choice, subset, drawn⟩
      refine ⟨blocks, choice, List.Subset.trans kept subset, ?_⟩
      intro earlier before
      cases earlier with
      | zero => exact subset taken
      | succ earlier =>
        rw [stateAfter, Function.iterate_succ_apply]
        exact drawn earlier (by omega)
    · rw [if_neg fewer]
      exact .inl ⟨chosen, rfl, choice, by omega⟩

theorem StateLayout.numBlocks_le (layout : StateLayout) : layout.numBlocks ≤ layout.totalLen := by
  unfold numBlocks
  split
  · exact Nat.zero_le _
  · exact Parts.ceil_le (by omega) _

/-- Every schedule is drawn, and it has as many blocks as were asked for, ascending. -/
theorem deriveSchedule_complete (xxh : Xxh3 Hasher) (seed : Seed) (sampleCount : Nat)
    (word : layout.totalLen < 2 ^ 64) :
    ∃ schedule, deriveSchedule xxh seed layout sampleCount = some schedule ∧
      schedule.blocks.length = min sampleCount layout.numBlocks ∧
      schedule.blocks.Pairwise (· < ·) ∧ ∀ block ∈ schedule.blocks, block < layout.numBlocks := by
  have blocks_le := layout.numBlocks_le
  by_cases reached : layout.numBlocks ≤ sampleCount
  · refine ⟨_, deriveSchedule_eq_all reached, ?_, List.pairwise_lt_range, ?_⟩
    · rw [List.length_range, Nat.min_eq_right reached]
    · intro block member
      exact List.mem_range.mp member
  have empty : Choice layout.numBlocks sampleCount [] := ⟨.nil, .nil, nofun, Nat.zero_le _⟩
  have fewer : min sampleCount layout.numBlocks = sampleCount := Nat.min_eq_left (by omega)
  rcases empty.drawBlocks (by omega) (2 ^ 64 + 1) (xxh.hash64 seed.asBytes scheduleSalt) with
    ⟨blocks, drawn, choice, enough⟩ | ⟨blocks, choice, -, drawn⟩
  · refine ⟨⟨blocks⟩, ?_, ?_, ?_, choice.inside⟩
    · unfold deriveSchedule
      dsimp only
      rw [if_neg (by omega), fewer, if_neg (by omega), drawn]
      rfl
    · rw [fewer]
      exact le_antisymm choice.few enough
    · exact (choice.ascending.and choice.distinct).imp fun pair => lt_of_le_of_ne pair.1 pair.2
  · -- Otherwise all blocks would be among fewer.
    have every : List.range layout.numBlocks ⊆ blocks := by
      intro block member
      have inside := List.mem_range.mp member
      obtain ⟨earlier, before, equal⟩ := exists_splitmix64_eq
        (xxh.hash64 seed.asBytes scheduleSalt) (lt_of_lt_of_le inside (by omega))
      have taken := drawn earlier (by omega)
      rw [equal, Nat.mod_eq_of_lt inside] at taken
      exact taken
    have many := (List.nodup_range.subperm every).length_le
    have few := choice.few
    rw [List.length_range] at many
    omega

/-- Two of the three blocks of seven bytes. -/
theorem deriveSchedule_two_of_three :
    ∃ schedule, deriveSchedule sampleXxh3 (Bytes.fill 32 9) ⟨7, 3⟩ 2 = some schedule ∧
      schedule.blocks.length = 2 ∧ schedule.blocks.Pairwise (· < ·) ∧
        ∀ block ∈ schedule.blocks, block < 3 :=
  deriveSchedule_complete sampleXxh3 (Bytes.fill 32 9) 2 (by decide)

end DaemonNode
