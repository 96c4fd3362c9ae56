import DaemonNode.Lib.Lists
import DaemonNode.Proto.Bytes
import Mathlib.Data.Int.CardIntervalMod

/-!
# Deterministic per-round assignment

Every peer derives the same witness committee and batch sizes from the round
seed and the roster. Randomness is a 64-bit linear congruential generator
seeded from a salted hash, drawn from by rejection sampling, and driving a
Fisher–Yates shuffle.

The rejection loop of the generator has no bound in the source. Here it
carries one, and `below_accepts_evenly` shows that the bound is never met: after
`2 ^ 63` steps the generator has flipped the top bit of its state, so among
`2 ^ 64` draws one falls under any rejection threshold.
-/

namespace DaemonNode.Assignment

/-- The linear congruential generator; the state is a 64-bit word. -/
structure Lcg where
  state : Nat
  deriving DecidableEq, Repr

/-- The multiplier of the generator. -/
def lcgMult : Nat := 6364136223846793005

/-- The increment of the generator. -/
def lcgIncr : Nat := 1442695040888963407

namespace Lcg

/-- One wrapping advance of the generator state. -/
def advance (state : Nat) : Nat :=
  (lcgIncr + lcgMult * state) % 2 ^ 64

/-- Advance the generator and return its new state. -/
def nextU64 (rng : Lcg) : Nat × Lcg :=
  let state := advance rng.state
  (state, ⟨state⟩)

/-- Draw until a state falls under `zone`, giving up after `2 ^ depth`
draws. -/
def drawBelow (zone : Nat) : Nat → Lcg → Option Nat × Lcg
  | 0, rng => (if rng.nextU64.1 < zone then some rng.nextU64.1 else none, rng.nextU64.2)
  | depth + 1, rng =>
    match drawBelow zone depth rng with
    | (some drawn, rng) => (some drawn, rng)
    | (none, rng) => drawBelow zone depth rng

/-- The rejection threshold for a bound: the largest multiple of `bound` that
the sampling accepts draws under. -/
def zone (bound : Nat) : Nat :=
  (2 ^ 64 - 1) - (2 ^ 64 - 1) % bound

/-- A uniform draw under `bound`, by rejection sampling. -/
def below (rng : Lcg) (bound : Nat) : Nat × Lcg :=
  match drawBelow (zone bound) 64 rng with
  | (some drawn, rng) => (drawn % bound, rng)
  | (none, rng) => (0, rng)

end Lcg

/-- Seed a generator from a round seed and a salt. -/
def seededLcg (blake3 : List Byte → Hash) (seed : Seed) (salt : List Byte) : Lcg :=
  ⟨fromLeBytes ((blake3 (seed.asBytes ++ salt)).asBytes.take 8)⟩

/-- Exchange two positions of a list. -/
def swap (items : List α) (left right : Nat) : List α :=
  match items[left]?, items[right]? with
  | some first, some second => (items.set left second).set right first
  | _, _ => items

/-- The Fisher–Yates passes for the positions `position, …, 1`. -/
def shuffleDown : Nat → List α → Lcg → List α × Lcg
  | 0, items, rng => (items, rng)
  | position + 1, items, rng =>
    shuffleDown position
      (swap items (position + 1) (rng.below (position + 2)).1)
      (rng.below (position + 2)).2

/-- Fisher–Yates shuffle driven by a generator. -/
def deterministicShuffle (items : List α) (rng : Lcg) : List α × Lcg :=
  shuffleDown (items.length - 1) items rng

/-- The witness quorum for `count` witnesses. -/
def witnessQuorum : Nat → Nat
  | 0 => 0
  | 1 => 1
  | 2 => 2
  | 3 => 2
  | count => (2 * count + 2) / 3

/-- The roles of one round. -/
structure Committee where
  /-- All roster members, sorted. -/
  trainers : List PeerId
  /-- The members whose attestations count. -/
  witnesses : List PeerId
  deriving DecidableEq

def witnessSalt : List Byte := labelBytes "daemon-vhc/witness/1.0.0"

/-- Sort a roster by key bytes and drop repetitions. -/
def canonicalRoster (roster : List PeerId) : List PeerId :=
  (roster.insertionSort (· ≤ ·)).destutter (· ≠ ·)

/-- Select the committee of a round. A witness target of zero makes every
peer a witness. -/
def selectCommittee (blake3 : List Byte → Hash)
    (roster : List PeerId) (seed : Seed) (witnessTarget : Nat) : Committee :=
  let trainers := canonicalRoster roster
  let pool :=
    (deterministicShuffle trainers (seededLcg blake3 seed witnessSalt)).1
  let count :=
    if witnessTarget = 0 then pool.length else min witnessTarget pool.length
  { trainers := trainers, witnesses := pool.take count }

/-- The schedule of sequences per round. -/
structure GlobalBatch where
  start : UInt32
  stop : UInt32
  rampRounds : UInt32
  deriving DecidableEq

/-- The global batch size at `round`, ramped linearly. -/
def globalBatchAt (batch : GlobalBatch) (round : Nat) : Nat :=
  let start := batch.start.toNat
  let stop := batch.stop.toNat
  let ramp := batch.rampRounds.toNat
  if ramp = 0 ∨ ramp ≤ round then stop
  else if start ≤ stop then start + (stop - start) * round / ramp
  else start - (start - stop) * round / ramp

namespace Lcg

theorem advance_lt (state : Nat) : advance state < 2 ^ 64 :=
  Nat.mod_lt _ (by norm_num)

/-- Multiplier and increment of `2 ^ doublings` advances, by repeated
squaring. -/
def squared : Nat → Nat × Nat
  | 0 => (lcgMult, lcgIncr)
  | doublings + 1 =>
    let (multiplier, increment) := squared doublings
    (multiplier * multiplier % 2 ^ 64, (increment * multiplier + increment) % 2 ^ 64)

/-- `2 ^ doublings` advances are one affine map. -/
theorem iterate_advance_two_pow (doublings state : Nat) :
    advance^[2 ^ doublings] state ≡
      state * (squared doublings).1 + (squared doublings).2 [MOD 2 ^ 64] := by
  induction doublings generalizing state with
  | zero =>
    rw [add_comm, mul_comm]
    exact Nat.mod_modEq _ _
  | succ doublings ih =>
    have twice : 2 ^ (doublings + 1) = 2 ^ doublings + 2 ^ doublings := by
      ring
    rw [twice, Function.iterate_add_apply]
    calc
      advance^[2 ^ doublings] (advance^[2 ^ doublings] state)
          ≡ advance^[2 ^ doublings] state * (squared doublings).1 +
              (squared doublings).2 [MOD 2 ^ 64] :=
        ih _
      _ ≡ (state * (squared doublings).1 + (squared doublings).2) *
              (squared doublings).1 + (squared doublings).2 [MOD 2 ^ 64] :=
        Nat.ModEq.add_right _ ((ih state).mul_right _)
      _ = state * ((squared doublings).1 * (squared doublings).1) +
            ((squared doublings).2 * (squared doublings).1 + (squared doublings).2) := by
        ring
      _ ≡ state * (squared (doublings + 1)).1 + (squared (doublings + 1)).2 [MOD 2 ^ 64] :=
        Nat.ModEq.add ((Nat.mod_modEq _ _).symm.mul_left _) (Nat.mod_modEq _ _).symm

/-- After half a period only the top bit has changed. -/
theorem iterate_advance_half_period (state : Nat) (half : period = 2 ^ 63) :
    advance^[period] state ≡ state + 2 ^ 63 [MOD 2 ^ 64] := by
  have halfway : squared 63 = (1, 2 ^ 63) := by decide +kernel
  have affine := iterate_advance_two_pow 63 state
  rw [halfway, mul_one, ← half] at affine
  exact half ▸ affine

/-- Within half a period one state is in the lower half of the words. -/
theorem exists_iterate_advance_lt (state : Nat) {period : Nat} (half : period = 2 ^ 63) :
    ∃ draws, draws ≤ period ∧ advance^[draws + 1] state < 2 ^ 63 := by
  by_cases low : advance state < 2 ^ 63
  · refine ⟨0, Nat.zero_le _, ?_⟩
    rwa [zero_add, Function.iterate_one]
  · refine ⟨period, le_rfl, ?_⟩
    have flipped := iterate_advance_half_period (advance state) half
    have inside : advance^[period] (advance state) < 2 ^ 64 := by
      cases period with
      | zero =>
        exact advance_lt _
      | succ earlier =>
        rw [Function.iterate_succ_apply']
        exact advance_lt _
    rw [Function.iterate_succ_apply]
    -- flipping the top bit of an upper-half word lands in the lower half
    rw [Nat.ModEq, Nat.mod_eq_of_lt inside] at flipped
    have bounded := advance_lt state
    omega

/-- The draws before the first one under the zone are passed over. -/
theorem drawBelow_eq (zone depth : Nat) (rng : Lcg) :
    ((∀ draws < 2 ^ depth, zone ≤ advance^[draws + 1] rng.state) →
      drawBelow zone depth rng = (none, ⟨advance^[2 ^ depth] rng.state⟩)) ∧
    ∀ draws < 2 ^ depth, (∀ earlier < draws, zone ≤ advance^[earlier + 1] rng.state) →
      advance^[draws + 1] rng.state < zone →
      drawBelow zone depth rng =
        (some (advance^[draws + 1] rng.state), ⟨advance^[draws + 1] rng.state⟩) := by
  induction depth generalizing rng with
  | zero =>
    have drawn : rng.nextU64 = (advance^[0 + 1] rng.state, ⟨advance^[0 + 1] rng.state⟩) := rfl
    rw [drawBelow, drawn]
    constructor
    · intro above
      rw [if_neg (not_lt.mpr (above 0 Nat.one_pos))]
      rfl
    · intro draws before _ under
      obtain rfl : draws = 0 := by omega
      rw [if_pos under]
  | succ depth ih =>
    have twice : 2 ^ (depth + 1) = 2 ^ depth + 2 ^ depth := by ring
    have later (draws : Nat) : advance^[draws] (advance^[2 ^ depth] rng.state) =
        advance^[draws + 2 ^ depth] rng.state :=
      (Function.iterate_add_apply _ _ _ _).symm
    obtain ⟨failed, found⟩ := ih rng
    obtain ⟨failedLater, foundLater⟩ := ih ⟨advance^[2 ^ depth] rng.state⟩
    simp only [later] at failedLater foundLater
    rw [drawBelow]
    constructor
    · intro above
      rw [failed fun draws before => above draws (by omega), twice]
      apply failedLater
      intro draws before
      rw [Nat.add_right_comm]
      exact above _ (by omega)
    · intro draws before above under
      by_cases early : draws < 2 ^ depth
      · rw [found draws early above under]
      · rw [failed fun draws before => above draws (by omega)]
        obtain ⟨draws, rfl⟩ := Nat.exists_eq_add_of_le' (Nat.not_lt.mp early)
        rw [Nat.add_right_comm] at under ⊢
        apply foundLater draws (by omega) _ under
        intro earlier sooner
        rw [Nat.add_right_comm]
        exact above _ (by omega)

/-- Half of all states lie under every rejection threshold. -/
theorem two_pow_63_le_zone (positive : 0 < bound) (word : bound < 2 ^ 64) :
    2 ^ 63 ≤ zone bound := by
  have remainder := Nat.mod_lt (2 ^ 64 - 1) positive
  have quotient := Nat.div_add_mod (2 ^ 64 - 1) bound
  have atLeastOne : 1 ≤ (2 ^ 64 - 1) / bound := (Nat.one_le_div_iff positive).mpr (by omega)
  have multiple : bound * 1 ≤ bound * ((2 ^ 64 - 1) / bound) := Nat.mul_le_mul_left _ atLeastOne
  unfold zone
  omega

/-- The rejection loop ends with the first draw under the threshold, from every state, and
the draws under the threshold favour no residue. -/
theorem below_accepts_evenly (rng : Lcg) (positive : 0 < bound) (word : bound < 2 ^ 64) :
    (∃ draws, (∀ earlier < draws, zone bound ≤ advance^[earlier + 1] rng.state) ∧
      advance^[draws + 1] rng.state < zone bound ∧
      rng.below bound =
        (advance^[draws + 1] rng.state % bound, ⟨advance^[draws + 1] rng.state⟩)) ∧
    (rng.below bound).1 < bound ∧ 0 < zone bound ∧ bound ∣ zone bound ∧
    ∀ residue, Nat.count (· ≡ residue [MOD bound]) (zone bound) = zone bound / bound := by
  have zoneLarge := two_pow_63_le_zone positive word
  have multiple : bound ∣ zone bound := Nat.dvd_sub_mod _
  obtain ⟨period, half⟩ : ∃ period, period = 2 ^ 63 := ⟨_, rfl⟩
  obtain ⟨low, within, lowUnder⟩ := exists_iterate_advance_lt rng.state half
  have accepts : ∃ draws, advance^[draws + 1] rng.state < zone bound :=
    ⟨low, lowUnder.trans_le zoneLarge⟩
  obtain ⟨draws, under, above⟩ : ∃ draws, advance^[draws + 1] rng.state < zone bound ∧
      ∀ earlier < draws, ¬advance^[earlier + 1] rng.state < zone bound :=
    ⟨Nat.find accepts, Nat.find_spec accepts, fun _ => Nat.find_min accepts⟩
  simp only [Nat.not_lt] at above
  have soon : draws ≤ low := by
    by_contra late
    exact absurd lowUnder (not_lt.mpr (zoneLarge.trans (above low (by omega))))
  have found := (drawBelow_eq _ 64 rng).2 draws (by omega) above under
  have drawn : rng.below bound =
      (advance^[draws + 1] rng.state % bound, ⟨advance^[draws + 1] rng.state⟩) := by
    unfold below
    -- the loop of `2 ^ 64` draws is not to be unfolded
    generalize drawBelow (zone bound) 64 rng = outcome at found ⊢
    rw [found]
  refine ⟨⟨draws, above, under, drawn⟩, ?_, by omega, multiple, fun residue => ?_⟩
  · rw [drawn]
    exact Nat.mod_lt _ positive
  · rw [Nat.count_modEq_card _ positive, Nat.mod_eq_zero_of_dvd multiple,
      if_neg (Nat.not_lt_zero _), Nat.add_zero]

/-- A bound that rejects almost half of the draws. -/
theorem below_accepts_above_half : ((⟨0⟩ : Lcg).below (2 ^ 63 + 1)).1 < 2 ^ 63 + 1 :=
  (below_accepts_evenly _ (by norm_num) (by norm_num)).2.1

end Lcg

theorem swap_perm (items : List α) (left right : Nat) : (swap items left right).Perm items := by
  unfold swap
  split
  · rename_i first second leftValue rightValue
    obtain ⟨leftInside, rfl⟩ := List.getElem?_eq_some_iff.mp leftValue
    obtain ⟨rightInside, rfl⟩ := List.getElem?_eq_some_iff.mp rightValue
    exact List.set_set_perm leftInside rightInside
  · exact List.Perm.refl _

theorem shuffleDown_perm (position : Nat) (items : List α) (rng : Lcg) :
    (shuffleDown position items rng).1.Perm items := by
  induction position generalizing items rng with
  | zero => exact List.Perm.refl _
  | succ position ih =>
    exact (ih _ _).trans (swap_perm _ _ _)

theorem deterministicShuffle_perm (items : List α) (rng : Lcg) :
    (deterministicShuffle items rng).1.Perm items :=
  shuffleDown_perm _ _ _

/-- Dropping adjacent repetitions of a sorted list leaves it strictly
ascending. -/
theorem canonicalRoster_ascending (roster : List PeerId) :
    (canonicalRoster roster).Pairwise (· < ·) :=
  Lists.pairwise_lt_destutter_ne Function.injective_id (List.pairwise_insertionSort _ _)

theorem canonicalRoster_ne_nil (nonempty : roster ≠ []) : canonicalRoster roster ≠ [] := by
  obtain ⟨peer, member⟩ := List.exists_mem_of_ne_nil _ nonempty
  have sorted := (List.mem_insertionSort (· ≤ ·)).mpr member
  exact List.ne_nil_of_mem ((Lists.mem_destutter_ne _ peer).mpr sorted)

section Committee

variable (blake3 : List Byte → Hash)
variable (roster : List PeerId) (seed : Seed) (witnessTarget : Nat)

/-- No peer is a witness twice. -/
theorem selectCommittee_witnesses_nodup :
    (selectCommittee blake3 roster seed witnessTarget).witnesses.Nodup := by
  have trainers : (canonicalRoster roster).Nodup := (canonicalRoster_ascending roster).imp ne_of_lt
  exact ((deterministicShuffle_perm _ _).nodup_iff.mpr trainers).sublist (List.take_sublist _ _)

/-- There are at most as many witnesses as roster entries. -/
theorem selectCommittee_witnesses_length_le :
    (selectCommittee blake3 roster seed witnessTarget).witnesses.length ≤ roster.length := by
  have sorted : (canonicalRoster roster).length ≤ roster.length := by
    have kept := (List.destutter_sublist (· ≠ ·) (roster.insertionSort (· ≤ ·))).length_le
    rwa [List.length_insertionSort] at kept
  have pool := (deterministicShuffle_perm (canonicalRoster roster)
    (seededLcg blake3 seed witnessSalt)).length_eq
  simp only [selectCommittee, List.length_take]
  omega

theorem selectCommittee_witnesses_ne_nil (nonempty : roster ≠ []) :
    (selectCommittee blake3 roster seed witnessTarget).witnesses ≠ [] := by
  have trainers := List.length_pos_iff.mpr (canonicalRoster_ne_nil nonempty)
  have pool := (deterministicShuffle_perm (canonicalRoster roster)
    (seededLcg blake3 seed witnessSalt)).length_eq
  apply List.length_pos_iff.mp
  simp only [selectCommittee, List.length_take]
  split <;> omega

end Committee

theorem lt_two_mul_witnessQuorum (positive : 0 < count) : count < 2 * witnessQuorum count := by
  unfold witnessQuorum
  split <;> omega

/-- Two or more witnesses need two or more attestations. -/
theorem two_le_witnessQuorum (several : 2 ≤ count) : 2 ≤ witnessQuorum count := by
  unfold witnessQuorum
  split <;> omega

end DaemonNode.Assignment
