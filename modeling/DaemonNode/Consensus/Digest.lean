import DaemonNode.Lib.Parts
import DaemonNode.Lib.Word
import DaemonNode.Proto.Bytes
import Mathlib.Data.List.Sort

/-!
# The round state digest

After an ingest every peer digests its state: sampled blocks of it, each after
its index, go through a seeded xxh3-128. The sampled blocks are drawn from the
round seed; a sample count that reaches the number of blocks takes them all, in
order. A streamed ingest never has the whole state at hand and feeds it to a
carry piece by piece, which puts the block indices in from the offset alone.

The hasher is a parameter. What the carry rests on is that a streaming hasher
answers with the hash of everything it was fed, however it was cut
(`Xxh3.Streams`). Both digests are then one hash of the state framed block by
block (`framedState`).
-/

namespace DaemonNode

/-- The xxh3 functions, with the state of the streaming hasher. -/
structure Xxh3 (Hasher : Type) where
  /-- `xxh3_64_with_seed`, a 64-bit word. -/
  hash64 : List Byte → Nat → Nat
  withSeed : Nat → Hasher
  update : Hasher → List Byte → Hasher
  /-- The 128-bit word of everything fed so far. -/
  digest128 : Hasher → Nat

/-- The streaming hasher is the one-shot hash of the concatenated input. -/
def Xxh3.Streams (xxh : Xxh3 Hasher) (hash : Nat → List Byte → Nat) : Prop :=
  ∀ (seed : Nat) (pieces : List (List Byte)),
    xxh.digest128 (pieces.foldl xxh.update (xxh.withSeed seed)) = hash seed pieces.flatten

/-- Seeds the schedule's generator. -/
def scheduleSalt : Nat := 0x5761726d53636864

/-- Seeds the digest's hasher. -/
def digestSalt : Nat := 0x5761726d44696773

/-- The size of a state and of the blocks it is sampled in. -/
structure StateLayout where
  (totalLen blockSize : Nat)
  deriving DecidableEq, Repr

namespace StateLayout

def of (state : List Byte) (blockSize : Nat) : StateLayout :=
  { totalLen := state.length, blockSize }

/-- The number of blocks, of which the last may be short. -/
def numBlocks (layout : StateLayout) : Nat :=
  if layout.blockSize = 0 then 0
  else (layout.totalLen + layout.blockSize - 1) / layout.blockSize

/-- The blocks cover the state, and the last one is not empty. -/
theorem numBlocks_of_mul_blockSize {blockSize : Nat} (positive : 0 < blockSize)
    (state : List Byte) :
    state.length ≤ (of state blockSize).numBlocks * blockSize ∧
      (of state blockSize).numBlocks * blockSize < state.length + blockSize := by
  have blocks : (of state blockSize).numBlocks =
      (state.length + blockSize - 1) / blockSize := if_neg positive.ne'
  have low := Nat.div_mul_le_self (state.length + blockSize - 1) blockSize
  have high := Nat.lt_div_mul_add (a := state.length + blockSize - 1) positive
  rw [blocks]
  omega

end StateLayout

/-- The sampled blocks, ascending. -/
structure DigestSchedule where
  blocks : List Nat
  deriving DecidableEq, Repr

/-- One draw: the drawn word and the generator's next state. -/
def splitmix64 (state : Nat) : Nat × Nat :=
  let state := (state + 0x9E3779B97F4A7C15) % 2 ^ 64
  let z := (state ^^^ (state >>> 30)) * 0xBF58476D1CE4E5B9 % 2 ^ 64
  let z := (z ^^^ (z >>> 27)) * 0x94D049BB133111EB % 2 ^ 64
  (z ^^^ (z >>> 31), state)

/-- Draw blocks, passing over those drawn before, until `want` are chosen. -/
def drawBlocks (numBlocks want : Nat) : Nat → Nat → List Nat → Option (List Nat)
  | 0, _, _ => none
  | draws + 1, prng, chosen =>
    if chosen.length < want then
      let (word, prng) := splitmix64 prng
      let block := word % numBlocks
      drawBlocks numBlocks want draws prng
        (if block ∈ chosen then chosen else chosen.orderedInsert (· ≤ ·) block)
    else some chosen

section

variable (mode : Word.Overflow) (xxh : Xxh3 Hasher) (seed : Seed)

/-- The blocks to sample. The generator's state is one 64-bit word, so a draw
that is not over after `2 ^ 64` words never is. -/
def deriveSchedule (layout : StateLayout) (sampleCount : Nat) : Option DigestSchedule :=
  let numBlocks := layout.numBlocks
  if numBlocks = 0 then some { blocks := [] }
  else
    let want := min sampleCount numBlocks
    if want = numBlocks then some { blocks := List.range numBlocks }
    else
      (drawBlocks numBlocks want (2 ^ 64 + 1)
        (xxh.hash64 seed.asBytes scheduleSalt) []).map fun blocks => { blocks }

/-- The seed of the digest's hasher. -/
def hashSeed : Nat :=
  xxh.hash64 seed.asBytes digestSalt

def hasherDigest (hasher : Hasher) : StateDigest :=
  ⟨toLeBytes 16 (xxh.digest128 hasher), length_toLeBytes 16 _⟩

/-- The block number as it is hashed in front of its block. -/
def blockFrame (block : Nat) : List Byte := toLeBytes 8 block

/-- One sampled block through the hasher: its index, then its bytes. -/
def digestBlock (blockSize : Nat) (state : List Byte) (hasher : Hasher) (block : Nat) :
    Option Hasher := do
  let low ← mode.mul 64 block blockSize
  let next ← mode.add 64 block 1
  let high ← mode.mul 64 next blockSize
  let start := min low state.length
  let stop := min high state.length
  -- Slicing `state[start..end]` panics when the product has wrapped.
  if start ≤ stop then
    some (xxh.update (xxh.update hasher (blockFrame block))
      ((state.drop start).take (stop - start)))
  else none

def digestWithSchedule (layout : StateLayout) (schedule : DigestSchedule) (state : List Byte) :
    Option StateDigest := do
  let hasher ← schedule.blocks.foldlM (digestBlock mode xxh layout.blockSize state)
    (xxh.withSeed (hashSeed xxh seed))
  some (hasherDigest xxh hasher)

/-- Derive the schedule and digest the state. -/
def digestState (blockSize sampleCount : Nat) (state : List Byte) : Option StateDigest := do
  let layout := StateLayout.of state blockSize
  let schedule ← deriveSchedule xxh seed layout sampleCount
  digestWithSchedule mode xxh seed layout schedule state

end

/-- The digest of every block, computed as the state goes by. -/
structure DigestCarry (Hasher : Type) where
  hasher : Hasher
  (blockSize offset : Nat)

namespace DigestCarry

/-- A fresh carry; a block size of zero panics. -/
def new (xxh : Xxh3 Hasher) (seed : Seed) (blockSize : Nat) :
    Option (DigestCarry Hasher) :=
  if 0 < blockSize then some { hasher := xxh.withSeed (hashSeed xxh seed), blockSize, offset := 0 }
  else none

/-- One turn of the update loop on `take` bytes: the block's index if they
start a block, then the bytes. -/
def feed (xxh : Xxh3 Hasher) (carry : DigestCarry Hasher) (bytes : List Byte) :
    DigestCarry Hasher :=
  let hasher :=
    if carry.offset % carry.blockSize = 0 then
      xxh.update carry.hasher (blockFrame (carry.offset / carry.blockSize))
    else carry.hasher
  { carry with hasher := xxh.update hasher bytes, offset := carry.offset + bytes.length }

/-- The update loop, whose every turn takes a byte at least. -/
def updateLoop (xxh : Xxh3 Hasher) :
    Nat → DigestCarry Hasher → List Byte → DigestCarry Hasher
  | 0, carry, _ => carry
  | turns + 1, carry, bytes =>
    if bytes.isEmpty then carry
    else
      let room := carry.blockSize - carry.offset % carry.blockSize
      let take := min room bytes.length
      updateLoop xxh turns (carry.feed xxh (bytes.take take)) (bytes.drop take)

/-- Feed the next bytes of the state. -/
def update (xxh : Xxh3 Hasher) (carry : DigestCarry Hasher) (bytes : List Byte) :
    DigestCarry Hasher :=
  updateLoop xxh bytes.length carry bytes

/-- The number of bytes fed so far. -/
def bytesFolded (carry : DigestCarry Hasher) : Nat := carry.offset

/-- The digest of everything fed. -/
def finalize (xxh : Xxh3 Hasher) (carry : DigestCarry Hasher) : StateDigest :=
  hasherDigest xxh carry.hasher

end DigestCarry

/-- A state with the index of each block in front of the block. -/
def framedState (blockSize : Nat) (state : List Byte) : List Byte :=
  Parts.frame blockFrame blockSize 0 state

/-- A hasher that was fed the given bytes, in whatever pieces. -/
def Fed (xxh : Xxh3 Hasher) (seed : Seed) (bytes : List Byte) (hasher : Hasher) :
    Prop :=
  ∃ pieces : List (List Byte),
    pieces.foldl xxh.update (xxh.withSeed (hashSeed xxh seed)) = hasher ∧ pieces.flatten = bytes

theorem fed_nil (xxh : Xxh3 Hasher) (seed : Seed) :
    Fed xxh seed [] (xxh.withSeed (hashSeed xxh seed)) :=
  ⟨[], rfl, rfl⟩

theorem Fed.update (fed : Fed xxh seed bytes hasher) (more : List Byte) :
    Fed xxh seed (bytes ++ more) (xxh.update hasher more) := by
  obtain ⟨pieces, rfl, rfl⟩ := fed
  refine ⟨pieces ++ [more], ?_, ?_⟩
  · rw [List.foldl_append]
    rfl
  · rw [List.flatten_append, List.flatten_singleton]

/-- All that reaches the digest is what was fed. -/
theorem Fed.hasherDigest_eq {hash : Nat → List Byte → Nat} (fed : Fed xxh seed bytes hasher)
    (streams : xxh.Streams hash) :
    hasherDigest xxh hasher =
      ⟨toLeBytes 16 (hash (hashSeed xxh seed) bytes), length_toLeBytes 16 _⟩ := by
  obtain ⟨pieces, rfl, rfl⟩ := fed
  apply Subtype.ext
  dsimp only [hasherDigest]
  rw [streams]

/-- A block inside the state is hashed as its index and its bytes. -/
theorem digestBlock_eq (mode : Word.Overflow) (fits : (block + 1) * blockSize < 2 ^ 64)
    (index_fits : block + 1 < 2 ^ 64) (hasher : Hasher) :
    digestBlock mode xxh blockSize state hasher block =
      some (xxh.update (xxh.update hasher (blockFrame block))
        ((state.drop (block * blockSize)).take blockSize)) := by
  have low_le : block * blockSize ≤ (block + 1) * blockSize :=
    Nat.mul_le_mul_right _ (Nat.le_succ _)
  have ordered : min (block * blockSize) state.length ≤
      min ((block + 1) * blockSize) state.length := by omega
  have width : (block + 1) * blockSize = block * blockSize + blockSize := Nat.succ_mul _ _
  have slice : (state.drop (min (block * blockSize) state.length)).take
      (min ((block + 1) * blockSize) state.length - min (block * blockSize) state.length) =
      (state.drop (block * blockSize)).take blockSize := by
    by_cases inside : block * blockSize ≤ state.length
    · rw [Nat.min_eq_left inside, List.take_eq_take_iff, List.length_drop]
      omega
    · rw [List.drop_eq_nil_of_le (by omega), List.drop_eq_nil_of_le (by omega),
        List.take_nil, List.take_nil]
  unfold digestBlock
  rw [mode.mul_of_lt (by omega), mode.add_of_lt index_fits]
  dsimp only [Option.bind_eq_bind, Option.bind_some]
  rw [mode.mul_of_lt fits, Option.bind_some, if_pos ordered, slice]

/-- The blocks in order feed the framed state. -/
theorem foldlM_digestBlock (xxh : Xxh3 Hasher) (seed : Seed) (state : List Byte)
    (mode : Word.Overflow) (fits : blocks * blockSize < 2 ^ 64) (index_fits : blocks < 2 ^ 64) :
    ∃ hasher,
      (List.range blocks).foldlM (digestBlock mode xxh blockSize state)
          (xxh.withSeed (hashSeed xxh seed)) = some hasher ∧
        Fed xxh seed ((List.range blocks).flatMap fun block =>
          blockFrame block ++ (state.drop (block * blockSize)).take blockSize)
          hasher := by
  induction blocks with
  | zero => exact ⟨_, rfl, fed_nil xxh seed⟩
  | succ blocks ih =>
    have less : blocks * blockSize ≤ (blocks + 1) * blockSize :=
      Nat.mul_le_mul_right _ (Nat.le_succ _)
    obtain ⟨hasher, folded, fed⟩ := ih (by omega) (by omega)
    refine ⟨xxh.update (xxh.update hasher (blockFrame blocks))
      ((state.drop (blocks * blockSize)).take blockSize), ?_, ?_⟩
    · rw [List.range_succ, List.foldlM_append, folded, Option.bind_eq_bind,
        Option.bind_some, List.foldlM_cons, digestBlock_eq mode fits index_fits]
      rfl
    · rw [List.range_succ, List.flatMap_append, List.flatMap_singleton, ← List.append_assoc]
      apply Fed.update
      apply Fed.update
      exact fed

/-- A sample count that reaches the number of blocks samples them all. -/
theorem deriveSchedule_eq_all (reached : layout.numBlocks ≤ sampleCount) :
    deriveSchedule xxh seed layout sampleCount =
      some { blocks := List.range layout.numBlocks } := by
  unfold deriveSchedule
  by_cases empty : layout.numBlocks = 0
  · rw [if_pos empty, empty]
    rfl
  · rw [if_neg empty, if_pos (Nat.min_eq_right reached)]

/-- The full digest of a state is the digest of a hasher fed the framed state. -/
theorem digestState_full (mode : Word.Overflow) (xxh : Xxh3 Hasher) (seed : Seed)
    (positive : 0 < blockSize) (word : blockSize < 2 ^ 32)
    (covered : (StateLayout.of state blockSize).numBlocks < 2 ^ 32) :
    ∃ hasher,
      digestState mode xxh seed blockSize (2 ^ 32 - 1) state = some (hasherDigest xxh hasher) ∧
        Fed xxh seed (framedState blockSize state) hasher := by
  obtain ⟨all, last⟩ := StateLayout.numBlocks_of_mul_blockSize positive state
  have fits : (StateLayout.of state blockSize).numBlocks * blockSize < 2 ^ 64 := by
    calc (StateLayout.of state blockSize).numBlocks * blockSize
        < 2 ^ 32 * 2 ^ 32 := Nat.mul_lt_mul'' covered word
      _ = 2 ^ 64 := by norm_num
  obtain ⟨hasher, folded, fed⟩ := foldlM_digestBlock xxh seed state mode fits (by omega)
  refine ⟨hasher, ?_, ?_⟩
  · unfold digestState
    dsimp only
    rw [deriveSchedule_eq_all (by omega), Option.bind_eq_bind, Option.bind_some, digestWithSchedule]
    rw [show (StateLayout.of state blockSize).blockSize = blockSize from rfl, folded]
    rfl
  · rw [← Parts.frame_eq_flatMap_blocks blockFrame positive state last,
      List.take_of_length_le all] at fed
    exact fed

namespace DigestCarry

variable {xxh : Xxh3 Hasher} {seed : Seed} {blockSize : Nat}

/-- The carry of a state fed so far: the framed state went into the hasher. -/
structure Holds (xxh : Xxh3 Hasher) (seed : Seed) (blockSize : Nat)
    (state : List Byte) (carry : DigestCarry Hasher) : Prop where
  blockSize_eq : carry.blockSize = blockSize
  offset_eq : carry.offset = state.length
  fed : Fed xxh seed (framedState blockSize state) carry.hasher

/-- A turn of the update loop keeps the carry, whatever the state ended on. -/
theorem Holds.feed (holds : Holds xxh seed blockSize state carry) (nonempty : bytes ≠ [])
    (within : carry.offset % carry.blockSize + bytes.length ≤ carry.blockSize) :
    Holds xxh seed blockSize (state ++ bytes) (carry.feed xxh bytes) := by
  obtain ⟨rfl, offset_eq, fed⟩ := holds
  refine ⟨rfl, ?_, ?_⟩
  · rw [List.length_append, ← offset_eq]
    rfl
  · rw [framedState, Parts.frame_append, Nat.zero_add, ← offset_eq,
      Parts.frame_of_within_block blockFrame nonempty within, ← List.append_assoc]
    apply Fed.update
    by_cases starts : carry.offset % carry.blockSize = 0
    · rw [if_pos starts, if_pos starts]
      exact fed.update _
    · rw [if_neg starts, if_neg starts, List.append_nil]
      exact fed

theorem Holds.updateLoop (positive : 0 < blockSize) (holds : Holds xxh seed blockSize state carry)
    (enough : bytes.length ≤ turns) :
    Holds xxh seed blockSize (state ++ bytes) (carry.updateLoop xxh turns bytes) := by
  induction turns generalizing carry state bytes with
  | zero =>
    have empty : bytes = [] := List.length_eq_zero_iff.mp (by omega)
    rw [empty, List.append_nil]
    exact holds
  | succ turns ih =>
    rw [DigestCarry.updateLoop]
    by_cases empty : bytes = []
    · rw [empty, List.append_nil]
      exact holds
    · rw [if_neg (by simpa using empty)]
      dsimp only
      have size := holds.blockSize_eq
      have mod_lt : carry.offset % carry.blockSize < carry.blockSize := by
        apply Nat.mod_lt
        omega
      have some := List.length_pos_iff.mpr empty
      generalize split : min (carry.blockSize - carry.offset % carry.blockSize) bytes.length = taken
      have length_take : (bytes.take taken).length = taken := by
        rw [List.length_take]
        omega
      have taken_ne_nil : bytes.take taken ≠ [] := by
        rw [← List.length_pos_iff]
        omega
      have shorter : (bytes.drop taken).length ≤ turns := by
        rw [List.length_drop]
        omega
      have rest := ih (holds.feed taken_ne_nil (by omega)) shorter
      rw [List.append_assoc, List.take_append_drop] at rest
      exact rest

/-- However the pieces cut it, the carry has taken in the whole state. -/
theorem Holds.foldl_update (positive : 0 < blockSize) (holds : Holds xxh seed blockSize state carry)
    (pieces : List (List Byte)) :
    Holds xxh seed blockSize (state ++ pieces.flatten) (pieces.foldl (update xxh) carry) := by
  induction pieces generalizing carry state with
  | nil =>
    rw [List.flatten_nil, List.append_nil]
    exact holds
  | cons piece pieces ih =>
    rw [List.flatten_cons, ← List.append_assoc]
    apply ih
    exact holds.updateLoop positive (le_refl _)

end DigestCarry

/-- A state fed to a carry in any pieces ends in the digest of the whole state
under the full schedule, whose block count fits its word. -/
theorem streamed_digest_eq_resident (mode : Word.Overflow) (xxh : Xxh3 Hasher)
    {hash : Nat → List Byte → Nat} (streams : xxh.Streams hash) (seed : Seed) {blockSize : Nat}
    (positive : 0 < blockSize) (word : blockSize < 2 ^ 32) (pieces : List (List Byte))
    (covered : (StateLayout.of pieces.flatten blockSize).numBlocks < 2 ^ 32) :
    ∃ carry digest,
      DigestCarry.new xxh seed blockSize = some carry ∧
        digestState mode xxh seed blockSize (2 ^ 32 - 1) pieces.flatten = some digest ∧
          (pieces.foldl (DigestCarry.update xxh) carry).finalize xxh = digest ∧
            (pieces.foldl (DigestCarry.update xxh) carry).bytesFolded = pieces.flatten.length := by
  obtain ⟨hasher, resident, fed⟩ := digestState_full mode xxh seed positive word covered
  have fresh : DigestCarry.Holds xxh seed blockSize []
      { hasher := xxh.withSeed (hashSeed xxh seed), blockSize, offset := 0 } :=
    ⟨rfl, rfl, fed_nil xxh seed⟩
  have streamed := fresh.foldl_update positive pieces
  refine ⟨_, _, if_pos positive, resident, ?_, streamed.offset_eq⟩
  rw [DigestCarry.finalize, streamed.fed.hasherDigest_eq streams,
    fed.hasherDigest_eq streams, List.nil_append]

/-- A hasher that keeps its input and answers with a weighted sum of it. -/
def sampleXxh3 : Xxh3 (Nat × List Byte) where
  hash64 := fun bytes seed => (fromLeBytes (bytes.take 2) + seed) % 2 ^ 64
  withSeed := fun seed => (seed, [])
  update := fun hasher bytes => (hasher.1, hasher.2 ++ bytes)
  digest128 := fun hasher => (hasher.1 + fromLeBytes hasher.2) % 2 ^ 128

theorem sampleXxh3_streams :
    sampleXxh3.Streams fun seed bytes => (seed + fromLeBytes bytes) % 2 ^ 128 := by
  intro seed pieces
  have kept : ∀ taken, pieces.foldl sampleXxh3.update (seed, taken) =
      (seed, taken ++ pieces.flatten) := by
    induction pieces with
    | nil => simp
    | cons piece pieces ih =>
      intro taken
      rw [List.foldl_cons, List.flatten_cons, ← List.append_assoc]
      exact ih _
  rw [show sampleXxh3.withSeed seed = (seed, []) from rfl, kept, List.nil_append]
  rfl

/-- Seven bytes in blocks of three, fed in four pieces, one of them empty. -/
theorem seven_bytes_streamed :
    ∃ carry digest,
      DigestCarry.new sampleXxh3 (Bytes.fill 32 9) 3 = some carry ∧
        digestState .trap sampleXxh3 (Bytes.fill 32 9) 3 (2 ^ 32 - 1)
            [1, 2, 3, 4, 5, 6, 7] = some digest ∧
          ([[1, 2], [], [3, 4, 5, 6], [7]].foldl (DigestCarry.update sampleXxh3)
            carry).finalize sampleXxh3 = digest ∧
            ([[1, 2], [], [3, 4, 5, 6], [7]].foldl (DigestCarry.update sampleXxh3)
              carry).bytesFolded = 7 :=
  streamed_digest_eq_resident .trap sampleXxh3 sampleXxh3_streams (Bytes.fill 32 9)
    (by decide) (by decide) [[1, 2], [], [3, 4, 5, 6], [7]] (by decide)

end DaemonNode
