import DaemonNode.Proto.Bytes

/-!
# The content hash

The coordinator hashes through the blake3 crate. Results about the
coordinator hold for every hash function; this module computes the real one on
inputs of a single chunk, 1024 bytes, which is enough to execute runs.
-/

namespace DaemonNode.Blake3

/-- Size of a 32-bit word. -/
def word : Nat := 2 ^ 32

/-- Initial chaining value. -/
def iv : List Nat :=
  [0x6A09E667, 0xBB67AE85, 0x3C6EF372, 0xA54FF53A, 0x510E527F, 0x9B05688C, 0x1F83D9AB, 0x5BE0CD19]

def rotateRight (value amount : Nat) : Nat :=
  value / 2 ^ amount + value % 2 ^ amount * 2 ^ (32 - amount)

/-- The quarter round on four words of the state and two message words. -/
def quarterRound (state : List Nat) (a b c d x y : Nat) : List Nat :=
  let a₁ := (state.getD a 0 + state.getD b 0 + x) % word
  let d₁ := rotateRight (state.getD d 0 ^^^ a₁) 16
  let c₁ := (state.getD c 0 + d₁) % word
  let b₁ := rotateRight (state.getD b 0 ^^^ c₁) 12
  let a₂ := (a₁ + b₁ + y) % word
  let d₂ := rotateRight (d₁ ^^^ a₂) 8
  let c₂ := (c₁ + d₂) % word
  let b₂ := rotateRight (b₁ ^^^ c₂) 7
  (((state.set a a₂).set b b₂).set c c₂).set d d₂

/-- The state positions of the eight quarter rounds. -/
def positions : List (Nat × Nat × Nat × Nat) :=
  [(0, 4, 8, 12), (1, 5, 9, 13), (2, 6, 10, 14), (3, 7, 11, 15),
    (0, 5, 10, 15), (1, 6, 11, 12), (2, 7, 8, 13), (3, 4, 9, 14)]

/-- One round: columns, then diagonals. -/
def mixRound (message state : List Nat) : List Nat :=
  (positions.zipIdx).foldl
    (fun state entry =>
      quarterRound state entry.1.1 entry.1.2.1 entry.1.2.2.1 entry.1.2.2.2
        (message.getD (2 * entry.2) 0) (message.getD (2 * entry.2 + 1) 0))
    state

/-- Reorder the message words between rounds. -/
def permute (message : List Nat) : List Nat :=
  [2, 6, 3, 10, 7, 0, 4, 13, 1, 11, 12, 5, 9, 14, 15, 8].map fun index => message.getD index 0

/-- Rounds with the message permuted in between. -/
def mixRounds : Nat → List Nat → List Nat → List Nat
  | 0, _, state => state
  | rounds + 1, message, state => mixRounds rounds (permute message) (mixRound message state)

/-- Compress one block into the next chaining value. -/
def compress (chaining message : List Nat) (length flags : Nat) : List Nat :=
  let mixed := mixRounds 7 message (chaining ++ iv.take 4 ++ [0, 0, length, flags])
  List.zipWith (· ^^^ ·) (mixed.take 8) (mixed.drop 8)

/-- The little-endian words of a block, padded with zeros. -/
def blockWords (block : List Byte) : List Nat :=
  (List.range 16).map fun index => fromLeBytes ((block.drop (4 * index)).take 4)

/-- Compress the blocks of a chunk. The flags mark its first and last block;
the last block of a single chunk is also the root. -/
def compressBlocks : Nat → Nat → List Nat → List Byte → List Nat
  | 0, _, chaining, _ => chaining
  | blocks + 1, start, chaining, bytes =>
    if bytes.length ≤ 64 then compress chaining (blockWords bytes) bytes.length (start + 2 + 8)
    else
      compressBlocks blocks 0
        (compress chaining (blockWords (bytes.take 64)) 64 start)
        (bytes.drop 64)

/-- The blake3 hash of at most one chunk. -/
def hashChunk (bytes : List Byte) : Hash :=
  let digest := (compressBlocks 16 1 iv bytes).flatMap (toLeBytes 4)
  ⟨(digest ++ List.replicate 32 0).take 32, by simp⟩

example : (hashChunk (labelBytes "abc")).asBytes.take 4 =
    [0x64, 0x37, 0xb3, 0xac] := by
  decide +kernel

end DaemonNode.Blake3
