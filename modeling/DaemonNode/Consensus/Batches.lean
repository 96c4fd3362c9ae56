import DaemonNode.Consensus.Assignment
import DaemonNode.Consensus.Messages
import DaemonNode.Lib.Parts
import DaemonNode.Lib.Word

/-!
# Batch assignment

A round's batch window is split into one interval per peer. The peers are
sorted by key and shuffled by the seed, the sizes are apportioned by
throughput weight with the largest remainders rounded up, and the intervals
are laid out from left to right, each stretched by an overlap.
-/

namespace DaemonNode.Assignment

open Parts (Tiles)
open Word (Overflow)

def classWeight : ThroughputClass → Nat
  | .c1 => 1
  | .c2 => 4
  | .c3 => 16
  | .c4 => 64

def assignSalt : List Byte := labelBytes "daemon-vhc/assign/1.0.0"

/-- Sort weighted peers by key bytes and drop repeated keys. -/
def canonicalPeers (roster : List (PeerId × ThroughputClass)) :
    List (PeerId × ThroughputClass) :=
  (roster.insertionSort fun left right => left.1 ≤ right.1).destutter
    fun left right => left.1 ≠ right.1

/-- The positions of the parts, largest remainder first, ties by position. -/
def remainderOrder (total : Nat) (weights : List Nat) : List Nat :=
  let remainders := weights.zipIdx.map fun (weight, index) =>
    (total * weight % weights.sum, index)
  let ordered := remainders.insertionSort fun left right =>
    right.1 < left.1 ∨ (left.1 = right.1 ∧ left.2 ≤ right.2)
  ordered.map Prod.snd

/-- Sizes proportional to the weights that add up to `total`: floored shares,
then one more for the largest remainders. -/
def apportion (total : Nat) (weights : List Nat) : List Nat :=
  let sizes := Parts.floors total weights
  Parts.handOut (remainderOrder total weights) (total - sizes.sum) sizes

/-- Lay out sized intervals from `cursor` on. Each is stretched by its share
of overlap and clamped to the end of the window. -/
def layOut (mode : Overflow) (stop overlapBps : Nat) :
    Nat → List (PeerId × Nat) → Option (List (PeerId × BatchWindow))
  | _, [] => some []
  | cursor, (peer, size) :: rest => do
    let baseEnd ← mode.add 64 cursor size
    let overlap := size * overlapBps / 10000 % 2 ^ 64
    let stretched ← mode.add 64 baseEnd overlap
    let later ← layOut mode stop overlapBps baseEnd rest
    some ((peer, ⟨cursor, min stretched stop⟩) :: later)

def layoutPeers (blake3 : List Byte → Hash)
    (roster : List (PeerId × ThroughputClass)) (seed : Seed) :
    List (PeerId × ThroughputClass) :=
  (deterministicShuffle (canonicalPeers roster) (seededLcg blake3 seed assignSalt)).1

/-- Split a window into per-peer intervals. -/
def assignBatches (mode : Overflow) (blake3 : List Byte → Hash)
    (roster : List (PeerId × ThroughputClass)) (seed : Seed)
    (window : BatchWindow) (overlapBps : Nat) :
    Option (List (PeerId × BatchWindow)) :=
  -- `saturating_sub`: a reversed window is empty
  let total := window.stop - window.start
  if roster = [] ∨ total = 0 then some []
  else
    let peers := layoutPeers blake3 roster seed
    let sizes := apportion total (peers.map fun peer => classWeight peer.2)
    layOut mode window.stop overlapBps window.start ((peers.map Prod.fst).zip sizes)

theorem classWeight_pos (throughput : ThroughputClass) : 0 < classWeight throughput := by
  cases throughput <;> decide

theorem remainderOrder_perm (total : Nat) (weights : List Nat) :
    (remainderOrder total weights).Perm (List.range weights.length) := by
  have positions : (weights.zipIdx.map fun (weight, index) =>
      (total * weight % weights.sum, index)).map Prod.snd = List.range weights.length := by
    rw [List.map_map, List.range_eq_range', ← List.zipIdx_map_snd]
    rfl
  rw [← positions]
  exact (List.perm_insertionSort _ _).map Prod.snd

/-- The apportioned sizes add up to the total. -/
theorem sum_apportion (total : Nat) (positive : 0 < weights.sum) :
    (apportion total weights).sum = total :=
  Parts.sum_handOut_floors positive (remainderOrder_perm total weights)

@[simp] theorem length_apportion (total : Nat) (weights : List Nat) :
    (apportion total weights).length = weights.length := by
  simp [apportion]

def span (window : BatchWindow) : Nat × Nat := (window.start, window.stop)

/-- The intervals from `cursor` on, before they are stretched. -/
def bases : Nat → List (PeerId × Nat) → List (PeerId × BatchWindow)
  | _, [] => []
  | cursor, (peer, size) :: rest => (peer, ⟨cursor, cursor + size⟩) :: bases (cursor + size) rest

/-- The end of an interval with its share of overlap, before it is clamped. -/
def stretchedEnd (overlapBps : Nat) (base : BatchWindow) : Nat :=
  base.stop + (base.stop - base.start) * overlapBps / 10000 % 2 ^ 64

/-- An interval stretched by its overlap, up to the end of the window. -/
def stretch (stop overlapBps : Nat) (entry : PeerId × BatchWindow) : PeerId × BatchWindow :=
  (entry.1, ⟨entry.2.start, min (stretchedEnd overlapBps entry.2) stop⟩)

/-- The intervals are a tiling, one piece for each peer in order. -/
theorem bases_tiles (cursor : Nat) (parts : List (PeerId × Nat)) :
    (bases cursor parts).map Prod.fst = parts.map Prod.fst ∧
      Tiles cursor ((bases cursor parts).map fun entry => span entry.2)
        (cursor + (parts.map Prod.snd).sum) := by
  induction parts generalizing cursor with
  | nil => exact ⟨rfl, .nil cursor⟩
  | cons part parts ih =>
    obtain ⟨peers, tiled⟩ := ih (cursor + part.2)
    refine ⟨congrArg (part.1 :: ·) peers, ?_⟩
    rw [List.map_cons, List.sum_cons, ← Nat.add_assoc]
    exact .cons (Nat.le_add_right _ _) tiled

section Layout

variable {mode : Overflow} {parts : List (PeerId × Nat)} {wide : List (PeerId × BatchWindow)}
variable {cursor stop overlapBps : Nat}

/-- Sizes that fill the window up to its end are laid out without overflow, if every stretched
end is a word. -/
theorem layOut_eq
    (word : stop < 2 ^ 64)
    (filled : cursor + (parts.map Prod.snd).sum = stop)
    (room : ∀ entry ∈ bases cursor parts, stretchedEnd overlapBps entry.2 < 2 ^ 64) :
    layOut mode stop overlapBps cursor parts =
      some ((bases cursor parts).map (stretch stop overlapBps)) := by
  induction parts generalizing cursor with
  | nil => rfl
  | cons part parts ih =>
    obtain ⟨peer, size⟩ := part
    simp only [List.map_cons, List.sum_cons] at filled
    obtain ⟨first, others⟩ := List.forall_mem_cons.mp room
    simp only [stretchedEnd, Nat.add_sub_cancel_left] at first
    have laid := @ih (cursor + size) (by omega) others
    have ends := mode.add_of_lt (show cursor + size < 2 ^ 64 by omega)
    rw [layOut]
    simp only [ends, mode.add_of_lt first, laid, Option.bind_eq_bind, Option.bind_some]
    simp [bases, stretch, stretchedEnd]

/-- An overflow puts an end before the interval, so there is none if every interval is kept. -/
theorem stretchedEnd_lt_of_layOut
    (word : stop < 2 ^ 64)
    (filled : cursor + (parts.map Prod.snd).sum = stop)
    (laid : layOut mode stop overlapBps cursor parts = some wide)
    (kept : List.Forall₂ (fun base wide => base.2.stop ≤ wide.2.stop) (bases cursor parts) wide) :
    ∀ entry ∈ bases cursor parts, stretchedEnd overlapBps entry.2 < 2 ^ 64 := by
  induction parts generalizing cursor wide with
  | nil => exact fun _ member => absurd member List.not_mem_nil
  | cons part parts ih =>
    obtain ⟨peer, size⟩ := part
    simp only [List.map_cons, List.sum_cons] at filled
    have ends : cursor + size < 2 ^ 64 := by omega
    simp only [layOut, mode.add_of_lt ends, Option.bind_eq_bind, Option.bind_some] at laid
    obtain ⟨stretched, added, laid⟩ := Option.bind_eq_some_iff.mp laid
    obtain ⟨later, rest, same⟩ := Option.bind_eq_some_iff.mp laid
    cases same
    obtain ⟨contains, others⟩ := List.forall₂_cons.mp kept
    refine List.forall_mem_cons.mpr ⟨?_, ih (by omega) rest others⟩
    rw [stretchedEnd, Nat.add_sub_cancel_left]
    have above : cursor + size ≤ stretched := contains.trans (Nat.min_le_left _ _)
    exact Word.Overflow.lt_of_le_add added ends (Nat.mod_lt _ (by decide)) above

end Layout

theorem canonicalPeers_eq_insertionSort (distinct : (roster.map Prod.fst).Nodup) :
    canonicalPeers roster = roster.insertionSort fun left right => left.1 ≤ right.1 := by
  apply List.destutter_of_isChain
  apply List.Pairwise.isChain
  exact (Lists.pairwise_lt_insertionSort_key Prod.fst (List.pairwise_map.mp distinct)).imp ne_of_lt

section Assign

variable (blake3 : List Byte → Hash)
variable (seed : Seed)

/-- The assignment of distinct peers depends on their set alone. -/
theorem assignBatches_eq_of_perm (window : BatchWindow) (mode : Overflow)
    (distinct : (roster.map Prod.fst).Nodup) (rearranged : listed.Perm roster) (overlapBps : Nat) :
    assignBatches mode blake3 listed seed window overlapBps =
      assignBatches mode blake3 roster seed window overlapBps := by
  have empty : listed = [] ↔ roster = [] := by
    rw [← List.length_eq_zero_iff, rearranged.length_eq, List.length_eq_zero_iff]
  have canonical : canonicalPeers listed = canonicalPeers roster := by
    rw [canonicalPeers_eq_insertionSort distinct,
      canonicalPeers_eq_insertionSort ((rearranged.map Prod.fst).nodup_iff.mpr distinct)]
    exact Lists.insertionSort_key_eq_of_perm (List.pairwise_map.mp distinct) rearranged
  simp only [assignBatches, layoutPeers, empty, canonical]

/-- Without overlap the intervals of distinct peers tile the window, one for each peer,
and with overlap they are stretched. -/
theorem assignBatches_tiles (word : window.stop < 2 ^ 64) (distinct : (roster.map Prod.fst).Nodup)
    (nonempty : roster ≠ []) (wide : window.start < window.stop) :
    ∃ laid : List (PeerId × BatchWindow),
      (∀ mode, assignBatches mode blake3 roster seed window 0 = some laid) ∧
      (laid.map Prod.fst).Perm (roster.map Prod.fst) ∧
      Tiles window.start (laid.map fun entry => span entry.2) window.stop ∧
      ∀ mode overlapBps,
        ((∀ entry ∈ laid, stretchedEnd overlapBps entry.2 < 2 ^ 64) →
          assignBatches mode blake3 roster seed window overlapBps =
            some (laid.map (stretch window.stop overlapBps))) ∧
        ∀ wide, assignBatches mode blake3 roster seed window overlapBps = some wide →
          List.Forall₂ (fun base wide => base.2.stop ≤ wide.2.stop) laid wide →
          ∀ entry ∈ laid, stretchedEnd overlapBps entry.2 < 2 ^ 64 := by
  have peersPerm : (layoutPeers blake3 roster seed).Perm roster :=
    (deterministicShuffle_perm _ _).trans
      (canonicalPeers_eq_insertionSort distinct ▸ List.perm_insertionSort _ _)
  generalize peersDef : layoutPeers blake3 roster seed = peers at peersPerm
  have peersNonempty : peers ≠ [] := by
    rintro rfl
    exact nonempty peersPerm.nil_eq.symm
  have positive : 0 < (peers.map fun peer => classWeight peer.2).sum := by
    obtain ⟨peer, member⟩ := List.exists_mem_of_ne_nil _ peersNonempty
    have weight := classWeight_pos peer.2
    have included := List.le_sum_of_mem
      (List.mem_map_of_mem (f := fun peer => classWeight peer.2) member)
    omega
  have lengths : (peers.map Prod.fst).length =
      (apportion (window.stop - window.start)
        (peers.map fun peer => classWeight peer.2)).length := by
    simp
  have filled : window.start + (((peers.map Prod.fst).zip
      (apportion (window.stop - window.start)
        (peers.map fun peer => classWeight peer.2))).map Prod.snd).sum =
        window.stop := by
    rw [List.map_snd_zip lengths.ge, sum_apportion _ positive]
    omega
  obtain ⟨laidPeers, tiled⟩ := bases_tiles window.start _
  rw [filled] at tiled
  have guard : ¬(roster = [] ∨ window.stop - window.start = 0) := not_or.mpr ⟨nonempty, by omega⟩
  have below (entry) (member : entry ∈ bases window.start _) : entry.2.stop ≤ window.stop :=
    (tiled.bounds_of_mem (List.mem_map_of_mem member)).2.2
  have unstretched (base : BatchWindow) : stretchedEnd 0 base = base.stop := by
    rw [stretchedEnd, Nat.mul_zero, Nat.zero_div, Nat.zero_mod, Nat.add_zero]
  refine ⟨_, fun mode => ?_, ?_, tiled, fun mode overlapBps => ?_⟩
  · rw [assignBatches, if_neg guard, peersDef, layOut_eq word filled, List.map_congr_left,
      List.map_id']
    · intro entry member
      rw [stretch, unstretched, Nat.min_eq_left (below entry member)]
    · intro entry member
      rw [unstretched]
      exact (below entry member).trans_lt word
  · rw [laidPeers, List.map_fst_zip lengths.le]
    exact peersPerm.map Prod.fst
  · simp only [assignBatches, if_neg guard, peersDef]
    exact ⟨layOut_eq word filled, fun wide => stretchedEnd_lt_of_layOut word filled⟩

/-- Without overlap the intervals partition the window, in order and whoever lists the
roster. Each interval is stretched within the window, so that together they are still all of it,
exactly when the stretched end of each is a word. -/
theorem assignBatches_partition_iff (window : BatchWindow) (word : window.stop < 2 ^ 64)
    (distinct : (roster.map Prod.fst).Nodup) (nonempty : roster ≠ []) :
    (∀ listed, listed.Perm roster → ∀ mode overlapBps,
      assignBatches mode blake3 listed seed window overlapBps =
        assignBatches mode blake3 roster seed window overlapBps) ∧
    ∃ assigned,
      (∀ mode, assignBatches mode blake3 roster seed window 0 = some assigned) ∧
      Tiles window.start (assigned.map fun entry => span entry.2)
        (max window.start window.stop) ∧
      (window.start < window.stop → (assigned.map Prod.fst).Perm (roster.map Prod.fst)) ∧
      ∀ mode overlapBps,
        (∃ stretched,
          assignBatches mode blake3 roster seed window overlapBps = some stretched ∧
          List.Forall₂ (fun base wide => wide.1 = base.1 ∧ wide.2.start = base.2.start ∧
            window.start ≤ wide.2.start ∧ base.2.stop ≤ wide.2.stop ∧
            wide.2.stop ≤ window.stop) assigned stretched ∧
          ∀ batch, (∃ entry ∈ stretched, entry.2.start ≤ batch ∧ batch < entry.2.stop) ↔
            window.start ≤ batch ∧ batch < window.stop) ↔
        ∀ entry ∈ assigned, stretchedEnd overlapBps entry.2 < 2 ^ 64 := by
  refine ⟨fun listed rearranged mode overlapBps =>
    assignBatches_eq_of_perm blake3 seed window mode distinct rearranged overlapBps, ?_⟩
  by_cases wide : window.start < window.stop
  swap
  · have empty (mode : Overflow) (overlapBps : Nat) :
        assignBatches mode blake3 roster seed window overlapBps = some [] :=
      if_pos (.inr (by omega))
    refine ⟨[], fun mode => empty mode 0, ?_, fun wider => absurd wider wide, ?_⟩
    · rw [Nat.max_eq_left (by omega)]
      exact .nil _
    · intro mode overlapBps
      refine iff_of_true ⟨[], empty mode overlapBps, .nil, fun batch => ?_⟩
        fun _ member => absurd member List.not_mem_nil
      simp only [List.not_mem_nil, false_and, exists_false, false_iff]
      omega
  obtain ⟨laid, based, peers, tiled, returned⟩ :=
    assignBatches_tiles blake3 seed word distinct nonempty wide
  have bounds : ∀ entry ∈ laid, window.start ≤ entry.2.start ∧ _ ∧ entry.2.stop ≤ window.stop :=
    fun entry member => tiled.bounds_of_mem (List.mem_map_of_mem member)
  refine ⟨laid, based, ?_, fun _ => peers, fun mode overlapBps =>
    ⟨?_, fun room => ⟨_, (returned mode overlapBps).1 room, ?_, fun batch => ?_⟩⟩⟩
  · rwa [Nat.max_eq_right wide.le]
  · rintro ⟨stretched, assigned, kept, _⟩
    exact (returned mode overlapBps).2 stretched assigned
      (kept.imp fun _ _ contains => contains.2.2.2.1)
  · rw [List.forall₂_map_right_iff, List.forall₂_same]
    intro entry member
    obtain ⟨above, -, below⟩ := bounds entry member
    exact ⟨rfl, rfl, above, le_min (Nat.le_add_right _ _) below, Nat.min_le_right _ _⟩
  · constructor
    · rintro ⟨_, stretched, low, high⟩
      obtain ⟨entry, member, rfl⟩ := List.mem_map.mp stretched
      exact ⟨(bounds entry member).1.trans low, high.trans_le (Nat.min_le_right _ _)⟩
    · intro inside
      have listed : batch ∈ List.range' window.start (window.stop - window.start) := by
        rw [List.mem_range'_1]
        omega
      rw [← tiled.flatMap_indices, List.flatMap_map, List.mem_flatMap] at listed
      obtain ⟨entry, member, found⟩ := listed
      simp only [Parts.indices, span, List.mem_range'_1] at found
      have grown : entry.2.stop ≤ stretchedEnd overlapBps entry.2 := Nat.le_add_right _ _
      exact ⟨_, List.mem_map_of_mem member, found.1, lt_min (by omega) inside.2⟩

end Assign

/-- Two peers train the last two batches but one, with half of each again. -/
theorem assignBatches_partition_two :
    ∃ stretched, assignBatches .trap (fun _ => Bytes.fill 32 0)
        [(Bytes.fill 32 1, .c1), (Bytes.fill 32 2, .c1)] (Bytes.fill 32 0)
        ⟨2 ^ 64 - 3, 2 ^ 64 - 1⟩ 5000 = some stretched ∧
      ∀ batch, (∃ entry ∈ stretched, entry.2.start ≤ batch ∧ batch < entry.2.stop) ↔
        2 ^ 64 - 3 ≤ batch ∧ batch < 2 ^ 64 - 1 := by
  obtain ⟨_, assigned, based, _, _, stretches⟩ := @assignBatches_partition_iff
    (fun _ => Bytes.fill 32 0) (Bytes.fill 32 0)
    [(Bytes.fill 32 1, .c1), (Bytes.fill 32 2, .c1)] ⟨2 ^ 64 - 3, 2 ^ 64 - 1⟩
    (by decide) (by decide) (by decide)
  have laid : assignBatches .trap (fun _ => Bytes.fill 32 0)
      [(Bytes.fill 32 1, .c1), (Bytes.fill 32 2, .c1)] (Bytes.fill 32 0)
      ⟨2 ^ 64 - 3, 2 ^ 64 - 1⟩ 0 = some [(Bytes.fill 32 1, ⟨2 ^ 64 - 3, 2 ^ 64 - 2⟩),
        (Bytes.fill 32 2, ⟨2 ^ 64 - 2, 2 ^ 64 - 1⟩)] := by
    decide +kernel
  cases (based .trap).symm.trans laid
  obtain ⟨stretched, returned, _, whole⟩ := (stretches .trap 5000).mpr (by decide +kernel)
  exact ⟨stretched, returned, whole⟩

/-- At the end of the words a checked build panics over the overlap, and an unchecked one
returns an interval that ends before it begins. -/
theorem stretched_window_wraps :
    assignBatches .trap (fun _ => Bytes.fill 32 0) [(Bytes.fill 32 1, .c1)] (Bytes.fill 32 0)
        ⟨2 ^ 64 - 3, 2 ^ 64 - 1⟩ 10000 = none ∧
      assignBatches .wrap (fun _ => Bytes.fill 32 0) [(Bytes.fill 32 1, .c1)] (Bytes.fill 32 0)
        ⟨2 ^ 64 - 3, 2 ^ 64 - 1⟩ 10000 = some [(Bytes.fill 32 1, ⟨2 ^ 64 - 3, 1⟩)] := by
  decide +kernel

end DaemonNode.Assignment
