import DaemonNode.Consensus.Batches

/-!
# Training slices

A peer trains the interval it is assigned, cut into equal inner steps and each
step into micro-windows. Every peer computes its own interval alone, from its
own listing of the roster.

The loop adds the micro-batch to its cursor before it clamps to the end of the
step, so a window has to end with room for one micro-batch in a 64-bit word.
-/

namespace DaemonNode.Rounds

open Bytes (fill)
open Assignment (assignBatches)
open Parts (Tiles)
open Word (Overflow)

/-- A half-open interval of batches trained in one call. -/
structure MicroWindow where
  /-- First batch, inclusive. -/
  start : Nat
  /-- Last batch, exclusive. -/
  stop : Nat
  deriving DecidableEq, Repr

/-- One inner step's micro-windows. -/
structure InnerStep where
  index : Nat
  micro : List MicroWindow
  deriving DecidableEq, Repr, Inhabited

/-- The peer's assigned interval: empty, at the start of the window, for a peer
without an assignment. -/
def intervalFor (mode : Overflow) (blake3 : List Byte → Hash)
    (window : BatchWindow) (seed : Seed) (roster : List PeerId) (peer : PeerId) :
    Option MicroWindow := do
  let weighted := roster.map fun member => (member, ThroughputClass.c1)
  let assigned ← assignBatches mode blake3 weighted seed window 0
  match assigned.find? fun entry => entry.1 = peer with
  | some (_, interval) => some ⟨interval.start, interval.stop⟩
  | none => some ⟨window.start, window.start⟩

/-- The loop that cuts one inner step from `cursor` up to `stop`. It has no
value when the sum traps, and when it has not returned after the given number
of iterations. -/
def microWindows (mode : Overflow) (microBatch stop : Nat) :
    Nat → Nat → Option (List MicroWindow)
  | 0, _ => none
  | iterations + 1, cursor =>
    if cursor < stop then do
      let ahead ← mode.add 64 cursor microBatch
      let rest ← microWindows mode microBatch stop iterations (min ahead stop)
      some (⟨cursor, min ahead stop⟩ :: rest)
    else some []

/-- The inner step of a given index. Its loop runs on one 64-bit cursor, so it
returns within `2 ^ 64` iterations or not at all. -/
def sliceStep (mode : Overflow) (start perStep microBatch index : Nat) :
    Option InnerStep := do
  -- both bounds stay below the end of the interval, where sums are exact
  let stepStart := start + index * perStep
  let stepEnd := stepStart + perStep
  let micro ← microWindows mode microBatch stepEnd (2 ^ 64) stepStart
  some ⟨index, micro⟩

/-- Cut an interval into `stepsPerRound` equal inner steps of micro-windows. An
empty or indivisible interval yields no steps. -/
def sliceInterval (mode : Overflow) (interval : MicroWindow)
    (stepsPerRound microBatch : Nat) : Option (List InnerStep) :=
  let len := interval.stop - interval.start
  if len = 0 ∨ stepsPerRound = 0 ∨ microBatch = 0 then some []
  else if ¬stepsPerRound ∣ len then some []
  else
    let perStep := len / stepsPerRound
    (List.range stepsPerRound).mapM (sliceStep mode interval.start perStep microBatch)

def trainingSteps (mode : Overflow) (blake3 : List Byte → Hash)
    (window : BatchWindow) (seed : Seed) (roster : List PeerId) (peer : PeerId)
    (stepsPerRound microBatch : Nat) : Option (List InnerStep) := do
  let interval ← intervalFor mode blake3 window seed roster peer
  sliceInterval mode interval stepsPerRound microBatch

def MicroWindow.span (window : MicroWindow) : Nat × Nat :=
  (window.start, window.stop)

def MicroWindow.batches (window : MicroWindow) : List Nat :=
  List.range' window.start (window.stop - window.start)

/-- All micro-windows of a peer's inner steps, in training order. -/
def microOf (steps : List InnerStep) : List MicroWindow :=
  steps.flatMap InnerStep.micro

open MicroWindow (span batches)

/-- Without overflow the micro-windows tile the step; each is non-empty and not
longer than a micro-batch. -/
theorem microWindows_tiles (batching : 0 < microBatch) {windows : List MicroWindow}
    (ordered : cursor ≤ stop)
    (cut : microWindows .trap microBatch stop iterations cursor = some windows) :
    Tiles cursor (windows.map span) stop ∧
      ∀ window ∈ windows, window.start < window.stop ∧ window.stop - window.start ≤ microBatch := by
  induction iterations generalizing cursor windows with
  | zero => simp [microWindows] at cut
  | succ iterations ih =>
    rw [microWindows] at cut
    split at cut
    · rename_i inside
      obtain ⟨ahead, added, cut⟩ := Option.bind_eq_some_iff.mp cut
      obtain ⟨rest, restCut, built⟩ := Option.bind_eq_some_iff.mp cut
      obtain ⟨_, rfl⟩ := Overflow.trap_add_eq_some_iff.mp added
      cases built
      obtain ⟨tiled, bounded⟩ := ih (Nat.min_le_right _ _) restCut
      constructor
      · rw [List.map_cons]
        have ahead : cursor ≤ min (cursor + microBatch) stop := by omega
        exact .cons ahead tiled
      · intro window member
        rcases List.mem_cons.mp member with rfl | member
        · refine ⟨?_, ?_⟩ <;> dsimp only <;> omega
        · exact bounded window member
    · rename_i outside
      cases cut
      obtain rfl : cursor = stop := by omega
      exact ⟨.nil cursor, fun window member => absurd member List.not_mem_nil⟩

/-- Below the last micro-batch of the word the loop returns, in every build. -/
theorem microWindows_returns (batching : 0 < microBatch) (room : stop + microBatch ≤ 2 ^ 64)
    (enough : stop - cursor < iterations) :
    ∃ windows, ∀ mode, microWindows mode microBatch stop iterations cursor = some windows := by
  induction iterations generalizing cursor with
  | zero => simp at enough
  | succ iterations ih =>
    by_cases inside : cursor < stop
    · obtain ⟨rest, returned⟩ :=
        @ih (min (cursor + microBatch) stop) (by omega)
      refine ⟨⟨cursor, min (cursor + microBatch) stop⟩ :: rest, fun mode => ?_⟩
      have added := mode.add_of_lt (show cursor + microBatch < 2 ^ 64 by omega)
      simp only [microWindows, if_pos inside, added, returned mode,
        Option.bind_eq_bind, Option.bind_some]
    · exact ⟨[], fun mode => by rw [microWindows, if_neg inside]⟩

theorem sliceStep_tiles (batching : 0 < microBatch) {start perStep index : Nat} {step : InnerStep}
    (sliced : sliceStep .trap start perStep microBatch index = some step) :
    Tiles (start + index * perStep) (step.micro.map span) (start + index * perStep + perStep) ∧
      ∀ window ∈ step.micro, window.start < window.stop ∧
        window.stop - window.start ≤ microBatch := by
  obtain ⟨micro, cut, built⟩ := Option.bind_eq_some_iff.mp sliced
  cases built
  exact microWindows_tiles batching (Nat.le_add_right _ _) cut

/-- Equal steps tile a divisible interval. -/
theorem steps_tile (count : Nat) :
    Tiles start ((List.range count).map fun index =>
      (start + index * perStep, start + index * perStep + perStep))
      (start + count * perStep) := by
  induction count with
  | zero => simpa using Tiles.nil start
  | succ count ih =>
    rw [List.range_succ, List.map_append, List.map_singleton]
    apply ih.append
    rw [Nat.succ_mul, ← Nat.add_assoc]
    exact .single (Nat.le_add_right _ _)

theorem start_add_steps (divisible : steps ∣ stop - start) (nonempty : stop - start ≠ 0) :
    start + steps * ((stop - start) / steps) = stop := by
  rw [Nat.mul_div_cancel' divisible]
  omega

/-- Slicing a divisible interval without overflow tiles it by micro-windows. -/
theorem sliceInterval_tiles (ordered : interval.start ≤ interval.stop)
    (stepping : 0 < stepsPerRound) (batching : 0 < microBatch)
    (divisible : stepsPerRound ∣ interval.stop - interval.start)
    (sliced : sliceInterval .trap interval stepsPerRound microBatch = some steps) :
    Tiles interval.start ((microOf steps).map span) interval.stop ∧
      ∀ window ∈ microOf steps, window.start < window.stop ∧
        window.stop - window.start ≤ microBatch := by
  simp only [sliceInterval] at sliced
  by_cases empty : interval.stop - interval.start = 0
  · rw [if_pos (.inl empty)] at sliced
    cases sliced
    have closed : interval.start = interval.stop := by omega
    refine ⟨?_, fun window member => absurd member List.not_mem_nil⟩
    rw [← closed]
    exact .nil _
  · have cutting : ¬(interval.stop - interval.start = 0 ∨
        stepsPerRound = 0 ∨ microBatch = 0) := by omega
    rw [if_neg cutting, if_neg (not_not_intro divisible)] at sliced
    have whole := start_add_steps divisible empty
    generalize (interval.stop - interval.start) / stepsPerRound = perStep at sliced whole
    constructor
    · have finer : List.Forall₂ (fun piece cut => Tiles piece.1 cut piece.2)
          ((List.range stepsPerRound).map fun index =>
            (interval.start + index * perStep, interval.start + index * perStep + perStep))
          (steps.map fun step => step.micro.map span) := by
        rw [List.forall₂_map_left_iff, List.forall₂_map_right_iff]
        refine (Lists.mapM_eq_some_iff_forall₂.mp sliced).imp ?_
        intro index step built
        exact (sliceStep_tiles batching built).1
      have tiled := (steps_tile stepsPerRound).refine finer
      rw [whole] at tiled
      rwa [microOf, List.map_flatMap, List.flatMap_def]
    · intro window member
      obtain ⟨step, inside, held⟩ := List.mem_flatMap.mp member
      obtain ⟨index, _, built⟩ := Lists.exists_of_mem_forall₂
        (Lists.mapM_eq_some_iff_forall₂.mp sliced) inside
      exact (sliceStep_tiles batching built).2 window held

/-- Slicing returns in every build when the interval leaves room for one
micro-batch below the end of the word. -/
theorem sliceInterval_returns (stepsPerRound : Nat)
    (room : interval.start < interval.stop → interval.stop + microBatch ≤ 2 ^ 64) :
    ∃ steps, ∀ mode, sliceInterval mode interval stepsPerRound microBatch = some steps := by
  by_cases idle : interval.stop - interval.start = 0 ∨ stepsPerRound = 0 ∨ microBatch = 0
  · exact ⟨[], fun mode => by simp only [sliceInterval, if_pos idle]⟩
  · by_cases divisible : stepsPerRound ∣ interval.stop - interval.start
    · have positive : 0 < microBatch := by omega
      have fits := room (by omega)
      have whole := start_add_steps divisible (not_or.mp idle).1
      have each : ∀ index ∈ List.range stepsPerRound, ∃ step, ∀ mode,
          sliceStep mode interval.start
            ((interval.stop - interval.start) / stepsPerRound) microBatch index = some step := by
        generalize (interval.stop - interval.start) / stepsPerRound = perStep at whole
        intro index member
        have last : (index + 1) * perStep ≤ stepsPerRound * perStep :=
          Nat.mul_le_mul_right _ (List.mem_range.mp member)
        rw [Nat.succ_mul] at last
        have room : interval.start + index * perStep + perStep + microBatch ≤ 2 ^ 64 := by
          omega
        have enough : interval.start + index * perStep + perStep -
            (interval.start + index * perStep) < 2 ^ 64 := by
          omega
        obtain ⟨micro, returned⟩ := microWindows_returns positive room enough
        refine ⟨⟨index, micro⟩, fun mode => ?_⟩
        simp only [sliceStep, returned mode, Option.bind_eq_bind, Option.bind_some]
      choose! step sliced using each
      refine ⟨(List.range stepsPerRound).map step, fun mode => ?_⟩
      simp only [sliceInterval, if_neg idle, if_neg (not_not_intro divisible)]
      exact Lists.mapM_eq_some_map fun index member => sliced index member mode
    · exact ⟨[], fun mode => by
        simp only [sliceInterval, if_neg idle, if_pos divisible]⟩

/-- A round's window as a list of intervals by peer, such that each peer of the
roster computes its own from any listing of the roster. -/
structure Layout (blake3 : List Byte → Hash) (window : BatchWindow) (seed : Seed)
    (roster : List PeerId) (assigned : List (PeerId × MicroWindow)) : Prop where
  /-- There is one interval for each peer. -/
  peers : (assigned.map Prod.fst).Perm roster
  /-- The intervals tile the window. -/
  tiled : Tiles window.start (assigned.map fun entry => entry.2.span) (max window.start window.stop)
  /-- Each peer computes its interval. -/
  computed : ∀ mode listed, listed.Perm roster → ∀ entry ∈ assigned,
    intervalFor mode blake3 window seed listed entry.1 = some entry.2

/-- A nonempty roster without repetitions has a layout. -/
theorem exists_layout (blake3 : List Byte → Hash) (word : window.stop < 2 ^ 64) (seed : Seed)
    (distinct : roster.Nodup) (nonempty : roster ≠ []) :
    ∃ assigned, Layout blake3 window seed roster assigned := by
  have keys (listed : List PeerId) :
      (listed.map fun member => (member, ThroughputClass.c1)).map Prod.fst = listed := by
    rw [List.map_map]
    exact List.map_id _
  have distinctKeys :
      ((roster.map fun member => (member, ThroughputClass.c1)).map Prod.fst).Nodup := by
    rwa [keys]
  by_cases wide : window.start < window.stop
  · obtain ⟨assigned, returned, peers, tiled, _⟩ := Assignment.assignBatches_tiles blake3 seed
      word distinctKeys (by simpa using nonempty) wide
    rw [keys] at peers
    refine ⟨assigned.map fun entry => (entry.1, ⟨entry.2.start, entry.2.stop⟩), ?_, ?_, ?_⟩
    · rwa [List.map_map]
    · rw [List.map_map, Nat.max_eq_right wide.le]
      exact tiled
    · intro mode listed rearranged entry member
      obtain ⟨source, inside, rfl⟩ := List.mem_map.mp member
      have same := Assignment.assignBatches_eq_of_perm blake3 seed window mode distinctKeys
        (rearranged.map fun member => (member, ThroughputClass.c1)) 0
      have found := Lists.find?_key_eq_some (peers.nodup_iff.mpr distinct) inside
      simp only [intervalFor, same, returned mode, found, Option.bind_eq_bind, Option.bind_some]
  · refine ⟨roster.map fun peer => (peer, ⟨window.start, window.start⟩), ?_, ?_, ?_⟩
    · rw [List.map_map]
      exact List.Perm.of_eq (List.map_id _)
    · rw [Nat.max_eq_left (by omega)]
      clear nonempty distinct distinctKeys
      induction roster with
      | nil => exact .nil _
      | cons peer roster ih =>
        rw [List.map_cons, List.map_cons]
        exact .cons le_rfl ih
    · intro mode listed _ entry member
      obtain ⟨peer, _, rfl⟩ := List.mem_map.mp member
      have empty : window.stop - window.start = 0 := by omega
      simp [intervalFor, assignBatches, empty]

section

variable (layout : Layout blake3 window seed roster assigned)

include layout

/-- What a peer trains is its interval of the layout, sliced. -/
theorem Layout.trainingSteps_eq (mode : Overflow) (rearranged : listed.Perm roster)
    (member : entry ∈ assigned) :
    trainingSteps mode blake3 window seed listed entry.1 stepsPerRound microBatch =
      sliceInterval mode entry.2 stepsPerRound microBatch := by
  simp only [trainingSteps, layout.computed mode listed rearranged entry member,
    Option.bind_eq_bind, Option.bind_some]

theorem Layout.exists_entry (member : peer ∈ roster) : ∃ entry ∈ assigned, entry.1 = peer :=
  List.mem_map.mp (layout.peers.mem_iff.mpr member)

/-- A peer's training steps are returned in every build, when the window leaves
room for one micro-batch below the end of the word. -/
theorem Layout.trainingSteps_returns (room : window.stop + microBatch ≤ 2 ^ 64)
    (rearranged : listed.Perm roster) (member : peer ∈ roster) :
    ∃ steps, ∀ mode,
      trainingSteps mode blake3 window seed listed peer stepsPerRound microBatch = some steps := by
  obtain ⟨entry, inside, rfl⟩ := layout.exists_entry member
  have bounds := layout.tiled.bounds_of_mem (List.mem_map_of_mem inside)
  have fits : entry.2.start < entry.2.stop → entry.2.stop + microBatch ≤ 2 ^ 64 := by
    intro wide
    simp only [span] at bounds
    omega
  obtain ⟨steps, returned⟩ := sliceInterval_returns stepsPerRound fits
  refine ⟨steps, fun mode => ?_⟩
  rw [layout.trainingSteps_eq mode rearranged inside, returned mode]

end

/-- Every batch is trained exactly once. A window that leaves room for one
micro-batch is sliced by every peer in every build. And whatever the peers of a
nonempty roster without repetitions slice without overflow, each from its own
listing of the roster, the batches of all their micro-windows are those of the
round's window, each once. Every micro-window is non-empty and at most one
micro-batch long, and a peer's follow each other without a gap. -/
theorem batches_trained_exactly_once (blake3 : List Byte → Hash) (window : BatchWindow)
    (seed : Seed) (roster : List PeerId) (listing : PeerId → List PeerId)
    (stepsPerRound microBatch : Nat) (word : window.stop < 2 ^ 64) (distinct : roster.Nodup)
    (nonempty : roster ≠ []) (listed : ∀ peer ∈ roster, (listing peer).Perm roster)
    (stepping : 0 < stepsPerRound) (batching : 0 < microBatch)
    (divisible : ∀ peer ∈ roster, ∀ interval,
      intervalFor .trap blake3 window seed (listing peer) peer = some interval →
        stepsPerRound ∣ interval.stop - interval.start) :
    (window.stop + microBatch ≤ 2 ^ 64 →
      ∀ peer ∈ roster, ∃ steps, ∀ mode,
        trainingSteps mode blake3 window seed (listing peer) peer
          stepsPerRound microBatch = some steps) ∧
    ∀ trained : PeerId → List InnerStep,
      (∀ peer ∈ roster,
        trainingSteps .trap blake3 window seed (listing peer) peer
          stepsPerRound microBatch = some (trained peer)) →
      (roster.flatMap fun peer =>
        (microOf (trained peer)).flatMap batches).Perm
          (List.range' window.start (window.stop - window.start)) ∧
      ∀ peer ∈ roster,
        (∀ micro ∈ microOf (trained peer),
          micro.start < micro.stop ∧ micro.stop - micro.start ≤ microBatch) ∧
        (microOf (trained peer)).IsChain fun earlier later => earlier.stop = later.start := by
  obtain ⟨assigned, layout⟩ := exists_layout blake3 word seed distinct nonempty
  refine ⟨fun room peer member =>
    layout.trainingSteps_returns room (listed peer member) member, ?_⟩
  intro trained computed
  have tiled : ∀ entry ∈ assigned,
      Tiles entry.2.start ((microOf (trained entry.1)).map span) entry.2.stop ∧
        ∀ micro ∈ microOf (trained entry.1), micro.start < micro.stop ∧
          micro.stop - micro.start ≤ microBatch := by
    intro entry inside
    have member : entry.1 ∈ roster := layout.peers.mem_iff.mp (List.mem_map_of_mem inside)
    have rearranged := listed entry.1 member
    have steps := computed entry.1 member
    rw [layout.trainingSteps_eq .trap rearranged inside] at steps
    have bounds := layout.tiled.bounds_of_mem (List.mem_map_of_mem inside)
    exact sliceInterval_tiles bounds.2.1 stepping batching
      (divisible entry.1 member entry.2 (layout.computed .trap _ rearranged entry inside)) steps
  constructor
  · have whole : assigned.flatMap (fun entry =>
        (microOf (trained entry.1)).flatMap batches) =
          List.range' window.start (window.stop - window.start) := by
      calc
        assigned.flatMap (fun entry =>
            (microOf (trained entry.1)).flatMap batches)
            = assigned.flatMap fun entry => Parts.indices entry.2.span := by
          apply List.flatMap_congr
          intro entry inside
          refine Eq.trans ?_ (tiled entry inside).1.flatMap_indices
          rw [List.flatMap_map]
          rfl
        _ = (assigned.map fun entry => entry.2.span).flatMap Parts.indices := by
          rw [List.flatMap_map]
        _ = List.range' window.start (max window.start window.stop - window.start) :=
          layout.tiled.flatMap_indices
        _ = List.range' window.start (window.stop - window.start) := by
          congr 1
          omega
    rw [← whole, ← List.flatMap_map (f := Prod.fst)
      (g := fun peer => (microOf (trained peer)).flatMap batches)]
    exact layout.peers.symm.flatMap_right _
  · intro peer member
    obtain ⟨entry, inside, rfl⟩ := layout.exists_entry member
    obtain ⟨covering, bounded⟩ := tiled entry inside
    exact ⟨bounded, (List.isChain_map _).mp covering.isChain⟩

def twoPeers : List PeerId := [fill 32 1, fill 32 2]

/-- Each of the two peers lists itself first. -/
def selfFirst (peer : PeerId) : List PeerId :=
  if peer = fill 32 1 then twoPeers else twoPeers.reverse

/-- Two peers with different listings train a window of eight batches, each in
two inner steps of two micro-windows. -/
theorem eight_batches_trained_exactly_once :
    ∃ trained : PeerId → List InnerStep,
      (∀ peer ∈ twoPeers,
        trainingSteps .trap (fun _ => fill 32 0) ⟨10, 18⟩ (fill 32 0)
          (selfFirst peer) peer 2 1 = some (trained peer)) ∧
      (twoPeers.flatMap fun peer =>
        (microOf (trained peer)).flatMap batches).Perm [10, 11, 12, 13, 14, 15, 16, 17] := by
  have halves : ∀ peer ∈ twoPeers, ∀ interval ∈ intervalFor .trap (fun _ => fill 32 0) ⟨10, 18⟩
      (fill 32 0) (selfFirst peer) peer, 2 ∣ interval.stop - interval.start := by
    decide +kernel
  obtain ⟨returned, once⟩ := batches_trained_exactly_once (fun _ => fill 32 0)
    ⟨10, 18⟩ (fill 32 0) twoPeers selfFirst 2 1 (by decide) (by decide +kernel)
    (by decide) (by decide +kernel) (by decide) (by decide) halves
  choose! trained computed using returned (by decide)
  have steps : ∀ peer ∈ twoPeers,
      trainingSteps .trap (fun _ => fill 32 0) ⟨10, 18⟩ (fill 32 0)
        (selfFirst peer) peer 2 1 = some (trained peer) :=
    fun peer member => computed peer member .trap
  exact ⟨trained, steps, (once trained steps).1⟩

/-- An empty roster is assigned nothing, so a batch stays untrained; and a window
that ends within one micro-batch of the end of the word is not sliced. -/
theorem untrained_without_peers_or_room :
    (assignBatches .trap (fun _ => fill 32 0) [] (fill 32 0) ⟨0, 1⟩ 0 = some [] ∧
      ∀ trained : PeerId → List InnerStep,
        ¬(([] : List PeerId).flatMap fun peer =>
          (microOf (trained peer)).flatMap batches).Perm (List.range' 0 (1 - 0))) ∧
    intervalFor .trap (fun _ => fill 32 0) ⟨2 ^ 64 - 2, 2 ^ 64 - 1⟩
        (fill 32 0) [fill 32 1] (fill 32 1) = some ⟨2 ^ 64 - 2, 2 ^ 64 - 1⟩ ∧
      trainingSteps .trap (fun _ => fill 32 0) ⟨2 ^ 64 - 2, 2 ^ 64 - 1⟩
        (fill 32 0) [fill 32 1] (fill 32 1) 1 2 = none := by
  refine ⟨⟨by decide +kernel, fun trained trainedAll => ?_⟩, by decide +kernel, by decide +kernel⟩
  have counted := trainedAll.length_eq
  simp at counted

end DaemonNode.Rounds
