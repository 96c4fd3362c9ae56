import DaemonNode.Coordinator.History
import Mathlib.Algebra.BigOperators.Intervals

/-!
# The data and seed chain

The cursor and the seed move on when a round is frozen, and openings use them
on four different paths. Without overflow both are functions of the round
number alone.
-/

namespace DaemonNode.Coordinator

open Machine
open Assignment (globalBatchAt)
open Word (Overflow)
open Ledger (Opens Freezes)

def seedAt (prims : Primitives) (seed : Seed) : Nat → Seed
  | 0 => seed
  | round + 1 => nextSeed prims (seedAt prims seed round) round

/-- The first batch of a round: the batches of the rounds before it. -/
def cursorAt (config : RunConfig) (round : Nat) : Nat :=
  ∑ earlier ∈ Finset.range round, globalBatchAt config.globalBatch earlier

theorem cursorAt_succ (config : RunConfig) (round : Nat) :
    cursorAt config (round + 1) = cursorAt config round + globalBatchAt config.globalBatch round :=
  Finset.sum_range_succ _ _

/-- An opening carries its round's seed and window. -/
structure OnChain (prims : Primitives) (config : RunConfig) (seed : Seed)
    (opening : RoundOpen) : Prop where
  seed_eq : opening.seed = seedAt prims seed opening.round
  start_eq : opening.batch.start = cursorAt config opening.round
  stop_eq : opening.batch.stop = cursorAt config (opening.round + 1)

def Announces (prims : Primitives) (seed : Seed) (record : RoundRecord) : Prop :=
  record.nextSeed = seedAt prims seed (record.round + 1)

/-- What was published and what the ring keeps is on the chain. -/
structure ChainInv (prims : Primitives) (config : RunConfig) (seed : Seed)
    (outputs : List Output) (ledger : Ledger) : Prop where
  config_eq : ledger.config = config
  active : ActiveInv prims ledger
  seed_eq : ledger.seed = seedAt prims seed ledger.round
  cursor_eq : ledger.dataIndex = cursorAt config ledger.round
  /-- An open round's window stays inside its word. -/
  fits : ledger.phase.isRoundActive = true → ledger.dataIndex + ledger.batchSize < 2 ^ 64
  opens : ∀ opening ∈ publishedOpens outputs, OnChain prims config seed opening
  retainedOpens : ∀ index opening,
    (ledger.frames index).roundOpen = some opening → OnChain prims config seed opening
  records : ∀ record ∈ publishedRecords outputs, Announces prims seed record
  retainedRecords : ∀ index record,
    (ledger.frames index).record = some record → Announces prims seed record

namespace ChainInv

variable {prims : Primitives} {config : RunConfig} {seed : Seed}
variable {ledger after : Ledger} {earlier outputs : List Output}

section

variable (inv : ChainInv prims config seed earlier ledger)

include inv

/-- A change of phase, seats or staged joins keeps the chain, as long as what
is published is on it. -/
theorem of_eq (opens : ∀ opening ∈ publishedOpens outputs, OnChain prims config seed opening)
    (records : ∀ record ∈ publishedRecords outputs, Announces prims seed record)
    (active : ActiveInv prims after)
    (phase_imp : after.phase.isRoundActive = true → ledger.phase.isRoundActive = true)
    (chain_eq : after = { ledger with
      phase := after.phase, seats := after.seats, staged := after.staged }) :
    ChainInv prims config seed (earlier ++ outputs) after where
  config_eq := by rw [chain_eq]; exact inv.config_eq
  active := active
  seed_eq := by rw [chain_eq]; exact inv.seed_eq
  cursor_eq := by rw [chain_eq]; exact inv.cursor_eq
  fits := by
    intro isActive
    have fits := inv.fits (phase_imp isActive)
    rw [chain_eq]
    exact fits
  opens := by
    rw [publishedOpens_append]
    exact List.forall_mem_append.mpr ⟨inv.opens, opens⟩
  retainedOpens := by rw [chain_eq]; exact inv.retainedOpens
  records := by
    rw [publishedRecords_append]
    exact List.forall_mem_append.mpr ⟨inv.records, records⟩
  retainedRecords := by rw [chain_eq]; exact inv.retainedRecords

/-- Opening the current round publishes and retains an opening on the
chain. -/
theorem opens_round (enough : ledger.config.minPeers.toNat ≤ ledger.healthyCount)
    (opened : Opens .trap prims ledger opening after) :
    ChainInv prims config seed
      (earlier ++ [.note (.phaseChanged old .roundTrain),
        .publish (.roundOpen opening)]) after := by
  obtain ⟨fits, stop_eq⟩ := Overflow.trap_add_eq_some_iff.mp opened.stop_eq
  have after_eq := opened.after_eq
  have onChain : OnChain prims config seed opening := by
    constructor
    · rw [opened.seed_eq, opened.round_eq]
      exact inv.seed_eq
    · rw [opened.start_eq, opened.round_eq]
      exact inv.cursor_eq
    · rw [stop_eq, opened.round_eq, cursorAt_succ, inv.cursor_eq, Ledger.batchSize, inv.config_eq]
  refine
    { config_eq := by rw [after_eq]; exact inv.config_eq
      active := .of_opens enough opened
      seed_eq := by rw [after_eq]; exact inv.seed_eq
      cursor_eq := by rw [after_eq]; exact inv.cursor_eq
      fits := fun _ => by rw [after_eq]; exact fits
      opens := ?_
      retainedOpens := ?_
      records := ?_
      retainedRecords := ?_ }
  · rw [publishedOpens_append]
    exact List.forall_mem_append.mpr ⟨inv.opens, List.forall_mem_singleton.mpr onChain⟩
  · rw [after_eq]
    refine (Function.forall_update_iff _ fun _ (frame : Frame) => ∀ retained,
      frame.roundOpen = some retained → OnChain prims config seed retained).mpr
        ⟨fun retained held => ?_, fun index _ => inv.retainedOpens index⟩
    rw [← Option.some.inj held]
    exact onChain
  · rw [publishedRecords_append]
    exact List.forall_mem_append.mpr ⟨inv.records, List.forall_mem_nil _⟩
  · rw [after_eq]
    exact (Function.forall_update_iff _ fun _ (frame : Frame) => ∀ retained,
      frame.record = some retained → Announces prims seed retained).mpr
        ⟨nofun, fun index _ => inv.retainedRecords index⟩

/-- Freezing the current round moves cursor and seed one round on. -/
theorem freezes (silent : Silent drops) (freezing : Freezes .trap prims ledger record after) :
    ChainInv prims config seed
      (earlier ++ (drops ++ [.publish (.roundRecord record)]))
      { after with phase := .cooldown } := by
  obtain ⟨_, next_eq⟩ := Overflow.trap_add_eq_some_iff.mp freezing.nextRound_eq
  have isActive : ledger.phase.isRoundActive = true := by
    rw [freezing.phase_eq]
    rfl
  have after_eq := freezing.after_eq
  have announces : Announces prims seed record := by
    rw [Announces, freezing.nextSeed_eq, (inv.active isActive).seed_eq,
      inv.seed_eq, freezing.round_eq]
    rfl
  refine
    { config_eq := by rw [after_eq]; exact inv.config_eq
      active := nofun
      seed_eq := ?_
      cursor_eq := ?_
      fits := nofun
      opens := ?_
      retainedOpens := ?_
      records := ?_
      retainedRecords := ?_ }
  · have seed_eq : after.seed = record.nextSeed := by rw [after_eq]
    dsimp only
    rw [seed_eq, next_eq, ← freezing.round_eq]
    exact announces
  · have cursor_eq : after.dataIndex = Word.saturatingAdd 64 ledger.dataIndex
        ledger.batchSize := by rw [after_eq]
    dsimp only
    rw [cursor_eq, Word.saturatingAdd, Nat.min_eq_left (Nat.le_sub_one_of_lt (inv.fits isActive)),
      next_eq, cursorAt_succ, inv.cursor_eq, Ledger.batchSize, inv.config_eq]
  · rw [publishedOpens_append, publishedOpens_append, silent.publishedOpens_eq]
    exact List.forall_mem_append.mpr ⟨inv.opens, List.forall_mem_nil _⟩
  · rw [after_eq]
    exact (Function.forall_update_iff _ fun _ (frame : Frame) => ∀ retained,
      frame.roundOpen = some retained → OnChain prims config seed retained).mpr
        ⟨inv.retainedOpens (RoundRing.indexOf ledger.round), fun index _ => inv.retainedOpens index⟩
  · rw [publishedRecords_append, publishedRecords_append, silent.publishedRecords_eq]
    exact List.forall_mem_append.mpr ⟨inv.records, List.forall_mem_singleton.mpr announces⟩
  · rw [after_eq]
    refine (Function.forall_update_iff _ fun _ (frame : Frame) => ∀ retained,
      frame.record = some retained → Announces prims seed retained).mpr
        ⟨fun retained held => ?_, fun index _ => inv.retainedRecords index⟩
    rw [← Option.some.inj held]
    exact announces

/-- Every move keeps the chain. -/
theorem move (moved : Move .trap prims ledger outputs after) :
    ChainInv prims config seed (earlier ++ outputs) after := by
  have active := inv.active.move moved
  have replayedOpens : ∀ peer, ∀ opening ∈
      publishedOpens (.note (.admitted peer) :: ledger.replay),
        OnChain prims config seed opening := by
    intro peer opening member
    have standing : opening ∈ publishedOpens ledger.replay := member
    rw [publishedOpens_replay, Option.mem_toList] at standing
    unfold Ledger.standingOpen at standing
    split at standing
    · split at standing
      · exact inv.retainedOpens _ opening standing
      · cases standing
    · cases standing
  have replayedRecords : ∀ peer, ∀ record ∈
      publishedRecords (.note (.admitted peer) :: ledger.replay), Announces prims seed record := by
    intro peer record member
    have retained : record ∈ publishedRecords ledger.replay := member
    rw [publishedRecords_replay, mem_retainedRecords] at retained
    obtain ⟨index, held⟩ := retained
    exact inv.retainedRecords index record held
  cases moved with
  | silent silent | decay _ _ silent =>
    exact inv.of_eq (by simp [silent.publishedOpens_eq]) (by simp [silent.publishedRecords_eq])
      active id rfl
  | enterWarmup | floorBreach | conclude | drain | pause =>
    exact inv.of_eq (List.forall_mem_nil _) (List.forall_mem_nil _) active nofun rfl
  | toWitness training =>
    exact inv.of_eq (List.forall_mem_nil _) (List.forall_mem_nil _) active
      (fun _ => by rw [training]; rfl) rfl
  | openFirst _ enough opened => exact inv.opens_round enough opened
  | seat | stage | rejoin => exact inv.of_eq (replayedOpens _) (replayedRecords _) active id rfl

/-- Closing a round keeps the chain. -/
theorem closing (closed : Closing .trap prims ledger outputs after) :
    ChainInv prims config seed (earlier ++ outputs) after := by
  cases closed with
  | @cool record frozen drops freezing silent =>
    have froze := inv.freezes silent freezing
    have cooled : ChainInv prims config seed
        (earlier ++ (drops ++ [.publish (.roundRecord record)]) ++
          [.note (.phaseChanged .roundWitness .cooldown)])
        { frozen with phase := .cooldown } :=
      froze.of_eq (List.forall_mem_nil _) (List.forall_mem_nil _) froze.active id rfl
    simpa using cooled
  | @advance record frozen drops opening _ freezing silent _ enough opened =>
    have froze := inv.freezes silent freezing
    have reopened : Opens .trap prims { frozen with phase := .cooldown } opening after :=
      ⟨opened.round_eq, opened.seed_eq, opened.start_eq, opened.stop_eq, opened.after_eq⟩
    have advanced : ChainInv prims config seed
        (earlier ++ (drops ++ [.publish (.roundRecord record)]) ++
          [.note (.phaseChanged .roundWitness .roundTrain), .publish (.roundOpen opening)]) after :=
      froze.opens_round enough reopened
    simpa using advanced

/-- Every step keeps the chain. -/
theorem step (stepped : LedgerStep .trap prims ledger input outputs after) :
    ChainInv prims config seed (earlier ++ outputs) after := by
  have active := inv.active.step stepped
  cases stepped with
  | resume =>
    exact inv.of_eq (List.forall_mem_nil _) (List.forall_mem_nil _) active nofun rfl
  | progress progress =>
    exact progress.accumulate (ChainInv prims config seed)
      (fun _ _ _ _ => move) (fun _ _ _ _ => closing) inv

end

theorem initial : ChainInv prims config seed [] (Ledger.new config seed) where
  config_eq := rfl
  active := nofun
  seed_eq := rfl
  cursor_eq := rfl
  fits := nofun
  opens := by simp [publishedOpens]
  retainedOpens := by simp [Ledger.new, RoundState.empty, RoundState.frame]
  records := by simp [publishedRecords]
  retainedRecords := by simp [Ledger.new, RoundState.empty, RoundState.frame]

end ChainInv

/-- Every run without overflow keeps the chain. -/
theorem TickRun.chainInv (run : TickRun .trap prims config seed nowS trace state) :
    ChainInv prims config seed (emitted trace) state.ledger := by
  have history := (run_refines run).history
    (fun trace ledger =>
      ChainInv prims config seed (emitted trace) ledger)
    ChainInv.initial ?_
  · simpa using history
  · intro trace ledger input after outputs _ inv stepped
    rw [emitted_append, emitted_singleton]
    exact inv.step stepped

/-- Along every run without overflow, every opening of a round carries the
same seed and the same window; the window of a round starts at the sum of the
batches before it and is one batch long, so that consecutive windows meet;
and a record announces the seed of every opening of the next round. -/
theorem data_and_seed_chain (run : TickRun .trap prims config seed nowS trace state) :
    (∀ opening ∈ publishedOpens (emitted trace),
      opening.batch.start = ∑ earlier ∈ Finset.range opening.round,
          globalBatchAt config.globalBatch earlier ∧
        opening.batch.stop = opening.batch.start + globalBatchAt config.globalBatch opening.round) ∧
      (∀ opening ∈ publishedOpens (emitted trace),
        ∀ again ∈ publishedOpens (emitted trace),
          again.round = opening.round → again.seed = opening.seed ∧ again.batch = opening.batch) ∧
      (∀ opening ∈ publishedOpens (emitted trace),
        ∀ following ∈ publishedOpens (emitted trace),
          following.round = opening.round + 1 → following.batch.start = opening.batch.stop) ∧
      (∀ record ∈ publishedRecords (emitted trace),
        ∀ opening ∈ publishedOpens (emitted trace),
          opening.round = record.round + 1 → record.nextSeed = opening.seed) := by
  have inv := run.chainInv
  refine ⟨?_, ?_, ?_, ?_⟩
  · intro opening published
    have onChain := inv.opens opening published
    refine ⟨onChain.start_eq, ?_⟩
    rw [onChain.stop_eq, onChain.start_eq, cursorAt_succ]
  · intro opening published again republished same
    have onChain := inv.opens opening published
    have againOnChain := inv.opens again republished
    refine ⟨?_, ?_⟩
    · rw [againOnChain.seed_eq, onChain.seed_eq, same]
    · apply BatchWindow.ext
      · rw [againOnChain.start_eq, onChain.start_eq, same]
      · rw [againOnChain.stop_eq, onChain.stop_eq, same]
  · intro opening published following laterPublished next
    rw [(inv.opens following laterPublished).start_eq, (inv.opens opening published).stop_eq, next]
  · intro record published opening laterPublished next
    rw [inv.records record published, (inv.opens opening laterPublished).seed_eq, next]

/-- The openings of a run that opens round zero, round one, and round one
again after a pause. -/
theorem data_and_seed_chain_sample :
    ∃ trace state,
      TickRun .trap samplePrimitives sampleConfig (Bytes.fill 32 7) 0 trace state ∧
        (publishedOpens (emitted trace)).map RoundOpen.round = [0, 1, 1, 1] ∧
        ∀ opening ∈ publishedOpens (emitted trace),
          opening.batch.start = ∑ earlier ∈ Finset.range opening.round,
            globalBatchAt sampleConfig.globalBatch earlier := by
  obtain ⟨trace, state, run, opened⟩ := sampleRun_of_checked sampleConfig reopenSample
    (fun trace _ => (publishedOpens (emitted trace)).map RoundOpen.round = [0, 1, 1, 1])
    (by decide +kernel)
  refine ⟨trace, state, run, opened, ?_⟩
  intro opening published
  exact ((data_and_seed_chain run).1 opening published).1

end DaemonNode.Coordinator
