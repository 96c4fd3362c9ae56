import DaemonNode.Coordinator.Roster

/-!
# The active round

While a round is active the ring holds its slot, unfrozen, with the opening
that was flooded and the committee of the members that are healthy now.
-/

namespace DaemonNode.Coordinator

open Assignment (selectCommittee)
open Word (Overflow)
open Ledger (Opens)

structure ActiveRound (prims : Primitives) (ledger : Ledger) : Prop where
  floor : ledger.config.minPeers.toNat ≤ ledger.healthyCount
  held : ledger.currentFrame.round = ledger.round
  seed_eq : ledger.currentFrame.seed = ledger.seed
  unfrozen : ledger.currentFrame.record = none
  witnesses_eq : ledger.currentFrame.witnesses = ledger.committeeWitnesses prims
  opening : ∃ opening, ledger.currentFrame.roundOpen = some opening ∧
    opening.round = ledger.round ∧ opening.seed = ledger.seed ∧
    opening.batch.start = ledger.dataIndex

/-- Active phases have an active round. -/
def ActiveInv (prims : Primitives) (ledger : Ledger) : Prop :=
  ledger.phase.isRoundActive = true → ActiveRound prims ledger

namespace ActiveInv

/-- Opening a round with enough members establishes it. -/
theorem of_opens (enough : ledger.config.minPeers.toNat ≤ ledger.healthyCount)
    (opened : Opens mode prims ledger opening after) :
    ActiveInv prims after := by
  intro _
  have frame_eq := opened.currentFrame_eq
  have others := opened.after_eq
  constructor
  · rw [others]
    exact enough
  · rw [frame_eq, others]
  · rw [frame_eq, others]
  · rw [frame_eq]
  · rw [frame_eq, others]
    rfl
  · refine ⟨opening, by rw [frame_eq], ?_⟩
    rw [others]
    exact ⟨opened.round_eq, opened.seed_eq, opened.start_eq⟩

/-- Every move keeps it. -/
theorem move (inv : ActiveInv prims ledger) (moved : Move mode prims ledger outputs after) :
    ActiveInv prims after := by
  cases moved with
  | silent | rejoin => exact inv
  | decay waiting =>
    intro active
    simp [waiting, Phase.isRoundActive] at active
  | enterWarmup | floorBreach | conclude | drain | pause => nofun
  | openFirst _ enough opened => exact of_opens enough opened
  | toWitness training =>
    intro _
    have rests := inv (by rw [training]; rfl)
    exact { rests with }
  | seat forming =>
    intro active
    rcases forming with forming | forming <;> simp [forming, Phase.isRoundActive] at active
  | stage =>
    intro active
    exact { inv active with }

/-- Closing a round opens the next one with enough members or leaves the
active phases. -/
theorem closing (closed : Closing mode prims ledger outputs after) : ActiveInv prims after := by
  cases closed with
  | cool => nofun
  | advance _ _ _ enough opened => exact of_opens enough opened

theorem step (inv : ActiveInv prims ledger)
    (stepped : LedgerStep mode prims ledger input outputs after) :
    ActiveInv prims after := by
  cases stepped with
  | resume => nofun
  | progress progress =>
    exact progress.invariant (ActiveInv prims) (fun _ _ _ => move) (fun _ _ _ _ => closing) inv

end ActiveInv

theorem TickRun.activeInv (run : TickRun mode prims config seed nowS trace state) :
    ActiveInv prims state.ledger :=
  (run_refines run).invariant (ActiveInv prims)
    (fun active => by cases active)
    fun _ _ _ _ inv stepped => inv.step stepped

/-- A ledger that holds its round does so in the ring. -/
theorem currentSlot_of_held (held : state.ledger.currentFrame.round = state.ledger.round) :
    ∃ slot, currentSlot state = some slot ∧ slot.frame = state.ledger.currentFrame := by
  refine ⟨state.rounds.slots[RoundRing.indexOf state.round], ?_, rfl⟩
  exact RoundRing.get_eq_some_iff.mpr ⟨rfl, held⟩

/-- Finalising a stored round publishes its record and moves on. -/
theorem finalizeRound_closes (held : currentSlot state = some slot)
    (finalized : finalizeRound mode prims state = some (after, outputs)) :
    (∃ record ∈ publishedRecords outputs, record.round = state.round) ∧
      mode.add 64 state.round 1 = some after.round := by
  obtain ⟨accounted, _, nextRound, later, _, _, nextRound_eq, decided, rfl⟩ :=
    finalizeRound_eq_some held finalized
  obtain ⟨round_eq, _, _, _⟩ := decideNext_eq_some decided
  refine ⟨⟨frozenRecord prims state slot accounted, ?_, rfl⟩, ?_⟩
  · simp [publishedRecords, Output.record?]
  · rw [round_eq]
    exact nextRound_eq

/-- A phase whose duration has passed is over, even if its deadline
wrapped. -/
theorem phaseOver_of_passed (passed : state.phaseStartS + duration ≤ now)
    (decided : phaseOver mode (observeClock state now) early duration = some ended) :
    ended = true := by
  unfold phaseOver at decided
  split at decided
  · exact (Option.some.inj decided).symm
  · obtain ⟨deadline, deadline_eq, rfl⟩ := Option.map_eq_some_iff.mp decided
    exact decide_eq_true ((Overflow.add_le deadline_eq).trans (passed.trans (le_max_right _ _)))

/-- A clock past the witness deadline closes the round. -/
theorem clock_closes_witness (witnessing : state.phase = .roundWitness)
    (held : currentSlot state = some slot)
    (passed : state.phaseStartS + state.config.roundWitnessS ≤ now)
    (stepped : tick mode prims state (.clock now) = some (after, outputs)) :
    (∃ record ∈ publishedRecords outputs, record.round = state.round) ∧
      mode.add 64 state.round 1 = some after.round := by
  simp only [tick, onClock, witnessing, Phase.isHalted, Bool.false_eq_true, if_false] at stepped
  unfold driveTime at stepped
  have phase_eq : (observeClock state now).phase = .roundWitness := witnessing
  rw [phase_eq] at stepped
  dsimp only at stepped
  split at stepped
  · cases stepped
  · have observedHeld : currentSlot (observeClock state now) = some slot := held
    have closes := finalizeRound_closes observedHeld stepped
    exact closes
  · rename_i decided
    cases phaseOver_of_passed passed decided

/-- A clock past the training deadline leaves the training phase. -/
theorem clock_closes_train (training : state.phase = .roundTrain)
    (held : currentSlot state = some slot)
    (passed : state.phaseStartS + state.config.roundTrainMaxS ≤ now)
    (stepped : tick mode prims state (.clock now) = some (after, outputs)) :
    (after.phase = .roundWitness ∧ after.round = state.round) ∨
      ((∃ record ∈ publishedRecords outputs, record.round = state.round) ∧
        mode.add 64 state.round 1 = some after.round) := by
  simp only [tick, onClock, training, Phase.isHalted, Bool.false_eq_true, if_false] at stepped
  unfold driveTime at stepped
  have phase_eq : (observeClock state now).phase = .roundTrain := training
  rw [phase_eq] at stepped
  dsimp only at stepped
  split at stepped
  · cases stepped
  · obtain ⟨middle, earlier, later, changed, finalized, rfl⟩ :=
      andThen_eq_some_iff.mp stepped
    obtain ⟨middle_eq, rfl⟩ := Prod.mk.inj (Option.some.inj changed)
    have middleHeld : currentSlot middle = some slot := middle_eq ▸ held
    have middleRound : middle.round = state.round := middle_eq ▸ rfl
    have middlePhase : middle.phase = .roundWitness := middle_eq ▸ rfl
    unfold maybeFinalize at finalized
    split at finalized
    · right
      obtain ⟨⟨record, published, round_eq⟩, next⟩ := finalizeRound_closes middleHeld finalized
      rw [middleRound] at round_eq next
      refine ⟨⟨record, ?_, round_eq⟩, next⟩
      rw [publishedRecords_append]
      exact List.mem_append_right _ published
    · left
      cases finalized
      exact ⟨middlePhase, middleRound⟩
  · rename_i decided
    cases phaseOver_of_passed passed decided

/-- In every reachable state with an active round, the floor is met and the
ring holds the round's slot: unfrozen, with the retained opening for this
round, seed and cursor, and with the committee of the members healthy now.
Hence finalising the round publishes its record and moves on, and so does a
clock past the witness deadline; a clock past the training deadline leaves
training. -/
theorem active_round_invariant (run : TickRun mode prims config seed nowS trace state)
    (active : state.phase.isRoundActive = true) :
    config.minPeers.toNat ≤ state.healthyCount ∧
      (∃ slot opening, state.rounds.get state.round = some slot ∧
        slot.record = none ∧
        slot.roundOpen = some opening ∧
        opening.round = state.round ∧
        opening.seed = state.seed ∧
        opening.batch.start = state.dataIndex ∧
        slot.witnesses = (selectCommittee prims.blake3 state.healthyPeerIds
          state.seed config.witnessTarget.toNat).witnesses) ∧
      (∀ after outputs, finalizeRound mode prims state = some (after, outputs) →
        (∃ record ∈ publishedRecords outputs, record.round = state.round) ∧
          mode.add 64 state.round 1 = some after.round) ∧
      (∀ now after outputs, state.phase = .roundWitness →
        state.phaseStartS + config.roundWitnessS ≤ now →
        tick mode prims state (.clock now) = some (after, outputs) →
        (∃ record ∈ publishedRecords outputs, record.round = state.round) ∧
          mode.add 64 state.round 1 = some after.round) ∧
      (∀ now after outputs, state.phase = .roundTrain →
        state.phaseStartS + config.roundTrainMaxS ≤ now →
        tick mode prims state (.clock now) = some (after, outputs) →
        (after.phase = .roundWitness ∧ after.round = state.round) ∨
          ((∃ record ∈ publishedRecords outputs, record.round = state.round) ∧
            mode.add 64 state.round 1 = some after.round)) := by
  have rests := run.activeInv active
  have config_eq := run.config_eq
  obtain ⟨slot, held, frame_eq⟩ := currentSlot_of_held rests.held
  obtain ⟨opening, retained, round_eq, seed_eq, start_eq⟩ := rests.opening
  have unfrozen := rests.unfrozen
  have witnesses_eq := rests.witnesses_eq
  rw [← frame_eq] at retained unfrozen witnesses_eq
  refine ⟨?_, ⟨slot, opening, held, unfrozen, retained, round_eq, seed_eq,
    start_eq, ?_⟩, ?_, ?_, ?_⟩
  · rw [← config_eq, ← state.ledger_healthyCount]
    exact rests.floor
  · rw [← config_eq, ← state.ledger_healthyPeerIds]
    exact witnesses_eq
  · intro after outputs finalized
    exact finalizeRound_closes held finalized
  · intro now after outputs witnessing passed stepped
    rw [← config_eq] at passed
    exact clock_closes_witness witnessing held passed stepped
  · intro now after outputs training passed stepped
    rw [← config_eq] at passed
    exact clock_closes_train training held passed stepped

/-- Two members with round zero open for training. -/
def openSample : List Input :=
  [sampleJoin (samplePeer 1), sampleJoin (samplePeer 2), .clock 1, .clock 20]

theorem active_round_invariant_sample :
    ∃ trace state,
      TickRun .trap samplePrimitives sampleConfig (Bytes.fill 32 7) 0 trace state ∧
        state.phase.isRoundActive = true ∧
        sampleConfig.minPeers.toNat ≤ state.healthyCount ∧
        ∃ slot, state.rounds.get state.round = some slot ∧ slot.record = none := by
  obtain ⟨trace, state, run, active⟩ := sampleRun_of_checked sampleConfig openSample
    (fun _ state => state.phase.isRoundActive = true) (by decide +kernel)
  obtain ⟨floor, ⟨slot, _, held, unfrozen, _⟩, _⟩ := active_round_invariant run active
  exact ⟨trace, state, run, active, floor, slot, held, unfrozen⟩

end DaemonNode.Coordinator
