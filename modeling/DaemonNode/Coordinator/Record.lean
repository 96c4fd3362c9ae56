import DaemonNode.Coordinator.Evidence

/-!
# What a record says

The step that finalises a round publishes one record. Its entries are the
latest commitments of the healthy members for which there is evidence among
the frames received since the round was opened, and its set commits to
exactly these pairs.

Evidence is counted by witness, and the latest attestation of a witness is
the one that counts. A receipt counts whoever signed it.
-/

namespace DaemonNode.Coordinator

open Bytes (fill)
open Assignment (selectCommittee)

/-- The evidence a step is decided on: the frames since the opening, and the
frame of the step itself. -/
def evidenceFrames (prims : Primitives) (config : RunConfig)
    (trace : List (Machine.Step CoordinatorState Input Output)) (input : Input) :
    List (PeerId × VhcMessage) :=
  framesSinceOpening prims config trace ++ input.authentic prims config

/-- The witness set of the current round. -/
def currentWitnesses (prims : Primitives) (config : RunConfig)
    (state : CoordinatorState) : List PeerId :=
  (selectCommittee prims.blake3 state.healthyPeerIds state.seed
    config.witnessTarget.toNat).witnesses

/-- Evidence reads the receipts by pair and the attestations of the
witnesses. -/
theorem Evidenced.congr {hash : Hash}
    (listed : (∃ entry ∈ receipts, entry.peer = peer ∧ entry.hash = hash) ↔
      ∃ entry ∈ others, entry.peer = peer ∧ entry.hash = hash)
    (agree : ∀ witness ∈ witnesses, attested witness = counted witness) :
    Evidenced prims receipts witnesses attested peer hash ↔
      Evidenced prims others witnesses counted peer hash := by
  have counts : ∀ property : Attestation → Bool,
      (witnesses.countP fun witness => (attested witness).any property) =
        witnesses.countP fun witness => (counted witness).any property := by
    intro property
    apply List.countP_congr
    intro witness drawn
    rw [agree witness drawn]
  unfold Evidenced
  rw [listed, counts]
  refine or_congr_right (or_congr_right (exists_congr fun root => ?_))
  rw [counts]
  refine and_congr_right fun _ => exists_congr fun witness => ?_
  exact and_congr_right fun drawn => by rw [agree witness drawn]

section

variable (run : TickRun mode prims config seed nowS trace state)

include run

/-- A finalising step publishes one record, frozen from a slot that holds the
evidence of the round. -/
theorem TickRun.record_frozen (stepped : tick mode prims state input = some (after, outputs))
    (finalises : Finalises state after) :
    ∃ slot roster record,
      state.phase.isRoundActive = true ∧
      Holds state.round state.ledger.seats (evidenceFrames prims config trace input) slot ∧
      slot.witnesses = state.ledger.currentFrame.witnesses ∧
      roster.map Member.seat = state.ledger.seats ∧
      publishedRecords outputs = [record] ∧
      record.round = state.round ∧
      record.inline = some (committedEntries prims slot roster) ∧
      record.set = (Merkle.commitSet prims.blake3
        ((committedEntries prims slot roster).map fun entry =>
          (entry.peer, entry.hash))).commitment := by
  cases active : state.phase.isRoundActive with
  | false =>
    -- outside an active round no round is counted
    exfalso
    rcases tick_opensOnly active _ _ stepped with ⟨_, done_eq⟩ | ⟨_, opened, done_eq⟩
    · exact finalises done_eq
    · obtain ⟨_, _, _, _, rfl, _⟩ := openRound_eq_some opened
      exact finalises done_eq
  | true =>
    obtain ⟨absorbed, ledger_eq, ⟨slot, held, holds⟩, concludes⟩ :=
      tick_proceeds active (run.keeps active) _ _ stepped
    rw [run.config_eq, ledger_eq] at holds
    have round_eq : absorbed.round = state.round := congrArg Ledger.round ledger_eq
    rw [round_eq] at holds
    cases concludes with
    | rest rests =>
      have done_eq : absorbed.roundsDone = state.roundsDone := congrArg Ledger.roundsDone ledger_eq
      exact absurd (rests.done_eq.trans done_eq) finalises
    | close start earlier closing _ unrecorded outputs_eq closed =>
      have stored : currentSlot { absorbed with
          phase := .roundWitness, phaseStartS := start } = some slot := held
      obtain ⟨accounted, _, _, later, _, _, _, decided, closing_eq⟩ :=
        finalizeRound_eq_some stored closed
      obtain ⟨_, _, unpublished, _⟩ := decideNext_eq_some decided
      refine ⟨slot, absorbed.roster, frozenRecord prims absorbed slot accounted,
        rfl, holds, ?_, congrArg Ledger.seats ledger_eq, ?_, round_eq, rfl, rfl⟩
      · rw [← ledger_eq]
        exact congrArg RoundState.witnesses (RoundRing.get_eq_some_iff.mp held).1.symm
      · rw [outputs_eq, closing_eq]
        simp only [publishedRecords_append, unrecorded, unpublished,
          (silent_dropped _).publishedRecords_eq]
        rfl

/-- The witness set of a reachable active round is small, without
duplicates, and empty only when nobody is healthy. -/
theorem TickRun.currentWitnesses_bounds :
    (currentWitnesses prims config state).length < 2 ^ 32 ∧
      (currentWitnesses prims config state).Nodup ∧
      ∀ peer, ⟨peer, true⟩ ∈ state.ledger.seats → currentWitnesses prims config state ≠ [] := by
  refine ⟨?_, Assignment.selectCommittee_witnesses_nodup _ _ _ _, ?_⟩
  · have drawn := Assignment.selectCommittee_witnesses_length_le prims.blake3
      state.healthyPeerIds state.seed config.witnessTarget.toNat
    have room := run.rosterInv.room
    have ceiling := state.ledger.config.maxPeers.toNat_lt
    have ids : state.healthyPeerIds.length = state.healthy.length := by
      simp [CoordinatorState.healthyPeerIds]
    have seats : state.ledger.healthySeats.length = state.healthy.length := by
      rw [CoordinatorState.ledger_healthySeats, List.length_map]
    unfold Ledger.occupancy at room
    unfold currentWitnesses
    omega
  · intro peer healthy
    apply Assignment.selectCommittee_witnesses_ne_nil
    rw [← CoordinatorState.ledger_healthyPeerIds]
    apply List.ne_nil_of_mem
    · rw [Ledger.healthyPeerIds, List.mem_insertionSort]
      exact List.mem_map_of_mem (List.mem_filter.mpr ⟨healthy, rfl⟩)

/-- The committed set of a slot that holds the evidence of the round. -/
theorem TickRun.mem_committed_iff (active : state.phase.isRoundActive = true)
    (holds : Holds state.round state.ledger.seats frames slot)
    (witnesses_eq : slot.witnesses = state.ledger.currentFrame.witnesses)
    (roster_eq : roster.map Member.seat = state.ledger.seats) (entry : RecordEntry) :
    entry ∈ committedEntries prims slot roster ↔
      state.isHealthyMember entry.peer = true ∧
      (∃ commitment,
        latestCommitment state.round frames entry.peer = some commitment ∧
        commitment.payload = entry.hash ∧ commitment.size = entry.size) ∧
      Evidenced prims (receiptEntries state.round frames)
        (currentWitnesses prims config state)
        (latestAttestation state.round frames) entry.peer entry.hash := by
  obtain ⟨small, _, several⟩ := run.currentWitnesses_bounds
  have drawn : slot.witnesses = currentWitnesses prims config state := by
    rw [witnesses_eq, (run.activeInv active).witnesses_eq,
      Ledger.committeeWitnesses, CoordinatorState.ledger_config, run.config_eq,
      CoordinatorState.ledger_healthyPeerIds]
    rfl
  have healthy_iff : (∃ member ∈ roster,
      member.isHealthy = true ∧ member.peer = entry.peer) ↔
      ⟨entry.peer, true⟩ ∈ state.ledger.seats := by
    rw [← roster_eq]
    simp [Member.seat, and_comm]
  rw [mem_committedEntries, healthy_iff, state.isHealthyMember_iff]
  refine and_congr_right fun healthy => ?_
  have evidenced : hasEvidence prims slot entry.peer entry.hash = true ↔
      Evidenced prims (receiptEntries state.round frames)
        (currentWitnesses prims config state)
        (latestAttestation state.round frames) entry.peer entry.hash := by
    rw [hasEvidence_iff prims (drawn ▸ small) (drawn ▸ several _ healthy) holds.witnessed, drawn]
    exact Evidenced.congr (holds.receipts _ _)
      fun witness member => holds.attestations witness (drawn ▸ member)
  rw [holds.commitments entry.peer healthy, evidenced]
  simp only [← exists_and_right, and_assoc]

end

/-- The record of a finalised round: its entries ascend strictly by peer; a
peer is in it with a payload exactly when the peer is a healthy member, the
payload is its latest commitment since the round was opened, and the pair is
evidenced by the receipts and by the latest attestation of each witness since
then; and its set commits to exactly these pairs. -/
theorem record_sound_and_complete (run : TickRun mode prims config seed nowS trace state)
    (stepped : tick mode prims state input = some (after, outputs))
    (finalises : Finalises state after) :
    ∃ record entries,
      publishedRecords outputs = [record] ∧
      record.round = state.round ∧
      record.inline = some entries ∧
      (entries.Pairwise fun left right => left.peer < right.peer) ∧
      (∀ entry, entry ∈ entries ↔
        state.isHealthyMember entry.peer = true ∧
        (∃ commitment,
          latestCommitment state.round (evidenceFrames prims config trace input)
            entry.peer = some commitment ∧
          commitment.payload = entry.hash ∧ commitment.size = entry.size) ∧
        Evidenced prims
          (receiptEntries state.round (evidenceFrames prims config trace input))
          (currentWitnesses prims config state)
          (latestAttestation state.round (evidenceFrames prims config trace input))
          entry.peer entry.hash) ∧
      record.set = (Merkle.commitSet prims.blake3
        (entries.map fun entry => (entry.peer, entry.hash))).commitment := by
  obtain ⟨slot, roster, record, active, holds, witnesses_eq, roster_eq, published,
    round_eq, inline_eq, set_eq⟩ := run.record_frozen stepped finalises
  refine ⟨record, committedEntries prims slot roster, published, round_eq,
    inline_eq, committedEntries_ascending prims ?_,
    run.mem_committed_iff active holds witnesses_eq roster_eq, set_eq⟩
  have distinct := run.rosterInv.seats_nodup
  rw [← roster_eq, List.map_map] at distinct
  exact distinct

/-- A commitment of a sample peer to round zero. -/
def sampleCommitment (byte : Byte) : Input :=
  sampleMessage (samplePeer byte) (.commitment ⟨0, fill 32 byte, 1, []⟩)

/-- An inline attestation of the payloads of some sample peers. -/
def sampleAttestation (witness : Byte) (covered : List Byte) : Input :=
  sampleMessage (samplePeer witness)
    (.attestation
      { round := 0
        set := ⟨fill 32 0, covered.length⟩
        inline := some (covered.map fun byte =>
          ⟨samplePeer byte, fill 32 byte⟩) })

/-- A receipt for the payload of a sample peer. -/
def sampleReceipt (signer listed : Byte) : Input :=
  sampleMessage (samplePeer signer) (.storageReceipt ⟨0, [⟨samplePeer listed, fill 32 listed, 1⟩]⟩)

theorem sampleStep_of_checked {config : RunConfig} (inputs : List Input) {input : Input}
    {property : List (Machine.Step CoordinatorState Input Output) →
      CoordinatorState → CoordinatorState → List Output → Prop}
    (checked : ∃ result ∈ sampleExec config inputs,
      ∃ stepped ∈ tick .trap samplePrimitives result.2 input,
        property result.1 result.2 stepped.1 stepped.2) :
    ∃ trace state after outputs,
      TickRun .trap samplePrimitives config (fill 32 7) 0 trace state ∧
        tick .trap samplePrimitives state input = some (after, outputs) ∧
        property trace state after outputs := by
  obtain ⟨⟨trace, state⟩, executed, ⟨after, outputs⟩, stepped, holds⟩ := checked
  exact ⟨trace, state, after, outputs, .of_exec executed, stepped, holds⟩

/-- Both sample peers commit, and the first one attests both payloads. -/
def attestedSample : List Input :=
  openSample ++ [sampleCommitment 1, sampleCommitment 2, sampleAttestation 1 [1, 2]]

/-- The second attestation finalises the sample round with both payloads. -/
theorem finalised_attestedSample :
    ∃ trace state after outputs,
      TickRun .trap samplePrimitives sampleConfig (fill 32 7) 0 trace state ∧
        tick .trap samplePrimitives state (sampleAttestation 2 [1, 2]) = some (after, outputs) ∧
        Finalises state after ∧
        2 ≤ (currentWitnesses samplePrimitives sampleConfig state).length ∧
        (publishedRecords outputs).map RoundRecord.inline =
          [some [⟨samplePeer 1, fill 32 1, 1⟩, ⟨samplePeer 2, fill 32 2, 1⟩]] := by
  exact sampleStep_of_checked attestedSample (by decide +kernel)

theorem record_sound_and_complete_sample :
    ∃ trace state after outputs,
      TickRun .trap samplePrimitives sampleConfig (fill 32 7) 0 trace state ∧
        tick .trap samplePrimitives state (sampleAttestation 2 [1, 2]) = some (after, outputs) ∧
        Finalises state after ∧
        ∃ record entries,
          publishedRecords outputs = [record] ∧
          record.inline = some entries ∧
          (entries.Pairwise fun left right => left.peer < right.peer) ∧
          record.set = (Merkle.commitSet samplePrimitives.blake3
            (entries.map fun entry => (entry.peer, entry.hash))).commitment := by
  obtain ⟨trace, state, after, outputs, run, stepped, finalises⟩ := finalised_attestedSample
  obtain ⟨record, entries, published, _, inline_eq, ascending, _, set_eq⟩ :=
    record_sound_and_complete run stepped finalises.1
  exact ⟨trace, state, after, outputs, run, stepped, finalises.1, record, entries,
    published, inline_eq, ascending, set_eq⟩

/-- Both witnesses attest the payload of the first peer; then the first peer
attests the second payload instead. -/
def supersededSample : List Input :=
  openSample ++
    [sampleCommitment 1, sampleCommitment 2, sampleAttestation 1 [1],
      sampleAttestation 2 [1], sampleAttestation 1 [2]]

/-- A superseded attestation does not count: every witness sent one that
covers the latest commitment of the first peer, a healthy member, and yet the
record of the sample round is empty. -/
theorem superseded_attestation_uncounted :
    ∃ trace state after outputs,
      TickRun .trap samplePrimitives sampleConfig (fill 32 7) 0 trace state ∧
        tick .trap samplePrimitives state (.clock 60) = some (after, outputs) ∧
        Finalises state after ∧
        state.isHealthyMember (samplePeer 1) = true ∧
        latestCommitment state.round
          (evidenceFrames samplePrimitives sampleConfig trace (.clock 60))
          (samplePeer 1) = some ⟨0, fill 32 1, 1, []⟩ ∧
        (currentWitnesses samplePrimitives sampleConfig state).length = 2 ∧
        (∀ witness ∈ currentWitnesses samplePrimitives sampleConfig state,
          ∃ attestation ∈ (evidenceFrames samplePrimitives sampleConfig trace
              (.clock 60)).filterMap (attestationBy state.round witness),
            inlineCovers attestation (samplePeer 1) (fill 32 1) = true) ∧
        (publishedRecords outputs).map RoundRecord.inline = [some []] := by
  exact sampleStep_of_checked supersededSample (by decide +kernel)

theorem mem_of_latestAttestation {round : Nat} {witness : PeerId} {attestation : Attestation}
    (latest : latestAttestation round frames witness = some attestation) :
    (witness, .attestation attestation) ∈ frames ∧ attestation.round = round := by
  obtain ⟨⟨signer, payload⟩, received, carried⟩ :=
    List.mem_filterMap.mp (List.mem_of_getLast? latest)
  cases payload with
  | attestation sent =>
    simp only [attestationBy, Option.ite_none_right_eq_some, Option.some.injEq] at carried
    obtain ⟨⟨rfl, round_eq⟩, rfl⟩ := carried
    exact ⟨received, round_eq⟩
  | _ => cases carried

/-- An entry of the receipts is listed by a receipt among the frames. -/
theorem mem_of_receiptEntries {round : Nat}
    {entry : RecordEntry} (listed : entry ∈ receiptEntries round frames) :
    ∃ signer receipt, (signer, .storageReceipt receipt) ∈ frames ∧
      receipt.round = round ∧ entry ∈ receipt.verified := by
  obtain ⟨⟨signer, payload⟩, received, carried⟩ := List.mem_flatMap.mp listed
  cases payload with
  | storageReceipt receipt =>
    simp only [receiptEntriesBy] at carried
    split at carried
    · rename_i round_eq
      exact ⟨signer, receipt, received, round_eq, carried⟩
    · cases carried
  | _ => cases carried

/-- With two witnesses or more, a payload is in the record only if a receipt
for the round lists it, whoever signed the receipt, or a witness other than
its peer attested it: inline, or by a root that an attested opening rebuilds
with the pair in it. -/
theorem recorded_payload_certified (run : TickRun mode prims config seed nowS trace state)
    (stepped : tick mode prims state input = some (after, outputs))
    (finalises : Finalises state after)
    (several : 2 ≤ (currentWitnesses prims config state).length) :
    ∀ record ∈ publishedRecords outputs, ∀ entries, record.inline = some entries →
      ∀ entry ∈ entries,
        (∃ signer receipt,
          (signer, .storageReceipt receipt) ∈ evidenceFrames prims config trace input ∧
          receipt.round = state.round ∧
          ∃ listed ∈ receipt.verified, listed.peer = entry.peer ∧ listed.hash = entry.hash) ∨
        ∃ witness attestation,
          witness ≠ entry.peer ∧
          (witness, .attestation attestation) ∈ evidenceFrames prims config trace input ∧
          attestation.round = state.round ∧
          (inlineCovers attestation entry.peer entry.hash = true ∨
            ∃ opener opening,
              (opener, .attestation opening) ∈ evidenceFrames prims config trace input ∧
              opening.round = state.round ∧
              rebuildsRoot prims opening attestation.set.root = true ∧
              inlineCovers opening entry.peer entry.hash = true) := by
  intro record published entries inline_eq entry member
  obtain ⟨slot, roster, frozen, active, holds, witnesses_eq, roster_eq, only, _,
    frozenInline_eq, _⟩ := run.record_frozen stepped finalises
  obtain ⟨_, distinct, _⟩ := run.currentWitnesses_bounds
  have quorum := Assignment.two_le_witnessQuorum several
  rw [only, List.mem_singleton] at published
  rw [published, frozenInline_eq] at inline_eq
  cases inline_eq
  obtain ⟨_, _, evidence⟩ :=
    (run.mem_committed_iff active holds witnesses_eq roster_eq entry).mp member
  rcases evidence with ⟨listed, known, matched⟩ | covered | ⟨root, agreed, opened⟩
  · left
    obtain ⟨signer, receipt, received, round_eq, verified⟩ := mem_of_receiptEntries known
    exact ⟨signer, receipt, received, round_eq, listed, verified, matched⟩
  · right
    obtain ⟨witness, _, other, attested⟩ := Lists.exists_ne_of_two_le_countP
      distinct (quorum.trans covered) entry.peer
    obtain ⟨attestation, latest, covers⟩ := (Option.any_eq_true _ _).mp attested
    obtain ⟨received, round_eq⟩ := mem_of_latestAttestation latest
    exact ⟨witness, attestation, other, received, round_eq, .inl covers⟩
  · right
    obtain ⟨witness, _, other, attested⟩ := Lists.exists_ne_of_two_le_countP
      distinct (quorum.trans agreed) entry.peer
    obtain ⟨attestation, latest, root_eq⟩ := (Option.any_eq_true _ _).mp attested
    obtain ⟨received, round_eq⟩ := mem_of_latestAttestation latest
    obtain ⟨opener, _, opening, openingLatest, rebuilds, covers⟩ := opened
    obtain ⟨openingReceived, openingRound⟩ := mem_of_latestAttestation openingLatest
    rw [← of_decide_eq_true root_eq] at rebuilds
    exact ⟨witness, attestation, other, received, round_eq,
      .inr ⟨opener, opening, openingReceived, openingRound, rebuilds, covers⟩⟩

theorem recorded_payload_certified_sample :
    ∃ trace state after outputs,
      TickRun .trap samplePrimitives sampleConfig (fill 32 7) 0 trace state ∧
        tick .trap samplePrimitives state (sampleAttestation 2 [1, 2]) = some (after, outputs) ∧
        Finalises state after ∧
        2 ≤ (currentWitnesses samplePrimitives sampleConfig state).length ∧
        ∃ record ∈ publishedRecords outputs, ∃ entries,
          record.inline = some entries ∧
          ∃ entry ∈ entries,
            (∃ signer receipt,
              (signer, .storageReceipt receipt) ∈
                evidenceFrames samplePrimitives sampleConfig trace (sampleAttestation 2 [1, 2]) ∧
              receipt.round = state.round ∧
              ∃ listed ∈ receipt.verified, listed.peer = entry.peer ∧ listed.hash = entry.hash) ∨
            ∃ witness attestation,
              witness ≠ entry.peer ∧
              (witness, .attestation attestation) ∈
                evidenceFrames samplePrimitives sampleConfig trace
                  (sampleAttestation 2 [1, 2]) := by
  obtain ⟨trace, state, after, outputs, run, stepped, finalises, several,
    inline_eq⟩ := finalised_attestedSample
  obtain ⟨record, published, recorded⟩ := List.map_eq_singleton_iff.mp inline_eq
  have certified := recorded_payload_certified run stepped finalises several record
    (by rw [published]; exact List.mem_singleton_self _) _ recorded
    ⟨samplePeer 1, fill 32 1, 1⟩ List.mem_cons_self
  refine ⟨trace, state, after, outputs, run, stepped, finalises, several, record,
    by rw [published]; exact List.mem_singleton_self _, _, recorded, _,
    List.mem_cons_self, certified.imp_right ?_⟩
  rintro ⟨witness, attestation, other, received, _⟩
  exact ⟨witness, attestation, other, received⟩

/-- A peer certifies itself: with two witnesses, the payload of the first
peer is recorded although every frame since the opening is its own. -/
theorem own_receipt_certifies :
    ∃ trace state after outputs,
      TickRun .trap samplePrimitives sampleConfig (fill 32 7) 0 trace state ∧
        tick .trap samplePrimitives state (.clock 40) = some (after, outputs) ∧
        Finalises state after ∧
        (currentWitnesses samplePrimitives sampleConfig state).length = 2 ∧
        (evidenceFrames samplePrimitives sampleConfig trace (.clock 40)).map
          Prod.fst = [samplePeer 1, samplePeer 1] ∧
        (publishedRecords outputs).map RoundRecord.inline =
          [some [⟨samplePeer 1, fill 32 1, 1⟩]] := by
  exact sampleStep_of_checked (openSample ++ [sampleCommitment 1, sampleReceipt 1 1])
    (by decide +kernel)

end DaemonNode.Coordinator
