import DaemonNode.Coordinator.History

/-!
# The evidence of a round

A slot of the ring overwrites what it holds: a peer's commitment, a witness's
attestation, the fresh slot of a round opened again. Here the slot is
compared with the frames the coordinator received since the round was last
opened: it holds the latest commitment of every healthy member, the latest
attestation of every witness, and the pairs that the receipts listed.

A step in an active round takes its frame in first and concludes then: the
round goes on, or it is finalised from the slot with the new frame in it.
-/

namespace DaemonNode.Coordinator

open Word (Overflow)
open Output (opensRound)

/-- The signer and the payload of a frame that passes the version and
signature checks. -/
def Input.authentic (prims : Primitives) (config : RunConfig) :
    Input → List (PeerId × VhcMessage)
  | .message frame =>
    if frame.version = config.protoVersion ∧ frame.verify prims = true then
      [(frame.signer, frame.payload)]
    else []
  | _ => []

/-- The frames received since a round was last opened, oldest first. -/
def framesSinceOpening (prims : Primitives) (config : RunConfig)
    (trace : List (Machine.Step CoordinatorState Input Output)) :
    List (PeerId × VhcMessage) :=
  trace.foldl
    (fun frames recorded =>
      if recorded.output.any opensRound then []
      else frames ++ recorded.input.authentic prims config)
    []

section

variable (round : Nat) (frames : List (PeerId × VhcMessage))

/-- The commitment to a round that a frame carries for a peer. -/
def commitmentBy (peer : PeerId) : PeerId × VhcMessage → Option Commitment
  | (signer, .commitment commitment) =>
    if signer = peer ∧ commitment.round = round then some commitment else none
  | _ => none

/-- The attestation for a round that a frame carries for a witness. -/
def attestationBy (witness : PeerId) : PeerId × VhcMessage → Option Attestation
  | (signer, .attestation attestation) =>
    if signer = witness ∧ attestation.round = round then some attestation
    else none
  | _ => none

/-- The entries of the receipt for a round that a frame carries, whoever
signed it. -/
def receiptEntriesBy : PeerId × VhcMessage → List RecordEntry
  | (_, .storageReceipt receipt) =>
    if receipt.round = round then receipt.verified else []
  | _ => []

def latestCommitment (peer : PeerId) : Option Commitment :=
  (frames.filterMap (commitmentBy round peer)).getLast?

def latestAttestation (witness : PeerId) : Option Attestation :=
  (frames.filterMap (attestationBy round witness)).getLast?

def receiptEntries : List RecordEntry :=
  frames.flatMap (receiptEntriesBy round)

end

section Concat

variable (round : Nat) (frames : List (PeerId × VhcMessage))
variable (frame : PeerId × VhcMessage)

theorem latestCommitment_concat (peer : PeerId) :
    latestCommitment round (frames ++ [frame]) peer =
      (commitmentBy round peer frame).or (latestCommitment round frames peer) :=
  Lists.getLast?_filterMap_concat _ _ _

theorem latestAttestation_concat (witness : PeerId) :
    latestAttestation round (frames ++ [frame]) witness =
      (attestationBy round witness frame).or (latestAttestation round frames witness) :=
  Lists.getLast?_filterMap_concat _ _ _

theorem receiptEntries_concat :
    receiptEntries round (frames ++ [frame]) =
      receiptEntries round frames ++ receiptEntriesBy round frame := by
  simp [receiptEntries]

end Concat

theorem mem_addReceipt_iff {hash : Hash} :
    (∃ known ∈ addReceipt receipts entry, known.peer = peer ∧ known.hash = hash) ↔
      (∃ known ∈ receipts, known.peer = peer ∧ known.hash = hash) ∨
        (entry.peer = peer ∧ entry.hash = hash) := by
  unfold addReceipt
  split
  · rename_i known
    simp only [List.any_eq_true, Bool.and_eq_true, decide_eq_true_eq] at known
    obtain ⟨known, member, peer_eq, hash_eq⟩ := known
    refine ⟨.inl, ?_⟩
    rintro (listed | ⟨rfl, rfl⟩)
    · exact listed
    · exact ⟨known, member, peer_eq, hash_eq⟩
  · simp only [List.mem_append, List.mem_singleton, or_and_right, exists_or, exists_eq_left]

theorem mem_foldl_addReceipt_iff {receipts verified : List RecordEntry} {hash : Hash} :
    (∃ known ∈ verified.foldl addReceipt receipts, known.peer = peer ∧ known.hash = hash) ↔
      (∃ known ∈ receipts, known.peer = peer ∧ known.hash = hash) ∨
        ∃ entry ∈ verified, entry.peer = peer ∧ entry.hash = hash := by
  induction verified generalizing receipts with
  | nil => simp
  | cons entry verified ih =>
    rw [List.foldl_cons, ih, mem_addReceipt_iff, or_assoc]
    simp only [List.mem_cons, or_and_right, exists_or, exists_eq_left]

/-- A slot holds what the frames say: of the healthy seats the latest
commitments, of the witnesses the latest attestations, and the pairs of the
receipts. -/
structure Holds (round : Nat) (seats : List Seat)
    (frames : List (PeerId × VhcMessage)) (slot : RoundState) : Prop where
  /-- The latest commitment of every healthy seat. -/
  commitments : ∀ peer, ⟨peer, true⟩ ∈ seats →
    slot.commitments[peer]? = latestCommitment round frames peer
  /-- The latest attestation of every witness. -/
  attestations : ∀ witness ∈ slot.witnesses,
    slot.attestations[witness]? = latestAttestation round frames witness
  witnessed : ∀ (peer : PeerId) (attestation : Attestation),
    slot.attestations[peer]? = some attestation → peer ∈ slot.witnesses
  receipts : ∀ peer hash,
    (∃ entry ∈ slot.receipts, entry.peer = peer ∧ entry.hash = hash) ↔
      ∃ entry ∈ receiptEntries round frames, entry.peer = peer ∧ entry.hash = hash

namespace Holds

variable {round : Nat} {seats : List Seat}
variable {frames : List (PeerId × VhcMessage)} {slot : RoundState}

/-- A fresh slot holds no frames. -/
theorem opened (seed : Seed) (dataIndex : Nat) (batch : BatchWindow)
    (witnesses : List PeerId) (opening : Option RoundOpen) :
    Holds round seats []
      { RoundState.opened round seed dataIndex batch witnesses with roundOpen := opening } where
  commitments := fun _ _ => Std.TreeMap.getElem?_emptyc
  attestations := fun _ _ => Std.TreeMap.getElem?_emptyc
  witnessed := by
    intro peer attestation found
    rw [show (RoundState.opened round seed dataIndex batch witnesses).attestations =
      ∅ from rfl, Std.TreeMap.getElem?_emptyc] at found
    cases found
  receipts := fun _ _ => Iff.rfl

section

variable (holds : Holds round seats frames slot)

include holds

/-- A frame that carries nothing the slot keeps. -/
theorem ignored {frame : PeerId × VhcMessage}
    (uncommitted : ∀ peer, ⟨peer, true⟩ ∈ seats → commitmentBy round peer frame = none)
    (unattested : ∀ witness ∈ slot.witnesses, attestationBy round witness frame = none)
    (unlisted : receiptEntriesBy round frame = []) :
    Holds round seats (frames ++ [frame]) slot where
  commitments := by
    intro peer healthy
    rw [latestCommitment_concat, uncommitted peer healthy]
    exact holds.commitments peer healthy
  attestations := by
    intro witness drawn
    rw [latestAttestation_concat, unattested witness drawn]
    exact holds.attestations witness drawn
  witnessed := holds.witnessed
  receipts := by
    intro peer hash
    rw [receiptEntries_concat, unlisted, List.append_nil]
    exact holds.receipts peer hash

/-- A commitment to the round takes the place of an earlier one. -/
theorem commitment {commitment : Commitment} (round_eq : commitment.round = round) :
    Holds round seats (frames ++ [(signer, .commitment commitment)])
      (slot.insertCommitment signer commitment) where
  commitments := by
    intro peer healthy
    rw [latestCommitment_concat, ← holds.commitments peer healthy]
    by_cases same : signer = peer <;>
      simp [RoundState.insertCommitment, Std.TreeMap.getElem?_insert,
        Std.LawfulEqCmp.compare_eq_iff_eq, commitmentBy, same, round_eq]
  attestations := by
    intro witness drawn
    rw [latestAttestation_concat]
    exact holds.attestations witness drawn
  witnessed := holds.witnessed
  receipts := by
    intro peer hash
    rw [receiptEntries_concat]
    simpa [receiptEntriesBy, RoundState.insertCommitment] using holds.receipts peer hash

/-- An attestation by a witness takes the place of an earlier one. -/
theorem attestation {attestation : Attestation} (drawn : signer ∈ slot.witnesses)
    (round_eq : attestation.round = round) :
    Holds round seats (frames ++ [(signer, .attestation attestation)])
      (slot.insertAttestation signer attestation) where
  commitments := by
    intro peer healthy
    rw [latestCommitment_concat]
    exact holds.commitments peer healthy
  attestations := by
    intro witness drawn
    rw [latestAttestation_concat, ← holds.attestations witness drawn]
    by_cases same : signer = witness <;>
      simp [RoundState.insertAttestation, Std.TreeMap.getElem?_insert,
        Std.LawfulEqCmp.compare_eq_iff_eq, attestationBy, same, round_eq]
  witnessed := by
    intro peer other found
    by_cases same : signer = peer
    · exact same ▸ drawn
    · apply holds.witnessed peer other
      simpa [RoundState.insertAttestation, Std.TreeMap.getElem?_insert,
        Std.LawfulEqCmp.compare_eq_iff_eq, same] using found
  receipts := by
    intro peer hash
    rw [receiptEntries_concat]
    simpa [receiptEntriesBy, RoundState.insertAttestation] using holds.receipts peer hash

/-- A receipt for the round adds its pairs, whoever signed it. -/
theorem receipt {receipt : StorageReceipt} (round_eq : receipt.round = round) :
    Holds round seats (frames ++ [(signer, .storageReceipt receipt)])
      (slot.insertReceipt receipt) where
  commitments := by
    intro peer healthy
    rw [latestCommitment_concat]
    exact holds.commitments peer healthy
  attestations := by
    intro witness drawn
    rw [latestAttestation_concat]
    exact holds.attestations witness drawn
  witnessed := holds.witnessed
  receipts := by
    intro peer hash
    rw [receiptEntries_concat, receiptEntriesBy, if_pos round_eq,
      RoundState.insertReceipt, mem_foldl_addReceipt_iff, holds.receipts peer hash]
    simp only [List.mem_append, or_and_right, exists_or]

end

end Holds

namespace RoundRing

/-- A stored slot changes in place. -/
theorem get_modify_self {ring : RoundRing} {round : Nat} {slot : RoundState}
    (held : ring.get round = some slot) (keeps : (change slot).round = slot.round) :
    (ring.modify round change).get round = some (change slot) := by
  unfold modify
  rw [held, get_eq_some_iff]
  simp [keeps, (get_eq_some_iff.mp held).2]

theorem get_modify_of_ne {ring : RoundRing} {round other : Nat} {slot : RoundState}
    (change : RoundState → RoundState) (held : ring.get round = some slot)
    (different : other ≠ round) :
    (ring.modify other change).get round = some slot := by
  unfold modify
  split
  · exact held
  · rename_i found
    rw [get_eq_some_iff] at held found ⊢
    have apart : (indexOf other : Nat) ≠ indexOf round := by
      intro same
      have slots_eq := congrArg (fun index : Fin numStoredRounds => ring.slots[index])
        (Fin.ext same)
      rw [found.1, held.1] at slots_eq
      exact different (by rw [← found.2, slots_eq, held.2])
    refine ⟨?_, held.2⟩
    rw [← held.1]
    exact Vector.getElem_set_ne (indexOf other).isLt (indexOf round).isLt apart

end RoundRing

/-- The roster check reads the seats. -/
theorem CoordinatorState.isHealthyMember_iff (state : CoordinatorState) (peer : PeerId) :
    state.isHealthyMember peer = true ↔ ⟨peer, true⟩ ∈ state.ledger.seats := by
  simp [CoordinatorState.isHealthyMember, CoordinatorState.ledger, Member.seat]

/-- The slot of the current round holds what the frames say. -/
def Keeps (state : CoordinatorState) (frames : List (PeerId × VhcMessage)) : Prop :=
  ∃ slot, currentSlot state = some slot ∧ Holds state.round state.ledger.seats frames slot

/-- The round goes on, or is left, as it is. -/
structure Rests (state : CoordinatorState) (outputs : List Output)
    (after : CoordinatorState) : Prop where
  unopened : outputs.any opensRound = false
  rounds_eq : after.rounds = state.rounds
  round_eq : after.round = state.round
  seats_eq : after.ledger.seats = state.ledger.seats
  done_eq : after.roundsDone = state.roundsDone

/-- How a step in an active round concludes once its frame is taken in. -/
inductive Concludes (mode : Overflow) (prims : Primitives)
    (state : CoordinatorState) (outputs : List Output)
    (after : CoordinatorState) : Prop
  | rest : Rests state outputs after → Concludes mode prims state outputs after
  | close (start : Nat) (earlier closing : List Output) :
      earlier.any opensRound = false →
      publishedRecords earlier = [] →
      outputs = earlier ++ closing →
      finalizeRound mode prims
        { state with phase := .roundWitness, phaseStartS := start } = some (after, closing) →
      Concludes mode prims state outputs after

section Steps

variable {mode : Overflow} {prims : Primitives}
variable {state after : CoordinatorState} {outputs : List Output}
variable {frames : List (PeerId × VhcMessage)}

theorem Silent.unopened (silent : Silent outputs) : outputs.any opensRound = false := by
  rw [List.any_eq_false]
  intro output member
  have quiet := silent output member
  cases output with
  | note notice => cases notice <;> simp_all [Output.isSilent, opensRound]
  | _ => simp [opensRound]

/-- A step that only outputs silent remarks. -/
theorem Rests.of_silent (silent : Silent outputs) : Rests state outputs state :=
  ⟨silent.unopened, rfl, rfl, rfl, rfl⟩

theorem rest_concludes : Outcome.Yields (some (state, [])) (Concludes mode prims state) :=
  .returned (.rest (.of_silent (List.forall_mem_nil _)))

theorem reject_concludes : (reject state reason).Yields (Concludes mode prims state) :=
  .returned (.rest (.of_silent (List.forall_mem_singleton.mpr rfl)))

theorem maybeFinalize_concludes :
    (maybeFinalize mode prims state).Yields (Concludes mode prims state) := by
  unfold maybeFinalize
  split
  · rename_i evidenced
    intro after outputs finalized
    refine .close state.phaseStartS [] outputs rfl rfl rfl ?_
    rw [← evidenced.1]
    exact finalized
  · exact rest_concludes

/-- Entering the witness phase, and what it allows. -/
theorem toWitness_concludes :
    ((changePhase state .roundWitness).andThen (maybeFinalize mode prims)).Yields
      (Concludes mode prims state) := by
  intro after outputs advanced
  obtain ⟨middle, earlier, later, changed, finalized, rfl⟩ := andThen_eq_some_iff.mp advanced
  cases changed
  cases maybeFinalize_concludes _ _ finalized with
  | rest rests => exact .rest { rests with }
  | close start earlier closing unopened unrecorded outputs_eq closed =>
    subst outputs_eq
    exact .close start
      ([.note (.phaseChanged state.phase .roundWitness)] ++ earlier) closing
      unopened unrecorded (List.append_assoc _ _ _).symm closed

theorem maybeAdvance_concludes :
    (maybeAdvance mode prims state).Yields (Concludes mode prims state) := by
  unfold maybeAdvance maybeWitness
  split
  · exact toWitness_concludes
  · rw [idle_andThen]
    exact maybeFinalize_concludes

theorem driveTime_concludes (active : state.phase.isRoundActive = true) :
    (driveTime mode prims state).Yields (Concludes mode prims state) := by
  unfold driveTime
  cases phase_eq : state.phase <;> simp [phase_eq, Phase.isRoundActive] at active
  case roundTrain =>
    dsimp only
    split
    · exact .trapped
    · exact toWitness_concludes
    · exact rest_concludes
  case roundWitness =>
    dsimp only
    split
    · exact .trapped
    · intro after outputs driven
      refine .close state.phaseStartS [] outputs rfl rfl rfl ?_
      rw [← phase_eq]
      exact driven
    · exact rest_concludes

/-- A step takes frames in and concludes. -/
def Proceeds (mode : Overflow) (prims : Primitives) (state : CoordinatorState)
    (frames : List (PeerId × VhcMessage)) (outputs : List Output)
    (after : CoordinatorState) : Prop :=
  ∃ absorbed, absorbed.ledger = state.ledger ∧ Keeps absorbed frames ∧
    Concludes mode prims absorbed outputs after

/-- A handler that concludes from where the frames are taken in. -/
theorem Outcome.Yields.absorb {outcome : Outcome} (ledger_eq : absorbed.ledger = state.ledger)
    (keeps : Keeps absorbed frames) (concludes : outcome.Yields (Concludes mode prims absorbed)) :
    outcome.Yields (Proceeds mode prims state frames) :=
  fun _ _ reached => ⟨absorbed, ledger_eq, keeps, concludes _ _ reached⟩

section

variable (keeps : Keeps state frames)

include keeps

theorem Keeps.congr (rounds_eq : other.rounds = state.rounds)
    (round_eq : other.round = state.round) (seats_eq : other.ledger.seats = state.ledger.seats) :
    Keeps other frames := by
  unfold Keeps currentSlot
  rw [rounds_eq, round_eq, seats_eq]
  exact keeps

/-- A frame that no slot keeps leaves the evidence. -/
theorem Keeps.ignored (signer : PeerId) (payload : VhcMessage)
    (uncommitted : ∀ round peer, commitmentBy round peer (signer, payload) = none)
    (unattested : ∀ round witness, attestationBy round witness (signer, payload) = none)
    (unlisted : ∀ round, receiptEntriesBy round (signer, payload) = []) :
    Keeps state (frames ++ [(signer, payload)]) := by
  obtain ⟨slot, held, holds⟩ := keeps
  exact ⟨slot, held, holds.ignored (fun peer _ => uncommitted _ peer)
    (fun witness _ => unattested _ witness) (unlisted _)⟩

theorem Keeps.modify (round : Nat) (frame_eq : ∀ slot, (change slot).frame = slot.frame)
    (same : ∀ slot, Holds state.round state.ledger.seats frames slot →
      Holds state.round state.ledger.seats frames (change slot)) :
    Keeps { state with rounds := state.rounds.modify round change } frames := by
  obtain ⟨slot, held, holds⟩ := keeps
  by_cases current : round = state.round
  · subst current
    exact ⟨change slot,
      RoundRing.get_modify_self held (congrArg Frame.round (frame_eq slot)),
      same slot holds⟩
  · exact ⟨slot, RoundRing.get_modify_of_ne change held current, holds⟩

/-- New evidence for the current round, and what it allows. -/
theorem evidence_proceeds {more : List (PeerId × VhcMessage)}
    (frame_eq : ∀ slot, (change slot).frame = slot.frame)
    (holds : ∀ slot, currentSlot state = some slot →
      Holds state.round state.ledger.seats frames slot →
      Holds state.round state.ledger.seats (frames ++ more) (change slot)) :
    (maybeAdvance mode prims (updateSlot state change)).Yields
      (Proceeds mode prims state (frames ++ more)) := by
  obtain ⟨slot, held, held_frames⟩ := keeps
  refine .absorb (evidence_ledger state state.round frame_eq)
    ⟨change slot, ?_, holds slot held held_frames⟩ maybeAdvance_concludes
  exact RoundRing.get_modify_self held (congrArg Frame.round (frame_eq slot))

end

section

variable (active : state.phase.isRoundActive = true) (keeps : Keeps state frames)

include active keeps

theorem onCommitment_proceeds {commitment : Commitment} :
    (onCommitment mode prims state signer commitment).Yields
      (Proceeds mode prims state (frames ++ [(signer, .commitment commitment)])) := by
  unfold onCommitment
  rw [active]
  obtain ⟨slot, held, holds⟩ := keeps
  split
  · contradiction
  split
  · rename_i stale
    refine .absorb rfl ⟨slot, held, holds.ignored ?_ (fun _ _ => rfl) rfl⟩ reject_concludes
    intro peer _
    exact if_neg fun matched => stale matched.2
  split
  · rename_i unknown
    refine .absorb rfl ⟨slot, held, holds.ignored ?_ (fun _ _ => rfl) rfl⟩ reject_concludes
    intro peer healthy
    refine if_neg fun matched => ?_
    rw [← matched.1, ← state.isHealthyMember_iff] at healthy
    simp [healthy] at unknown
  · rename_i current _
    exact evidence_proceeds ⟨slot, held, holds⟩ (fun _ => rfl)
      fun _ _ holds => holds.commitment (not_not.mp current)

theorem onAttestation_proceeds {attestation : Attestation} :
    (onAttestation mode prims state signer attestation).Yields
      (Proceeds mode prims state (frames ++ [(signer, .attestation attestation)])) := by
  unfold onAttestation
  rw [active]
  obtain ⟨slot, held, holds⟩ := keeps
  have drawn : ((state.rounds.get state.round).any fun slot =>
      slot.witnesses.contains signer) = slot.witnesses.contains signer := by
    rw [show state.rounds.get state.round = some slot from held]
    rfl
  rw [drawn]
  split
  · contradiction
  split
  · rename_i stale
    refine .absorb rfl ⟨slot, held, holds.ignored (fun _ _ => rfl) ?_ rfl⟩ reject_concludes
    intro witness _
    exact if_neg fun matched => stale matched.2
  split
  · rename_i stranger
    refine .absorb rfl ⟨slot, held, holds.ignored (fun _ _ => rfl) ?_ rfl⟩ reject_concludes
    intro witness member
    refine if_neg fun matched => ?_
    rw [← matched.1] at member
    simp [member] at stranger
  · rename_i current witness
    refine evidence_proceeds ⟨slot, held, holds⟩ (fun _ => rfl) ?_
    intro other otherHeld holds
    obtain rfl := Option.some.inj (held.symm.trans otherHeld)
    exact holds.attestation (by simpa using witness) (not_not.mp current)

theorem onReceipt_proceeds {receipt : StorageReceipt} :
    (onReceipt mode prims state receipt).Yields
      (Proceeds mode prims state (frames ++ [(signer, .storageReceipt receipt)])) := by
  unfold onReceipt
  rw [active]
  split
  · contradiction
  split
  · rename_i stale
    obtain ⟨slot, held, holds⟩ := keeps
    exact .absorb rfl ⟨slot, held, holds.ignored (fun _ _ => rfl) (fun _ _ => rfl) (if_neg stale)⟩
      reject_concludes
  · rename_i current
    exact evidence_proceeds keeps (fun _ => rfl) fun _ _ holds => holds.receipt (not_not.mp current)

/-- A digest changes a slot, but not what it holds. -/
theorem onDigest_proceeds :
    (onDigest state signer digest).Yields
      (Proceeds mode prims state (frames ++ [(signer, .digest digest)])) := by
  unfold onDigest
  rw [active]
  have keeps := keeps.ignored signer (.digest digest) (fun _ _ => rfl) (fun _ _ => rfl) fun _ => rfl
  split
  · contradiction
  split
  · exact .absorb rfl keeps reject_concludes
  · refine .returned ⟨_, evidence_ledger state digest.round ?_, ?_, .rest (.of_silent ?_)⟩
    · exact fun _ => rfl
    · exact keeps.modify digest.round (fun _ => rfl) fun _ holds =>
        { holds with }
    · intro output member
      obtain ⟨entry, _, rfl⟩ := List.mem_map.mp member
      rfl

end

theorem replayForward_unopened (state : CoordinatorState) :
    (replayForward state).any opensRound = false := by
  simp [replayForward, opensRound, List.any_append]

/-- A join in an active round is staged or only replayed to. -/
theorem onJoin_proceeds (active : state.phase.isRoundActive = true) (keeps : Keeps state frames) :
    (onJoin state signer version join).Yields
      (Proceeds mode prims state (frames ++ [(signer, .join join)])) := by
  refine .absorb rfl (keeps.ignored signer (.join join) (fun _ _ => rfl) (fun _ _ => rfl)
    fun _ => rfl) ?_
  unfold onJoin
  split
  · exact .returned (.rest ⟨replayForward_unopened _, rfl, rfl, rfl, rfl⟩)
  · exact reject_concludes
  · have frozen : ¬(state.phase = .waitingForMembers ∨ state.phase = .warmup) := by
      rintro (forming | forming) <;> simp [forming, Phase.isRoundActive] at active
    simp only [if_neg frozen]
    exact .returned (.rest ⟨replayForward_unopened _, rfl, rfl, rfl, rfl⟩)

theorem onCheckpointAttestation_proceeds (keeps : Keeps state frames) :
    (onCheckpointAttestation prims state wire).Yields
      (Proceeds mode prims state (frames ++ [(signer, .checkpointAttestation wire)])) := by
  refine .absorb rfl (keeps.ignored signer (.checkpointAttestation wire) (fun _ _ => rfl)
    (fun _ _ => rfl) fun _ => rfl) ?_
  unfold onCheckpointAttestation
  split
  · exact reject_concludes
  split
  · exact reject_concludes
  · exact .returned (.rest ⟨rfl, rfl, rfl, rfl, rfl⟩)
  · exact .returned (.rest ⟨rfl, rfl, rfl, rfl, rfl⟩)

theorem dispatchPayload_proceeds {payload : VhcMessage}
    (active : state.phase.isRoundActive = true) (keeps : Keeps state frames) :
    (dispatchPayload mode prims state signer version payload).Yields
      (Proceeds mode prims state (frames ++ [(signer, payload)])) := by
  have stampedActive : (stampSigner state signer).phase.isRoundActive = true := active
  have stamped : Keeps (stampSigner state signer) frames := by
    refine keeps.congr rfl rfl ?_
    apply map_seat_updateMember
    exact fun _ => rfl
  -- a step of the stamped state is one of the state itself
  suffices proceeds : (handlePayload mode prims (stampSigner state signer) signer version
      payload).Yields (Proceeds mode prims (stampSigner state signer)
        (frames ++ [(signer, payload)])) by
    intro after outputs handled
    obtain ⟨absorbed, ledger_eq, kept, concludes⟩ := proceeds _ _ handled
    exact ⟨absorbed, ledger_eq.trans (stampSigner_ledger state signer), kept, concludes⟩
  cases payload with
  | join join => exact onJoin_proceeds stampedActive stamped
  | commitment commitment => exact onCommitment_proceeds stampedActive stamped
  | attestation attestation => exact onAttestation_proceeds stampedActive stamped
  | storageReceipt receipt => exact onReceipt_proceeds stampedActive stamped
  | digest digest => exact onDigest_proceeds stampedActive stamped
  | straggle straggle =>
    refine .absorb rfl (stamped.ignored signer _ (fun _ _ => rfl) (fun _ _ => rfl) fun _ => rfl)
      (.returned (.rest ⟨rfl, rfl, rfl, ?_, rfl⟩))
    apply map_seat_updateMember
    exact fun _ => rfl
  | heartbeat heartbeat =>
    change (maybeExitWarmup mode prims _).Yields _
    unfold maybeExitWarmup
    split
    · rename_i warming
      have warming : state.phase = .warmup := warming.1
      simp [warming, Phase.isRoundActive] at active
    · refine .absorb rfl (stamped.ignored signer _ (fun _ _ => rfl) (fun _ _ => rfl) fun _ => rfl)
        (.returned (.rest ⟨rfl, rfl, rfl, ?_, rfl⟩))
      apply map_seat_updateMember
      exact fun _ => rfl
  | checkpointAttestation wire => exact onCheckpointAttestation_proceeds stamped
  | roundOpen | roundRecord | finished =>
    exact .absorb rfl (stamped.ignored signer _ (fun _ _ => rfl) (fun _ _ => rfl) fun _ => rfl)
      reject_concludes

/-- Every step in an active round takes its frame in and concludes. -/
theorem tick_proceeds (active : state.phase.isRoundActive = true) (keeps : Keeps state frames) :
    (tick mode prims state input).Yields
      (Proceeds mode prims state (frames ++ input.authentic prims state.config)) := by
  have running : state.phase.isHalted = false := by
    cases phase_eq : state.phase <;> simp_all [Phase.isRoundActive, Phase.isHalted]
  cases input with
  | clock now =>
    have driven : tick mode prims state (.clock now) =
        driveTime mode prims (observeClock state now) := by
      simp [tick, onClock, running]
    have observed : (observeClock state now).phase.isRoundActive = true := active
    have kept : Keeps (observeClock state now) frames := keeps.congr rfl rfl rfl
    have unheard : frames ++ Input.authentic prims state.config (.clock now) = frames :=
      List.append_nil _
    rw [driven, unheard]
    refine .absorb ?_ kept (driveTime_concludes observed)
    rfl
  | control request =>
    have unheard : frames ++ Input.authentic prims state.config (.control request) = frames :=
      List.append_nil _
    rw [unheard]
    refine .absorb rfl keeps ?_
    change (onControl prims state request).Yields _
    unfold onControl
    split
    · exact reject_concludes
    split
    · exact reject_concludes
    split
    · exact reject_concludes
    split
    · rw [running]
      exact .returned (.rest ⟨rfl, rfl, rfl, rfl, rfl⟩)
    · split
      · rename_i paused
        simp [paused, Phase.isRoundActive] at active
      · exact reject_concludes
  | message frame =>
    change (onMessage mode prims state frame).Yields _
    unfold onMessage
    split
    · rename_i foreign
      rw [Input.authentic, if_neg fun checked => foreign checked.1, List.append_nil]
      exact .absorb rfl keeps reject_concludes
    rename_i version_eq
    split
    · rename_i forged
      rw [Input.authentic, if_neg fun checked => by simp [checked.2] at forged, List.append_nil]
      exact .absorb rfl keeps reject_concludes
    rename_i verified
    have authentic : Input.authentic prims state.config (.message frame) =
        [(frame.signer, frame.payload)] :=
      if_pos ⟨not_not.mp version_eq, by simpa using verified⟩
    rw [authentic, running]
    exact dispatchPayload_proceeds active keeps

/-- A round opened afresh keeps no frames. -/
theorem openRound_keeps (opened : openRound mode prims state = some (after, outputs)) :
    outputs.any opensRound = true ∧ Keeps after [] := by
  obtain ⟨stop, deadline, _, _, rfl, rfl⟩ := openRound_eq_some opened
  refine ⟨rfl, _, RoundRing.get_install_self _ _, ?_⟩
  exact Holds.opened _ _ _ _ _

/-- Finalising a stored round leaves the active phases or opens the next
round. -/
theorem finalizeRound_keeps (finalized : finalizeRound mode prims state = some (after, outputs))
    (held : currentSlot state = some slot) (active : after.phase.isRoundActive = true) :
    outputs.any opensRound = true ∧ Keeps after [] := by
  obtain ⟨accounted, roundsDone, nextRound, later, _, _, _, decided, rfl⟩ :=
    finalizeRound_eq_some held finalized
  unfold decideNext at decided
  split at decided
  · cases decided
    simp [Phase.isRoundActive] at active
  split at decided
  · cases decided
    simp [Phase.isRoundActive] at active
  · obtain ⟨opens, keeps⟩ := openRound_keeps decided
    exact ⟨by rw [List.any_append, opens, Bool.or_true], keeps⟩

/-- A step outside the active rounds stays outside or opens a round. -/
def OpensOnly (mode : Overflow) (prims : Primitives) (done : Nat)
    (outputs : List Output) (after : CoordinatorState) : Prop :=
  (after.phase.isRoundActive = false ∧ after.roundsDone = done) ∨
    ∃ before, openRound mode prims before = some (after, outputs) ∧ before.roundsDone = done

section

variable (idle : state.phase.isRoundActive = false)

include idle

theorem rest_opensOnly :
    Outcome.Yields (some (state, outputs)) (OpensOnly mode prims state.roundsDone) :=
  .returned (.inl ⟨idle, rfl⟩)

theorem driveTime_opensOnly :
    (driveTime mode prims state).Yields (OpensOnly mode prims state.roundsDone) := by
  unfold driveTime
  split
  · intro after outputs driven
    obtain ⟨middle, earlier, later, decayed, entered, rfl⟩ := andThen_eq_some_iff.mp driven
    obtain ⟨decay, _, rfl, _⟩ := decayStaleMembers_eq_some decayed
    left
    split at entered
    · cases entered
      exact ⟨rfl, rfl⟩
    · cases entered
      exact ⟨idle, rfl⟩
  · split
    · exact .returned (.inl ⟨rfl, rfl⟩)
    split
    · exact .trapped
    · exact fun _ _ driven => .inr ⟨_, driven, rfl⟩
    · exact rest_opensOnly idle
  · rename_i training
    rw [training] at idle
    cases idle
  · rename_i witnessing
    rw [witnessing] at idle
    cases idle
  · split
    · exact .trapped
    · unfold exitCooldown
      split
      · exact .returned (.inl ⟨rfl, rfl⟩)
      · split
        · exact .trapped
        · exact .returned (.inl ⟨rfl, rfl⟩)
    · exact rest_opensOnly idle
  all_goals exact rest_opensOnly idle

theorem handlePayload_opensOnly :
    (handlePayload mode prims state signer version payload).Yields
      (OpensOnly mode prims state.roundsDone) := by
  cases payload with
  | join join =>
    dsimp only [handlePayload, onJoin]
    split
    · exact rest_opensOnly idle
    · exact rest_opensOnly idle
    · split <;> exact .returned (.inl ⟨idle, rfl⟩)
  | commitment =>
    rw [handlePayload, onCommitment, idle]
    exact rest_opensOnly idle
  | attestation =>
    rw [handlePayload, onAttestation, idle]
    exact rest_opensOnly idle
  | storageReceipt =>
    rw [handlePayload, onReceipt, idle]
    exact rest_opensOnly idle
  | digest =>
    rw [handlePayload, onDigest, idle]
    exact rest_opensOnly idle
  | straggle => exact .returned (.inl ⟨idle, rfl⟩)
  | heartbeat =>
    rw [handlePayload, onHeartbeat, maybeExitWarmup]
    split
    · exact fun _ _ opened => .inr ⟨_, opened, rfl⟩
    · exact .returned (.inl ⟨idle, rfl⟩)
  | checkpointAttestation wire =>
    rw [handlePayload, onCheckpointAttestation]
    split
    · exact rest_opensOnly idle
    split <;> exact .returned (.inl ⟨idle, rfl⟩)
  | roundOpen | roundRecord | finished => exact rest_opensOnly idle

/-- Outside the active rounds, a step that leads into one opens it. -/
theorem tick_opensOnly :
    (tick mode prims state input).Yields (OpensOnly mode prims state.roundsDone) := by
  cases input with
  | clock now =>
    have observed : (observeClock state now).phase.isRoundActive = false := idle
    change (onClock mode prims state now).Yields
      (OpensOnly mode prims (observeClock state now).roundsDone)
    unfold onClock
    split
    · exact rest_opensOnly observed
    · exact driveTime_opensOnly observed
  | control request =>
    change (onControl prims state request).Yields _
    unfold onControl
    repeat' split
    all_goals first | exact .returned (.inl ⟨rfl, rfl⟩) | exact rest_opensOnly idle
  | message frame =>
    have stamped : (stampSigner state frame.signer).phase.isRoundActive = false := idle
    change (onMessage mode prims state frame).Yields _
    unfold onMessage
    repeat' split
    all_goals first | exact handlePayload_opensOnly stamped | exact rest_opensOnly idle

end

end Steps

/-- In every reachable state with an active round, the slot holds what was
received since the round was last opened. -/
theorem TickRun.keeps (run : TickRun mode prims config seed nowS trace state)
    (active : state.phase.isRoundActive = true) :
    Keeps state (framesSinceOpening prims config trace) := by
  induction run with
  | nil => cases active
  | @snoc trace state input after outputs run stepped keeps =>
    simp only [framesSinceOpening, List.foldl_append, List.foldl_cons, List.foldl_nil]
    cases before : state.phase.isRoundActive with
    | false =>
      rcases tick_opensOnly before _ _ stepped with ⟨idle, _⟩ | ⟨_, opened, _⟩
      · rw [idle] at active
        cases active
      · obtain ⟨opens, fresh⟩ := openRound_keeps opened
        rw [opens]
        exact fresh
    | true =>
      obtain ⟨absorbed, ledger_eq, kept, concludes⟩ :=
        tick_proceeds before (keeps before) _ _ stepped
      rw [TickRun.config_eq run] at kept
      cases concludes with
      | rest rests =>
        rw [rests.unopened]
        exact kept.congr rests.rounds_eq rests.round_eq rests.seats_eq
      | close start earlier closing _ _ outputs_eq closed =>
        obtain ⟨slot, held, _⟩ := kept
        obtain ⟨opens, fresh⟩ := finalizeRound_keeps closed held active
        rw [outputs_eq, List.any_append, opens, Bool.or_true]
        exact fresh

end DaemonNode.Coordinator
