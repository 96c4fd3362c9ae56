import DaemonNode.Lib.Linked
import DaemonNode.Lib.Machine
import DaemonNode.Proto.Bytes

/-!
# The transition chain

A run is founded by a genesis envelope and amended by upgrade records. Each
record replaces the module of one role, establishes the next epoch, names the
hash of its predecessor and carries the signatures of the upgrade authority.

The hash of a record is the hash of its body. So the head of a chain binds the
bodies of its records, and which of several sufficient signature lists came with
a body is not bound.
-/

namespace DaemonNode

open Bytes (fill)
open Machine

/-- The domain tag of an upgrade-record body. -/
def upgradeRecordDomainV2 : String := "daemon-vhc/upgrade/2"

/-- Why a chain operation was refused. -/
inductive TransitionError
  | wrongDomain (got : String)
  | runMismatch
  | nonMonotoneEpoch (got expected : Nat)
  | brokenChain
  | unknownRole (role : String)
  | staleOldModule (role : String)
  | notAuthorized (found need : Nat)
  | noAuthority
  | badThreshold (threshold keys : Nat)
  | missingModuleArtifact (role : String)
  | codec (reason : String)
  deriving DecidableEq

/-- One authority signature. -/
structure UpgradeSig where
  signer : PeerId
  sig : Signature
  deriving DecidableEq

structure UpgradeRecordBody where
  domain : String
  runId : Hash
  epoch : Nat
  prev : Hash
  role : String
  (oldModule newModule : Hash)
  fence : Nat
  (grantsHash configHash : Hash)
  deriving DecidableEq

/-- An upgrade record: a body and its signatures. -/
@[ext] structure UpgradeRecord where
  body : UpgradeRecordBody
  sigs : List UpgradeSig
  deriving DecidableEq

/-- What the chain calls: the canonical encoding of a body, the content hash,
and ed25519 verification over an encoded body. -/
structure UpgradePrimitives where
  /-- The canonical encoding, or the text of its failure. -/
  encode : UpgradeRecordBody → Except String (List Byte)
  blake3 : List Byte → Hash
  verify : PeerId → Signature → UpgradeRecordBody → Bool

/-- The upgrade authority: so many distinct signatures of these keys. -/
structure UpgradeAuthority where
  keys : List PeerId
  threshold : Nat
  threshold_pos : 0 < threshold
  threshold_le : threshold ≤ keys.length

namespace UpgradeAuthority

def single (key : PeerId) : UpgradeAuthority where
  keys := [key]
  threshold := 1
  threshold_pos := Nat.one_pos
  threshold_le := le_rfl

/-- The signers credited so far, with one more signature looked at. -/
def credit (prims : UpgradePrimitives) (authority : UpgradeAuthority)
    (body : UpgradeRecordBody) (credited : List PeerId) (entry : UpgradeSig) :
    List PeerId :=
  if authority.keys.contains entry.signer = false then credited
  else if credited.contains entry.signer then credited
  else if prims.verify entry.signer entry.sig body then credited ++ [entry.signer]
  else credited

/-- Check that enough distinct authority keys signed the body. -/
def authorize (prims : UpgradePrimitives) (authority : UpgradeAuthority)
    (body : UpgradeRecordBody) (sigs : List UpgradeSig) : Except TransitionError Unit :=
  let credited := sigs.foldl (authority.credit prims body) []
  if authority.threshold ≤ credited.length then .ok ()
  else .error (.notAuthorized credited.length authority.threshold)

end UpgradeAuthority

/-- The chain link of a body. -/
def UpgradeRecordBody.hash (prims : UpgradePrimitives) (body : UpgradeRecordBody) :
    Except TransitionError Hash :=
  ((prims.encode body).mapError .codec).map prims.blake3

/-- The chain link of a record is that of its body. -/
def UpgradeRecord.hash (prims : UpgradePrimitives) (record : UpgradeRecord) :
    Except TransitionError Hash :=
  record.body.hash prims

/-- A role of the genesis envelope. -/
structure RoleEntry where
  moduleName : String

/-- A pinned artifact. -/
structure SnapshotArtifact where
  blake3 : Hash

/-- The parts of a genesis envelope a chain reads. -/
structure GenesisEnvelope where
  roles : Std.ExtTreeMap String RoleEntry
  artifacts : Std.ExtTreeMap String SnapshotArtifact

/-- The head of a chain at a point in time. -/
structure EpochDescriptor where
  runId : Hash
  epoch : Nat
  modules : Std.ExtTreeMap String Hash
  /-- The link the next record must carry. -/
  head : Hash

/-- The genesis anchor and the records committed since. -/
structure TransitionChain where
  runId : Hash
  epoch : Nat
  modules : Std.ExtTreeMap String Hash
  head : Hash
  records : List UpgradeRecord

namespace TransitionChain

def resolve (envelope : GenesisEnvelope) (modules : Std.ExtTreeMap String Hash)
    (entry : String × RoleEntry) : Except TransitionError (Std.ExtTreeMap String Hash) :=
  match envelope.artifacts[entry.2.moduleName]? with
  | none => .error (.missingModuleArtifact entry.1)
  | some artifact => .ok (modules.insert entry.1 artifact.blake3)

/-- Anchor a chain at genesis. -/
def genesis (envelope : GenesisEnvelope) (runId : Hash) :
    Except TransitionError TransitionChain :=
  (envelope.roles.toList.foldlM (resolve envelope) ∅).map fun modules =>
    { runId := runId, epoch := 0, modules := modules, head := runId, records := [] }

section

variable (prims : UpgradePrimitives) (chain : TransitionChain) (record : UpgradeRecord)

def descriptor : EpochDescriptor where
  runId := chain.runId
  epoch := chain.epoch
  modules := chain.modules
  head := chain.head

/-- The chain with a record committed under its link. -/
def commit (link : Hash) : TransitionChain where
  runId := chain.runId
  epoch := record.body.epoch
  modules := chain.modules.insert record.body.role record.body.newModule
  head := link
  records := chain.records ++ [record]

/-- The checks a record passes before the chain changes. -/
def check (authority : UpgradeAuthority) : Except TransitionError Unit :=
  let body := record.body
  if body.domain ≠ upgradeRecordDomainV2 then .error (.wrongDomain body.domain)
  else if body.runId ≠ chain.runId then .error .runMismatch
  else if body.epoch ≠ chain.epoch + 1 then .error (.nonMonotoneEpoch body.epoch (chain.epoch + 1))
  else if body.prev ≠ chain.head then .error .brokenChain
  else
    match chain.modules[body.role]? with
    | none => .error (.unknownRole body.role)
    | some current =>
      if current ≠ body.oldModule then .error (.staleOldModule body.role)
      else authority.authorize prims body record.sigs

/-- Validate a record and append it. -/
def append (authority : UpgradeAuthority) :
    TransitionChain × Except TransitionError EpochDescriptor :=
  match chain.check prims record authority with
  | .error refusal => (chain, .error refusal)
  | .ok _ =>
    match record.hash prims with
    | .error refusal => (chain, .error refusal)
    | .ok link =>
      let committed := chain.commit record link
      (committed, .ok committed.descriptor)

end

/-- Append, keeping only a chain that was extended. -/
def appendOk (prims : UpgradePrimitives) (authority : UpgradeAuthority)
    (chain : TransitionChain) (record : UpgradeRecord) :
    Except TransitionError TransitionChain :=
  match chain.append prims record authority with
  | (_, .error refusal) => .error refusal
  | (after, .ok _) => .ok after

/-- Rebuild a chain from genesis. -/
def replay (prims : UpgradePrimitives) (envelope : GenesisEnvelope) (runId : Hash)
    (records : List UpgradeRecord) (authority : UpgradeAuthority) :
    Except TransitionError TransitionChain :=
  (genesis envelope runId).bind fun chain =>
    records.foldlM (appendOk prims authority) chain

/-- What a committed record satisfied. -/
structure Admitted (prims : UpgradePrimitives) (chain : TransitionChain)
    (record : UpgradeRecord) (authority : UpgradeAuthority) (link : Hash) : Prop where
  domain : record.body.domain = upgradeRecordDomainV2
  run : record.body.runId = chain.runId
  epoch : record.body.epoch = chain.epoch + 1
  prev : record.body.prev = chain.head
  replaces : chain.modules[record.body.role]? = some record.body.oldModule
  authorized : authority.authorize prims record.body record.sigs = .ok ()
  hashed : record.hash prims = .ok link

/-- The outcomes of an append: refused without change, or committed. -/
inductive Outcome (prims : UpgradePrimitives) (chain : TransitionChain)
    (record : UpgradeRecord) (authority : UpgradeAuthority) :
    TransitionChain × Except TransitionError EpochDescriptor → Prop
  | refused {refusal} : Outcome prims chain record authority (chain, .error refusal)
  | committed {link} :
      Admitted prims chain record authority link →
      Outcome prims chain record authority
        (chain.commit record link, .ok (chain.commit record link).descriptor)

theorem append_outcome :
    Outcome prims chain record authority (chain.append prims record authority) := by
  unfold append
  split
  · exact .refused
  rename_i checked
  split
  · exact .refused
  rename_i link hashed
  apply Outcome.committed
  simp only [check, Checks.refuse_eq_ok_iff, ne_eq, not_not] at checked
  obtain ⟨domain, run, epoch, prev, checked⟩ := checked
  split at checked
  · simp at checked
  rename_i current found
  rw [Checks.refuse_eq_ok_iff, not_not] at checked
  obtain ⟨rfl, authorized⟩ := checked
  exact ⟨domain, run, epoch, prev, found, authorized, hashed⟩

section Genesis

variable {runId : Hash}

/-- A chain at genesis has committed nothing. -/
theorem genesis_anchor (founded : genesis envelope runId = .ok origin) :
    origin.runId = runId ∧ origin.epoch = 0 ∧ origin.head = runId ∧ origin.records = [] := by
  unfold genesis at founded
  cases resolved : envelope.roles.toList.foldlM (resolve envelope) ∅ with
  | error refusal => simp [resolved, Except.map] at founded
  | ok modules =>
    rw [resolved] at founded
    cases founded
    exact ⟨rfl, rfl, rfl, rfl⟩

end Genesis

/-- A record offered to a chain, with the authority it is judged by. -/
structure AppendRequest where
  record : UpgradeRecord
  authority : UpgradeAuthority

/-- The chain as a machine that answers each append with its result. -/
def appender (prims : UpgradePrimitives) :
    StepFunction TransitionChain AppendRequest (Except TransitionError EpochDescriptor) :=
  fun chain request =>
    let (after, result) := chain.append prims request.record request.authority
    some (after, [result])

/-- A recorded append. -/
abbrev AppendStep :=
  Step TransitionChain AppendRequest (Except TransitionError EpochDescriptor)

def succeeded (step : AppendStep) : Bool :=
  match step.output with
  | [.ok _] => true
  | _ => false

/-- The records a run accepted, oldest first. -/
def accepted (trace : List AppendStep) : List UpgradeRecord :=
  (trace.filter succeeded).map fun step => step.input.record

def link (prims : UpgradePrimitives) (body : UpgradeRecordBody) : Option Hash :=
  (body.hash prims).toOption

def applyBinding (modules : Std.ExtTreeMap String Hash) (record : UpgradeRecord) :
    Std.ExtTreeMap String Hash :=
  modules.insert record.body.role record.body.newModule

/-- What a chain that grew from `origin` by the accepted records looks like. -/
structure Recorded (prims : UpgradePrimitives) (origin : TransitionChain)
    (accepted : List UpgradeRecord) (chain : TransitionChain) : Prop where
  run : chain.runId = origin.runId
  records : chain.records = accepted
  epoch : chain.epoch = accepted.length
  chained : Linked.Chained (link prims) UpgradeRecordBody.prev origin.runId
    (accepted.map UpgradeRecord.body) chain.head
  modules : chain.modules = accepted.foldl applyBinding origin.modules
  roles : ∀ role, role ∈ chain.modules ↔ role ∈ origin.modules

section Runs

variable {runId : Hash}

theorem Recorded.initial (founded : genesis envelope runId = .ok origin) :
    Recorded prims origin [] origin := by
  obtain ⟨run, epoch, head, records⟩ := genesis_anchor founded
  refine ⟨rfl, records, epoch, ?_, rfl, fun _ => Iff.rfl⟩
  rw [head, run]
  exact .nil

theorem Recorded.commit {accepted : List UpgradeRecord}
    (recorded : Recorded prims origin accepted chain)
    (admitted : Admitted prims chain record authority next) :
    Recorded prims origin (accepted ++ [record]) (chain.commit record next) where
  run := recorded.run
  records := by
    rw [TransitionChain.commit, recorded.records]
  epoch := by
    rw [TransitionChain.commit, admitted.epoch, recorded.epoch, List.length_append,
      List.length_singleton]
  chained := by
    rw [List.map_append, List.map_singleton]
    refine .snoc recorded.chained admitted.prev ?_
    have hashed : record.body.hash prims = .ok next := admitted.hashed
    rw [link, hashed]
    rfl
  modules := by
    rw [TransitionChain.commit, recorded.modules, List.foldl_append]
    rfl
  roles := by
    intro role
    rw [← recorded.roles, TransitionChain.commit, Std.ExtTreeMap.mem_insert,
      Std.LawfulEqOrd.compare_eq_iff_eq]
    refine ⟨?_, .inr⟩
    rintro (rfl | member)
    · exact Std.ExtTreeMap.mem_iff_isSome_getElem?.mpr (by rw [admitted.replaces]; rfl)
    · exact member

/-- One append: a success commits the record it was given, anything else leaves
the chain. -/
theorem appender_step (stepped : graph (appender prims) chain request output after) :
    (succeeded ⟨chain, request, after, output⟩ = true ∧
      ∃ next, Admitted prims chain request.record request.authority next ∧
        after = chain.commit request.record next) ∨
    (succeeded ⟨chain, request, after, output⟩ = false ∧ after = chain) := by
  obtain ⟨record, authority⟩ := request
  have outcome : Outcome prims chain record authority (chain.append prims record authority) :=
    append_outcome
  simp only [graph, appender, Option.some.injEq, Prod.mk.injEq] at stepped
  obtain ⟨rfl, rfl⟩ := stepped
  generalize chain.append prims record authority = result at outcome
  cases outcome with
  | refused => exact .inr ⟨rfl, rfl⟩
  | committed admitted => exact .inl ⟨rfl, _, admitted, rfl⟩

theorem appendOk_of_succeeded (stepped : graph (appender prims) chain request output after)
    (success : succeeded ⟨chain, request, after, output⟩ = true) :
    appendOk prims request.authority chain request.record = .ok after := by
  simp only [graph, appender, Option.some.injEq, Prod.mk.injEq] at stepped
  obtain ⟨rfl, rfl⟩ := stepped
  unfold appendOk
  generalize chain.append prims request.record request.authority = result at success ⊢
  obtain ⟨after, refusal | described⟩ := result
  · exact absurd success Bool.false_ne_true
  · rfl

theorem accepted_concat (trace : List AppendStep) (step : AppendStep) :
    accepted (trace ++ [step]) =
      accepted trace ++ if succeeded step then [step.input.record] else [] := by
  rw [accepted, List.filter_append, List.map_append, List.filter_singleton]
  cases succeeded step with
  | false | true => rfl

/-- Every run keeps the chain as its accepted records say. -/
theorem recorded_of_run (founded : genesis envelope runId = .ok origin)
    (run : Run (graph (appender prims)) origin trace chain) :
    Recorded prims origin (accepted trace) chain := by
  refine run.history (fun trace chain => Recorded prims origin (accepted trace) chain)
    (.initial founded) ?_
  intro trace chain request after output _ recorded stepped
  rw [accepted_concat]
  rcases appender_step stepped with ⟨success, next, admitted, rfl⟩ | ⟨failure, rfl⟩
  · rw [success]
    exact recorded.commit admitted
  · rw [failure]
    simpa using recorded

/-- Replaying the accepted records under the authority that admitted them
rebuilds the chain. -/
theorem replay_of_run (founded : genesis envelope runId = .ok origin)
    (run : Run (graph (appender prims)) origin trace chain)
    (judged : ∀ step ∈ trace, succeeded step = true → step.input.authority = authority) :
    replay prims envelope runId (accepted trace) authority = .ok chain := by
  rw [replay, founded]
  change (accepted trace).foldlM (appendOk prims authority) origin = .ok chain
  induction run with
  | nil => rfl
  | @snoc trace chain request after output earlier stepped ih =>
    obtain ⟨sooner, last⟩ := Lists.forall_mem_concat.mp judged
    rw [accepted_concat, List.foldlM_append, ih sooner]
    rcases appender_step stepped with ⟨success, next, admitted, same⟩ | ⟨failure, same⟩
    · have isAuthority := last success
      rw [success, if_pos rfl]
      change (appendOk prims authority chain request.record).bind _ = .ok after
      rw [← isAuthority, appendOk_of_succeeded stepped success]
      rfl
    · rw [failure, same]
      rfl

theorem hash_of_link (linked : link prims body = some next) : body.hash prims = .ok next := by
  unfold link at linked
  cases hashed : body.hash prims with
  | error refusal =>
    rw [hashed] at linked
    exact absurd linked (by simp [Except.toOption])
  | ok value =>
    rw [hashed] at linked
    exact congrArg Except.ok (Option.some.inj linked)

/-- Two recorded chains with one head have the same bodies, unless hashes
collide. -/
theorem Recorded.bodies_eq (recorded : Recorded prims origin mine chain)
    (otherRecorded : Recorded prims origin theirs other) (sameHead : chain.head = other.head)
    (fresh : ∀ record ∈ mine ++ theirs, record.hash prims ≠ .ok origin.runId)
    (injective : ∀ left ∈ mine, ∀ right ∈ theirs,
      left.hash prims = right.hash prims → left.body = right.body) :
    mine.map UpgradeRecord.body = theirs.map UpgradeRecord.body := by
  have otherChained := otherRecorded.chained
  rw [← sameHead] at otherChained
  apply recorded.chained.eq_of_head_eq otherChained
  · intro body member otherBody otherMember shared linked otherLinked
    obtain ⟨left, leftMember, rfl⟩ := List.mem_map.mp member
    obtain ⟨right, rightMember, rfl⟩ := List.mem_map.mp otherMember
    apply injective left leftMember right rightMember
    exact (hash_of_link linked).trans (hash_of_link otherLinked).symm
  · intro body member linked
    rw [← List.map_append] at member
    obtain ⟨record, recordMember, rfl⟩ := List.mem_map.mp member
    exact fresh record recordMember (hash_of_link linked)

/-- Lists of records with the same bodies are equal where record hashes do not
collide. -/
theorem records_eq_of_bodies_eq {mine theirs : List UpgradeRecord}
    (sameBodies : mine.map UpgradeRecord.body = theirs.map UpgradeRecord.body)
    (injective : ∀ left ∈ mine, ∀ right ∈ theirs,
      left.hash prims = right.hash prims → left = right) :
    mine = theirs := by
  have sameLength : mine.length = theirs.length := by
    simpa using congrArg List.length sameBodies
  apply List.ext_getElem sameLength
  intro index inside otherInside
  apply injective _ (List.getElem_mem inside) _ (List.getElem_mem otherInside)
  have sameBody : mine[index].body = theirs[index].body := by
    have mapped : index < (mine.map UpgradeRecord.body).length := by
      rwa [List.length_map]
    simpa using List.getElem_of_eq sameBodies mapped
  rw [UpgradeRecord.hash, UpgradeRecord.hash, sameBody]

/-- The upgrade history is atomic and binds the record bodies. For every run of
appends from genesis the chain is what its accepted records say, a failed append
changes nothing, and replaying the accepted records rebuilds the chain. If no two
bodies of two chains collide and none hashes to the run identity, equal heads mean
equal lists of bodies, and equal lists of records where record hashes do not
collide either. -/
theorem transition_history_atomic_and_binding (founded : genesis envelope runId = .ok origin)
    (run : Run (graph (appender prims)) origin trace chain) :
    chain.records = accepted trace ∧
    chain.epoch = (accepted trace).length ∧
    ((accepted trace = [] ∧ chain.head = runId) ∨
      ∃ record ∈ (accepted trace).getLast?, record.hash prims = .ok chain.head) ∧
    chain.modules = (accepted trace).foldl applyBinding origin.modules ∧
    (∀ role, role ∈ chain.modules ↔ role ∈ origin.modules) ∧
    (∀ step ∈ trace, succeeded step = false → step.after = step.before) ∧
    (∀ authority,
      (∀ step ∈ trace, succeeded step = true → step.input.authority = authority) →
      replay prims envelope runId (accepted trace) authority = .ok chain) ∧
    (∀ otherTrace other,
      Run (graph (appender prims)) origin otherTrace other →
      chain.head = other.head →
      (∀ record ∈ chain.records ++ other.records, record.hash prims ≠ .ok runId) →
      (∀ mine ∈ chain.records, ∀ theirs ∈ other.records,
        mine.hash prims = theirs.hash prims → mine.body = theirs.body) →
      chain.records.map UpgradeRecord.body = other.records.map UpgradeRecord.body ∧
      ((∀ mine ∈ chain.records, ∀ theirs ∈ other.records,
          mine.hash prims = theirs.hash prims → mine = theirs) →
        chain.records = other.records)) := by
  have recorded := recorded_of_run founded run
  obtain ⟨isRun, -, -, -⟩ := genesis_anchor founded
  refine ⟨recorded.records, recorded.epoch, ?_, recorded.modules, recorded.roles, ?_, ?_, ?_⟩
  · rcases recorded.chained.head_eq with ⟨empty, head⟩ | ⟨body, last, linked⟩
    · exact .inl ⟨List.map_eq_nil_iff.mp empty, head.trans isRun⟩
    · rw [List.getLast?_map, Option.mem_def, Option.map_eq_some_iff] at last
      obtain ⟨record, isLast, rfl⟩ := last
      exact .inr ⟨record, isLast, hash_of_link linked⟩
  · intro step member failure
    rcases appender_step (run.before_reached member).2 with ⟨success, -⟩ | ⟨-, same⟩
    · exact absurd (success.symm.trans failure) (by decide)
    · exact same
  · intro authority judged
    exact replay_of_run founded run judged
  · intro otherTrace other otherRun sameHead fresh injective
    have otherRecorded := recorded_of_run founded otherRun
    rw [recorded.records, otherRecorded.records] at fresh injective ⊢
    have sameBodies := recorded.bodies_eq otherRecorded sameHead (isRun ▸ fresh) injective
    exact ⟨sameBodies, records_eq_of_bodies_eq sameBodies⟩

end Runs

/-- Primitives whose hash is constant and under which every signature
verifies. -/
def constantPrimitives (hash : Hash) : UpgradePrimitives where
  encode := fun _ => .ok []
  blake3 := fun _ => hash
  verify := fun _ _ _ => true

def oneRole : GenesisEnvelope where
  roles := (∅ : Std.ExtTreeMap String RoleEntry).insert "worker" ⟨"worker-mod"⟩
  artifacts := (∅ : Std.ExtTreeMap String SnapshotArtifact).insert "worker-mod" ⟨fill 32 1⟩

def oneRoleChain : TransitionChain where
  runId := fill 32 0
  epoch := 0
  modules := (∅ : Std.ExtTreeMap String Hash).insert "worker" (fill 32 1)
  head := fill 32 0
  records := []

theorem oneRole_founded : genesis oneRole (fill 32 0) = .ok oneRoleChain := by
  rfl

/-- An upgrade of the one role, signed as often as asked. -/
def oneUpgrade (signatures : Nat) : UpgradeRecord where
  body :=
    { domain := upgradeRecordDomainV2
      runId := fill 32 0
      epoch := 1
      prev := fill 32 0
      role := "worker"
      oldModule := fill 32 1
      newModule := fill 32 2
      fence := 0
      grantsHash := fill 32 0
      configHash := fill 32 0 }
  sigs := List.replicate signatures ⟨fill 32 7, fill 64 0⟩

theorem oneUpgrade_run :
    ∀ hash ∈ [(0 : Byte), 9], ∀ signatures ∈ [1, 2],
      ∃ trace chain,
        Run (graph (appender (constantPrimitives (fill 32 hash)))) oneRoleChain trace chain ∧
        chain.records = [oneUpgrade signatures] ∧ chain.head = fill 32 hash := by
  intro hash hashMember signatures signaturesMember
  apply Run.of_checked_exec _ _ [⟨oneUpgrade signatures, .single (fill 32 7)⟩]
  revert hash signatures
  decide +kernel

/-- A constant hash other than the run identity is not taken for it. -/
theorem constantPrimitives_hash_ne (record : UpgradeRecord) :
    record.hash (constantPrimitives (fill 32 9)) ≠ .ok (fill 32 0) := by
  intro hashed
  have same : fill 32 9 = (fill 32 0 : Hash) := Except.ok.inj hashed
  exact absurd same (by decide)

/-- A head binds neither the signatures of a record nor, since the head of an
empty chain is the run identity, that there is a record at all. -/
theorem heads_leave_signatures_open :
    (∃ prims trace chain otherTrace other,
      genesis oneRole (fill 32 0) = .ok oneRoleChain ∧
      Run (graph (appender prims)) oneRoleChain trace chain ∧
      Run (graph (appender prims)) oneRoleChain otherTrace other ∧
      (∀ mine ∈ chain.records, ∀ theirs ∈ other.records,
        mine.hash prims = theirs.hash prims → mine.body = theirs.body) ∧
      (∀ record ∈ chain.records ++ other.records, record.hash prims ≠ .ok (fill 32 0)) ∧
      chain.head = other.head ∧ chain.records ≠ other.records) ∧
    (∃ prims trace chain otherTrace other,
      genesis oneRole (fill 32 0) = .ok oneRoleChain ∧
      Run (graph (appender prims)) oneRoleChain trace chain ∧
      Run (graph (appender prims)) oneRoleChain otherTrace other ∧
      (∀ mine ∈ chain.records ++ other.records, ∀ theirs ∈ chain.records ++ other.records,
        mine.hash prims = theirs.hash prims → mine = theirs) ∧
      chain.head = other.head ∧ chain.records ≠ other.records) := by
  constructor
  · obtain ⟨trace, chain, run, records, head⟩ := oneUpgrade_run 9 (by decide) 1 (by decide)
    obtain ⟨otherTrace, other, otherRun, otherRecords, otherHead⟩ :=
      oneUpgrade_run 9 (by decide) 2 (by decide)
    refine ⟨_, trace, chain, otherTrace, other, oneRole_founded, run, otherRun, ?_, ?_,
      head.trans otherHead.symm, ?_⟩
    · rw [records, otherRecords]
      simp [oneUpgrade]
    · exact fun record _ => constantPrimitives_hash_ne record
    · rw [records, otherRecords]
      decide +kernel
  · obtain ⟨trace, chain, run, records, head⟩ := oneUpgrade_run 0 (by decide) 1 (by decide)
    refine ⟨_, trace, chain, [], oneRoleChain, oneRole_founded, run, .nil, ?_, head, ?_⟩
    · rw [records]
      simp [oneRoleChain]
    · rw [records]
      simp [oneRoleChain]

/-- One upgrade, twice recorded with different signatures. -/
theorem one_upgrade_binds_body :
    ∃ prims trace chain otherTrace other,
      genesis oneRole (fill 32 0) = .ok oneRoleChain ∧
      Run (graph (appender prims)) oneRoleChain trace chain ∧
      Run (graph (appender prims)) oneRoleChain otherTrace other ∧
      chain.records = [oneUpgrade 1] ∧ other.records = [oneUpgrade 2] ∧
      chain.epoch = (accepted trace).length ∧
      chain.records.map UpgradeRecord.body = other.records.map UpgradeRecord.body := by
  obtain ⟨trace, chain, run, records, head⟩ := oneUpgrade_run 9 (by decide) 1 (by decide)
  obtain ⟨otherTrace, other, otherRun, otherRecords, otherHead⟩ :=
    oneUpgrade_run 9 (by decide) 2 (by decide)
  have history := transition_history_atomic_and_binding oneRole_founded run
  refine ⟨_, trace, chain, otherTrace, other, oneRole_founded, run, otherRun, records,
    otherRecords, history.2.1, ?_⟩
  apply (history.2.2.2.2.2.2.2 otherTrace other otherRun (head.trans otherHead.symm) ?_ ?_).1
  · exact fun record _ => constantPrimitives_hash_ne record
  · rw [records, otherRecords]
    simp [oneUpgrade]

end TransitionChain

end DaemonNode
