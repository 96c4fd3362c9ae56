import DaemonNode.Lib.Watermark
import DaemonNode.Proto.Cert

/-!
# Revocation of per-run keys

A base identity revokes a per-run key by a signed record with a sequence number.
A receiver's ledger lets a record in only if its sequence is above the last one of
its slot, the run, role and base; and it keeps per slot the highest incarnation it
has seen certified. A key is dead when a record in the ledger names it, or when
its incarnation is below the floor of its own base.

The sequence guard is a watermark, so a record that arrives after a later one of
its slot is dropped and the key it names stays alive. The set of revoked keys is
not divided by base: a record binds whatever key it names.
-/

namespace DaemonNode

open Bytes (fill)
open Watermark (Leads Above Ascends)

/-- The domain tag of a revocation body. -/
def revocationDomainV2 : String := "daemon-vhc/revocation/2"

structure RunKeyRevocationBody where
  domain : String
  runId : Hash
  role : String
  instanceId : Nat
  revokedKey : PeerId
  sequence : Nat
  deriving DecidableEq

/-- A revocation record. -/
structure RunKeyRevocation where
  body : RunKeyRevocationBody
  baseIdentity : PeerId
  sig : Signature
  deriving DecidableEq

/-- Why a record was refused. -/
inductive RevocationError
  | wrongDomain (got : String)
  | badChain
  | untrustedBase
  | staleSequence (got last : Nat)
  deriving DecidableEq

/-- One ladder of incarnations: a run, a role and a base identity. -/
abbrev SlotKey := Hash × String × PeerId

/-- What a record revokes: a run, a role, an incarnation and a key. -/
abbrev KeyBinding := Hash × String × Nat × PeerId

namespace RunKeyRevocation

/-- The ladder a record belongs to. -/
def slot (record : RunKeyRevocation) : SlotKey :=
  (record.body.runId, record.body.role, record.baseIdentity)

def sequence (record : RunKeyRevocation) : Nat := record.body.sequence

def names (record : RunKeyRevocation) : KeyBinding :=
  (record.body.runId, record.body.role, record.body.instanceId, record.body.revokedKey)

/-- Check the domain tag and the issuer's signature. -/
def verifyChain (verifyRevocation : PeerId → Signature → RunKeyRevocationBody → Bool)
    (record : RunKeyRevocation) : Except RevocationError Unit :=
  if record.body.domain ≠ revocationDomainV2 then .error (.wrongDomain record.body.domain)
  else if verifyRevocation record.baseIdentity record.sig record.body then .ok ()
  else .error .badChain

end RunKeyRevocation

open RunKeyRevocation (sequence)

/-- A receiver's revocation state. -/
structure RevocationLedger where
  revoked : KeyBinding → Bool
  /-- The highest sequence ingested per slot. -/
  lastSequence : SlotKey → Option Nat
  /-- The highest incarnation seen certified per slot. -/
  incarnationFloor : SlotKey → Option Nat

namespace RevocationLedger

/-- An empty ledger. -/
def new : RevocationLedger where
  revoked := fun _ => false
  lastSequence := fun _ => none
  incarnationFloor := fun _ => none

def admitRecord (ledger : RevocationLedger) (record : RunKeyRevocation) :
    RevocationLedger where
  revoked := Function.update ledger.revoked record.names true
  lastSequence := Function.update ledger.lastSequence record.slot (some record.sequence)
  incarnationFloor := ledger.incarnationFloor

/-- The guard on a record's sequence. -/
def ingestAbove (ledger : RevocationLedger) (record : RunKeyRevocation) :
    RevocationLedger × Except RevocationError Unit :=
  match ledger.lastSequence record.slot with
  | some last =>
    if record.body.sequence ≤ last then (ledger, .error (.staleSequence record.body.sequence last))
    else (ledger.admitRecord record, .ok ())
  | none => (ledger.admitRecord record, .ok ())

/-- Ingest one signed record. -/
def ingest (verifyRevocation : PeerId → Signature → RunKeyRevocationBody → Bool)
    (ledger : RevocationLedger) (record : RunKeyRevocation) (trustedBase : PeerId) :
    RevocationLedger × Except RevocationError Unit :=
  match record.verifyChain verifyRevocation with
  | .error refusal => (ledger, .error refusal)
  | .ok _ =>
    if record.baseIdentity ≠ trustedBase then (ledger, .error .untrustedBase)
    else ledger.ingestAbove record

def observeCertifiedIncarnation (ledger : RevocationLedger) (runId : Hash)
    (role : String) (base : PeerId) (instanceId : Nat) : RevocationLedger :=
  { ledger with
    incarnationFloor := Function.update ledger.incarnationFloor (runId, role, base)
      (some (max ((ledger.incarnationFloor (runId, role, base)).getD instanceId) instanceId)) }

def judge (ledger : RevocationLedger) (scope : CertScope) (sender base : PeerId) :
    Except CertError Unit :=
  if ledger.revoked (scope.runId, scope.role, scope.instanceId, sender) then .error .revoked
  else
    match ledger.incarnationFloor (scope.runId, scope.role, base) with
    | some floor => if scope.instanceId < floor then .error .revoked else .ok ()
    | none => .ok ()

/-- The binding a sender is judged under. -/
def binding (scope : CertScope) (sender : PeerId) : KeyBinding :=
  (scope.runId, scope.role, scope.instanceId, sender)

/-- A sender is refused as revoked or accepted. -/
theorem judge_cases (ledger : RevocationLedger) (scope : CertScope) (sender base : PeerId) :
    ledger.judge scope sender base = .error .revoked ∨ ledger.judge scope sender base = .ok () := by
  unfold judge
  split
  · exact .inl rfl
  · split
    · split
      · exact .inl rfl
      · exact .inr rfl
    · exact .inr rfl

section Delivery

variable (verifyRevocation : PeerId → Signature → RunKeyRevocationBody → Bool)

/-- A record of `base` with a valid signature. -/
def ValidlySigned (base : PeerId) (record : RunKeyRevocation) : Prop :=
  record.verifyChain verifyRevocation = .ok () ∧ record.baseIdentity = base

/-- The ledger after a delivery, from an empty one. -/
def delivered (base : PeerId) (delivery : List RunKeyRevocation) : RevocationLedger :=
  delivery.foldl (fun ledger record => (ledger.ingest verifyRevocation record base).1) new

variable {verifyRevocation}
variable {ledger : RevocationLedger} {base : PeerId} {record : RunKeyRevocation}

/-- What a ledger knows of the delivery that led to it. -/
structure Follows (delivery : List RunKeyRevocation) (ledger : RevocationLedger) : Prop where
  marks : ∀ slot, Watermark.IsMark RunKeyRevocation.slot sequence
    delivery slot (ledger.lastSequence slot)
  revokes : ∀ key, ledger.revoked key = true ↔ ∃ record,
    Leads RunKeyRevocation.slot sequence delivery record ∧
      record.names = key
  floors : ledger.incarnationFloor = fun _ => none

section

variable (follows : Follows delivery ledger)

include follows

theorem Follows.admit (above : Above RunKeyRevocation.slot sequence delivery record) :
    Follows (delivery ++ [record]) (ledger.admitRecord record) where
  marks := by
    intro slot
    simp only [admitRecord]
    by_cases same : slot = record.slot
    · subst same
      rw [Function.update_self]
      constructor
      · exact Lists.forall_mem_concat.mpr
          ⟨fun other earlier sameSlot => ⟨sequence record, rfl, (above other earlier sameSlot).le⟩,
            fun _ => ⟨sequence record, rfl, le_rfl⟩⟩
      · intro highest isHighest
        cases isHighest
        exact ⟨record, by simp, rfl, rfl⟩
    · rw [Function.update_of_ne same]
      exact (follows.marks slot).frame (Ne.symm same)
  revokes := by
    intro key
    simp only [admitRecord, Watermark.leads_concat]
    by_cases same : key = record.names
    · subst same
      rw [Function.update_self]
      exact iff_of_true rfl ⟨record, .inr ⟨rfl, above⟩, rfl⟩
    · rw [Function.update_of_ne same, follows.revokes]
      constructor
      · rintro ⟨other, leads, named⟩
        exact ⟨other, .inl leads, named⟩
      · rintro ⟨other, leads | ⟨rfl, -⟩, named⟩
        · exact ⟨other, leads, named⟩
        · exact absurd named.symm same
  floors := follows.floors

theorem Follows.stop (isLast : ledger.lastSequence record.slot = some last)
    (stale : record.sequence ≤ last) :
    Follows (delivery ++ [record]) ledger where
  marks := by
    intro slot
    by_cases same : slot = record.slot
    · subst same
      exact (follows.marks record.slot).stop isLast stale
    · exact (follows.marks slot).frame (Ne.symm same)
  revokes := by
    intro key
    have notAbove : ¬Above RunKeyRevocation.slot sequence delivery record := by
      rw [← (follows.marks record.slot).lt_iff_above]
      intro passes
      exact absurd (passes last isLast) (not_lt.mpr stale)
    simp only [follows.revokes, Watermark.leads_concat, notAbove, and_false, or_false]
  floors := follows.floors

theorem Follows.ingestAbove : Follows (delivery ++ [record]) (ledger.ingestAbove record).1 := by
  unfold RevocationLedger.ingestAbove
  have guard := (follows.marks record.slot).lt_iff_above
  split
  · rename_i last isLast
    rw [isLast] at guard
    split
    · rename_i stale
      exact follows.stop isLast stale
    · rename_i fresh
      apply follows.admit
      apply guard.mp
      intro highest isHighest
      cases isHighest
      exact not_le.mp fresh
  · rename_i none
    rw [none] at guard
    exact follows.admit (guard.mp (by simp))

end

/-- Whatever the order, the ledger revokes the keys of the records that led. -/
theorem follows_delivered
    (valid : ∀ record ∈ delivery, ValidlySigned verifyRevocation base record) :
    Follows delivery (delivered verifyRevocation base delivery) := by
  induction delivery using List.reverseRecOn with
  | nil =>
    refine ⟨fun slot => Watermark.isMark_nil slot, ?_, rfl⟩
    intro key
    simp [delivered, new, Watermark.leads_nil]
  | append_singleton delivery record ih =>
    have earlier := ih fun other member =>
      valid other (List.mem_append_left _ member)
    rw [delivered, List.foldl_append]
    change Follows _ ((delivered verifyRevocation base delivery).ingest
      verifyRevocation record base).1
    obtain ⟨verified, rfl⟩ := valid record (by simp)
    rw [ingest, verified]
    simpa using earlier.ingestAbove

open RunKeyRevocation (slot)

/-- A ledger without floors refuses a sender exactly when the sender's key is
revoked. -/
theorem Follows.judge_iff (follows : Follows delivery ledger)
    (scope : CertScope) (sender judged : PeerId) :
    ledger.judge scope sender judged = .error .revoked ↔
      ∃ record, Leads slot sequence delivery record ∧ record.names = binding scope sender := by
  rw [← follows.revokes]
  unfold judge
  rw [follows.floors]
  simp only [binding]
  split
  · simp [*]
  · simp [*]

/-- What a delivery of one base's valid records revokes. In any order, with
repeats, a key is revoked exactly when a record that names it arrives above the
earlier records of its slot. So where the records of each slot first arrive in
ascending sequence, the verdict is the same for every order and revokes every key
named by a record. -/
theorem revocation_of_ascending_delivery {records delivery : List RunKeyRevocation}
    (valid : ∀ record ∈ records, ValidlySigned verifyRevocation base record)
    (same : ∀ record, record ∈ delivery ↔ record ∈ records) :
    (∀ scope sender judged,
      (delivered verifyRevocation base delivery).judge scope sender judged = .error .revoked ↔
        ∃ record, Leads slot sequence delivery record ∧ record.names = binding scope sender) ∧
    (Ascends slot sequence delivery →
      ∀ scope sender judged,
        (delivered verifyRevocation base delivery).judge scope sender judged =
          if ∃ record ∈ records, record.names = binding scope sender then .error .revoked
          else .ok ()) := by
  have follows : Follows delivery (delivered verifyRevocation base delivery) :=
    follows_delivered fun record member => valid record ((same record).mp member)
  refine ⟨follows.judge_iff, ?_⟩
  intro ascends scope sender judged
  have verdict := follows.judge_iff scope sender judged
  split
  · rename_i named
    obtain ⟨record, member, names⟩ := named
    exact verdict.mpr ⟨record, ascends.leads ((same record).mpr member), names⟩
  · rename_i unnamed
    rcases judge_cases (delivered verifyRevocation base delivery) scope sender judged with
      refused | accepted
    · obtain ⟨record, leads, names⟩ := verdict.mp refused
      exact absurd ⟨record, (same record).mp leads.mem, names⟩ unnamed
    · exact accepted

/-- A revocation of incarnation `sequence` of a worker. -/
def plainRevocation (base key : PeerId) (sequence : Nat) : RunKeyRevocation where
  body :=
    { domain := revocationDomainV2
      runId := fill 32 0
      role := "worker"
      instanceId := sequence
      revokedKey := key
      sequence := sequence }
  baseIdentity := base
  sig := fill 64 0

/-- The scope of incarnation `instanceId` of a worker. -/
def plainScope (instanceId : Nat) : CertScope :=
  ⟨fill 32 0, 0, "worker", instanceId, fill 32 0⟩

/-- Two records of one slot, in the order they were issued. -/
def twoRevocations : List RunKeyRevocation :=
  [plainRevocation (fill 32 1) (fill 32 2) 1, plainRevocation (fill 32 1) (fill 32 3) 2]

theorem twoRevocations_validlySigned :
    ∀ record ∈ twoRevocations, ValidlySigned (fun _ _ _ => true) (fill 32 1) record := by
  unfold ValidlySigned
  decide +kernel

/-- A record that arrives after a later one of its slot is lost: the key it
names is judged alive. -/
theorem late_revocation_is_lost :
    (∀ record ∈ twoRevocations, ValidlySigned (fun _ _ _ => true) (fill 32 1) record) ∧
    (twoRevocations.map sequence).Nodup ∧
    (∃ record ∈ twoRevocations, record.names = binding (plainScope 1) (fill 32 2)) ∧
    (delivered (fun _ _ _ => true) (fill 32 1) twoRevocations).judge
      (plainScope 1) (fill 32 2) (fill 32 1) = .error .revoked ∧
    (delivered (fun _ _ _ => true) (fill 32 1) twoRevocations.reverse).judge
      (plainScope 1) (fill 32 2) (fill 32 1) = .ok () := by
  refine ⟨twoRevocations_validlySigned, ?_⟩
  decide +kernel

/-- In the order of issue, with the first repeated, both keys are revoked. -/
theorem repeated_revocations_revoke :
    (delivered (fun _ _ _ => true) (fill 32 1)
      (twoRevocations ++ [plainRevocation (fill 32 1) (fill 32 2) 1])).judge
        (plainScope 1) (fill 32 2) (fill 32 1) = .error .revoked ∧
    (delivered (fun _ _ _ => true) (fill 32 1)
      (twoRevocations ++ [plainRevocation (fill 32 1) (fill 32 2) 1])).judge
        (plainScope 2) (fill 32 3) (fill 32 1) = .error .revoked := by
  have ascends : Ascends slot sequence
      (([] ++ [plainRevocation (fill 32 1) (fill 32 2) 1]) ++
        [plainRevocation (fill 32 1) (fill 32 3) 2] ++
        [plainRevocation (fill 32 1) (fill 32 2) 1]) := by
    simp only [Watermark.ascends_concat, Watermark.ascends_nil, true_and, Above]
    decide +kernel
  have same : ∀ record, record ∈ twoRevocations ++
      [plainRevocation (fill 32 1) (fill 32 2) 1] ↔ record ∈ twoRevocations := by
    intro record
    simp only [twoRevocations, List.mem_append, List.mem_cons, List.not_mem_nil]
    tauto
  have verdict := (revocation_of_ascending_delivery twoRevocations_validlySigned same).2 ascends
  constructor
  · rw [verdict]
    exact if_pos (by decide +kernel)
  · rw [verdict]
    exact if_pos (by decide +kernel)

end Delivery

section Sharing

/-- What a base can bring to a ledger: a record it issued, or an incarnation it
certified. -/
inductive Event
  | ingested (record : RunKeyRevocation)
  | certified (runId : Hash) (role : String) (instanceId : Nat)

variable (verifyRevocation : PeerId → Signature → RunKeyRevocationBody → Bool)

/-- The ledger after an event attributed to `base`. -/
def apply (base : PeerId) (ledger : RevocationLedger) : Event → RevocationLedger
  | .ingested record => (ledger.ingest verifyRevocation record base).1
  | .certified runId role instanceId =>
    ledger.observeCertifiedIncarnation runId role base instanceId

/-- The ledger after events attributed to `base`. -/
def applyAll (base : PeerId) (ledger : RevocationLedger) (events : List Event) :
    RevocationLedger :=
  events.foldl (apply verifyRevocation base) ledger

variable {verifyRevocation}
variable {ledger : RevocationLedger}

/-- A ledger after an ingest: unchanged, or with a valid record of the base let
in. -/
theorem ingest_eq_or (ledger : RevocationLedger) (record : RunKeyRevocation) (base : PeerId) :
    (ledger.ingest verifyRevocation record base).1 = ledger ∨
      (ValidlySigned verifyRevocation base record ∧
        (ledger.ingest verifyRevocation record base).1 = ledger.admitRecord record) := by
  unfold ingest
  split
  · exact .inl rfl
  · rename_i verified
    split_ifs with foreign
    · exact .inl rfl
    · have valid : ValidlySigned verifyRevocation base record :=
        ⟨verified, not_not.mp foreign⟩
      unfold ingestAbove
      split
      · split_ifs
        · exact .inl rfl
        · exact .inr ⟨valid, rfl⟩
      · exact .inr ⟨valid, rfl⟩

/-- What a verdict under a base reads of a ledger. -/
theorem judge_congr {other : RevocationLedger}
    (sameKey : other.revoked (binding scope sender) = ledger.revoked (binding scope sender))
    (sameFloor : other.incarnationFloor (scope.runId, scope.role, base) =
      ledger.incarnationFloor (scope.runId, scope.role, base)) :
    other.judge scope sender base = ledger.judge scope sender base := by
  unfold binding at sameKey
  rw [judge, judge, sameKey, sameFloor]

/-- One event of a base leaves the verdict under another base, unless it is a
record that names the very key. -/
theorem judge_apply_of_ne (ledger : RevocationLedger) (event : Event) (different : first ≠ second)
    (unnamed : ∀ record, event = .ingested record →
      ValidlySigned verifyRevocation first record → record.names ≠ binding scope sender) :
    (apply verifyRevocation first ledger event).judge scope sender second =
      ledger.judge scope sender second := by
  cases event with
  | ingested record =>
    simp only [apply]
    rcases ingest_eq_or ledger record first with same | ⟨valid, letIn⟩
    · rw [same]
    · rw [letIn]
      apply judge_congr
      · exact Function.update_of_ne (unnamed record rfl valid).symm _ _
      · rfl
  | certified runId role instanceId =>
    apply judge_congr
    · rfl
    · apply Function.update_of_ne
      intro same
      exact different (congrArg (fun slot : SlotKey => slot.2.2) same).symm

/-- Events of one base leave every verdict under another base, for a key none of
its valid records names. -/
theorem judge_unchanged_by_other_base {scope : CertScope} {sender : PeerId}
    (ledger : RevocationLedger) (events : List Event) (different : first ≠ second)
    (unnamed : ∀ record, .ingested record ∈ events →
      ValidlySigned verifyRevocation first record → record.names ≠ binding scope sender) :
    (applyAll verifyRevocation first ledger events).judge scope sender second =
      ledger.judge scope sender second := by
  induction events generalizing ledger with
  | nil => rfl
  | cons event events ih =>
    have later := ih (apply verifyRevocation first ledger event)
      fun record member => unnamed record (List.mem_cons_of_mem _ member)
    have now := judge_apply_of_ne ledger event different
      fun record isRecord => unnamed record (isRecord ▸ List.mem_cons_self)
    exact later.trans now

/-- Another base's record for another key does not touch the worker's key. -/
theorem sibling_revocation_ignored :
    (applyAll (fun _ _ _ => true) (fill 32 1) new
      [.ingested (plainRevocation (fill 32 1) (fill 32 3) 1),
        .certified (fill 32 0) "worker" 5]).judge
      (plainScope 1) (fill 32 2) (fill 32 9) = .ok () := by
  rw [judge_unchanged_by_other_base new _ (by decide +kernel) ?_]
  · decide +kernel
  · simp only [List.mem_cons, List.not_mem_nil, or_false, Event.ingested.injEq, reduceCtorEq]
    rintro record rfl -
    decide +kernel

/-- A base revokes a key that another base certified, by naming it. -/
theorem foreign_key_revoked :
    fill 32 1 ≠ (fill 32 9 : PeerId) ∧
    (applyAll (fun _ _ _ => true) (fill 32 1) new
      [.ingested (plainRevocation (fill 32 1) (fill 32 2) 1)]).judge
        (plainScope 1) (fill 32 2) (fill 32 9) = .error .revoked ∧
    new.judge (plainScope 1) (fill 32 2) (fill 32 9) = .ok () := by
  decide +kernel

end Sharing

end RevocationLedger

end DaemonNode
