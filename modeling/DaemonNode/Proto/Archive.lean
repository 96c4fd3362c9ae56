import DaemonNode.Lib.Linked
import DaemonNode.Lib.Machine
import DaemonNode.Proto.Cert

/-!
# Archive chains

A role instance publishes the head of each journal segment it seals. The
registry keeps the heads of one chain in a slot: it checks the structure of a
head, lets an identical head be published again, and otherwise accepts only the
next segment, linked to the address of the tip.
-/

namespace DaemonNode

open Bytes (fill)
open Machine

def archiveHeadDomain : String := "daemon-vhc/archive-head/1.0.0"

/-- The longest role label, in bytes. -/
def maxArchiveRoleLen : Nat := 64

structure ArchiveHeadBody where
  domain : String
  runId : Hash
  role : String
  /-- The founding incarnation of the chain. -/
  (chainInstance segment : Nat)
  /-- The address of the sealed segment. -/
  segmentHash : Hash
  prevHash : Hash
  records : Nat
  /-- The incarnation that sealed the segment. -/
  instanceId : Nat
  epoch : Nat
  moduleHash : Hash
  /-- The predecessor chain's last head, on a founding head. -/
  predecessor : Option Hash
  /-- The highest round committed when the segment was sealed. -/
  round : Option Nat
  deriving DecidableEq

/-- An archive head with its certificate and signature. -/
structure ArchiveHeadRecord where
  body : ArchiveHeadBody
  certificate : RunKeyCertificate
  signer : PeerId
  sig : Signature
  deriving DecidableEq

/-- Why a head was refused. -/
inductive ArchiveHeadError
  | wrongDomain (got : String)
  | badRole
  | badGenesisLink
  | misplacedPredecessor
  | spanBelowFounding
  deriving DecidableEq

/-- The text of a refusal. -/
def ArchiveHeadError.display : ArchiveHeadError → String
  | .wrongDomain got => s!"archive head domain `{got}` is not `{archiveHeadDomain}`"
  | .badRole => "archive head role label is empty or over the cap"
  | .badGenesisLink =>
    "archive head genesis link violated (segment 0 extends the all-zero hash; " ++
      "later segments never do)"
  | .misplacedPredecessor => "archive head carries a predecessor link above segment 0"
  | .spanBelowFounding => "archive head sealing span precedes the chain's founding instance"

/-- The structural check of a head. -/
def ArchiveHeadBody.validate (body : ArchiveHeadBody) : Except ArchiveHeadError Unit :=
  if body.domain ≠ archiveHeadDomain then .error (.wrongDomain body.domain)
  else if body.role.isEmpty ∨ maxArchiveRoleLen < body.role.utf8ByteSize then .error .badRole
  else if ¬(body.segment = 0 ↔ body.prevHash = fill 32 0) then .error .badGenesisLink
  else if body.predecessor.isSome ∧ body.segment ≠ 0 then .error .misplacedPredecessor
  else if body.instanceId < body.chainInstance then .error .spanBelowFounding
  else .ok ()

/-- The registry's verdict on a head. -/
inductive ArchiveHeadDecision
  | accepted
  | alreadyStored
  | rejectedStructural (reason : String)
  | rejectedNonExtending (storedSegment : Nat) (storedSegmentHash : Hash)
  deriving DecidableEq

@[ext] structure ArchiveChainSlot where
  heads : List ArchiveHeadRecord
  deriving DecidableEq

namespace ArchiveChainSlot

/-- An empty slot. -/
def new : ArchiveChainSlot := ⟨[]⟩

/-- Whether two heads are of one chain scope. -/
def SameScope (first second : ArchiveHeadRecord) : Prop :=
  first.body.runId = second.body.runId ∧ first.body.role = second.body.role ∧
    first.body.chainInstance = second.body.chainInstance

instance (first second : ArchiveHeadRecord) : Decidable (SameScope first second) :=
  inferInstanceAs (Decidable (_ ∧ _ ∧ _))

/-- Extend the chain with a head above the stored ones. -/
def extend (slot : ArchiveChainSlot) (record : ArchiveHeadRecord) :
    ArchiveChainSlot × ArchiveHeadDecision :=
  match slot.heads.getLast? with
  | some tip =>
    if record.body.segment ≠ slot.heads.length ∨
        record.body.prevHash ≠ tip.body.segmentHash then
      (slot, .rejectedNonExtending tip.body.segment tip.body.segmentHash)
    else (⟨slot.heads ++ [record]⟩, .accepted)
  | none =>
    if record.body.segment ≠ slot.heads.length then
      let segment := record.body.segment
      (slot, .rejectedStructural s!"first head must be segment 0, got {segment}")
    else (⟨slot.heads ++ [record]⟩, .accepted)

/-- Place a head of the slot's scope. -/
def place (slot : ArchiveChainSlot) (record : ArchiveHeadRecord) :
    ArchiveChainSlot × ArchiveHeadDecision :=
  if stored : record.body.segment < slot.heads.length then
    let head := slot.heads[record.body.segment]
    if head = record then (slot, .alreadyStored)
    else (slot, .rejectedNonExtending head.body.segment head.body.segmentHash)
  else slot.extend record

/-- The structural fold a registry applies to a published head. -/
def fold (slot : ArchiveChainSlot) (record : ArchiveHeadRecord) :
    ArchiveChainSlot × ArchiveHeadDecision :=
  match record.body.validate with
  | .error refusal => (slot, .rejectedStructural refusal.display)
  | .ok _ =>
    match slot.heads.head? with
    | some first =>
      if SameScope record first then slot.place record
      else (slot, .rejectedStructural "chain scope fields do not match the slot")
    | none => slot.place record

/-- What an accepted head satisfied. -/
structure Extends (slot : ArchiveChainSlot) (record : ArchiveHeadRecord) : Prop where
  valid : record.body.validate = .ok ()
  inScope : ∀ first ∈ slot.heads.head?, SameScope record first
  next : record.body.segment = slot.heads.length
  linked : ∀ tip ∈ slot.heads.getLast?, record.body.prevHash = tip.body.segmentHash

/-- The outcomes of a fold: no change, or one head more. -/
inductive Outcome (slot : ArchiveChainSlot) (record : ArchiveHeadRecord) :
    ArchiveChainSlot × ArchiveHeadDecision → Prop
  | unchanged {decision} : decision ≠ .accepted → Outcome slot record (slot, decision)
  | accepted : slot.Extends record → Outcome slot record (⟨slot.heads ++ [record]⟩, .accepted)

variable {slot : ArchiveChainSlot} {record : ArchiveHeadRecord}

theorem extend_outcome (valid : record.body.validate = .ok ())
    (inScope : ∀ first ∈ slot.heads.head?, SameScope record first) :
    Outcome slot record (slot.extend record) := by
  unfold extend
  split
  · rename_i tip isTip
    split_ifs with apart
    · exact .unchanged (by simp)
    · push Not at apart
      refine .accepted ⟨valid, inScope, apart.1, ?_⟩
      intro other isOther
      obtain rfl := Option.some.inj (isTip.symm.trans isOther)
      exact apart.2
  · rename_i empty
    split_ifs with later
    · exact .unchanged (by simp)
    · refine .accepted ⟨valid, inScope, not_not.mp later, ?_⟩
      simp [empty]

theorem place_outcome (valid : record.body.validate = .ok ())
    (inScope : ∀ first ∈ slot.heads.head?, SameScope record first) :
    Outcome slot record (slot.place record) := by
  unfold place
  split
  · simp only
    split
    · exact .unchanged (by simp)
    · exact .unchanged (by simp)
  · exact extend_outcome valid inScope

theorem fold_outcome (slot : ArchiveChainSlot) (record : ArchiveHeadRecord) :
    Outcome slot record (slot.fold record) := by
  unfold fold
  split
  · exact .unchanged (by simp)
  · rename_i valid
    split
    · rename_i first isFirst
      split_ifs with scope
      · apply place_outcome valid
        intro other isOther
        obtain rfl := Option.some.inj (isFirst.symm.trans isOther)
        exact scope
      · exact .unchanged (by simp)
    · rename_i empty
      exact place_outcome valid (by simp [empty])

/-- The heads of a slot form one chain from the all-zero hash. -/
structure Dense (slot : ArchiveChainSlot) : Prop where
  valid : ∀ head ∈ slot.heads, head.body.validate = .ok ()
  dense : ∀ (index : Nat) (head : ArchiveHeadRecord),
    slot.heads[index]? = some head → head.body.segment = index
  inScope : ∀ first ∈ slot.heads.head?, ∀ head ∈ slot.heads, SameScope head first
  chained : ∃ tip, Linked.Chained (fun head : ArchiveHeadRecord => some head.body.segmentHash)
    (fun head => head.body.prevHash) (fill 32 0) slot.heads tip

theorem dense_new : Dense new where
  valid := by simp [new]
  dense := by simp [new]
  inScope := by simp [new]
  chained := ⟨_, .nil⟩

/-- An accepted head keeps the chain. -/
theorem Dense.extend (dense : Dense slot) (extending : slot.Extends record) :
    Dense ⟨slot.heads ++ [record]⟩ where
  valid := Lists.forall_mem_concat.mpr ⟨dense.valid, extending.valid⟩
  dense := by
    intro index head found
    rw [List.getElem?_append] at found
    split at found
    · exact dense.dense index head found
    · rename_i beyond
      obtain ⟨atEnd, rfl⟩ := List.getElem?_eq_some_iff.mp found
      rw [List.getElem_singleton, extending.next]
      simp only [List.length_singleton] at atEnd
      omega
  inScope := by
    intro first isFirst head member
    have scope : ∀ other ∈ slot.heads ++ [record], SameScope other first := by
      cases empty : slot.heads with
      | nil =>
        simp only [empty, List.nil_append, List.head?_cons, Option.mem_def,
          Option.some.injEq] at isFirst
        subst isFirst
        simp [SameScope]
      | cons oldest rest =>
        have oldestFirst : oldest ∈ slot.heads.head? := by simp [empty]
        obtain rfl : oldest = first := by simpa [empty] using isFirst
        rw [← empty]
        exact Lists.forall_mem_concat.mpr
          ⟨dense.inScope oldest oldestFirst, extending.inScope oldest oldestFirst⟩
    exact scope head member
  chained := by
    obtain ⟨tip, chained⟩ := dense.chained
    refine ⟨record.body.segmentHash, .snoc chained ?_ rfl⟩
    rcases chained.head_eq with ⟨empty, rfl⟩ | ⟨last, isLast, same⟩
    · have valid := extending.valid
      simp only [ArchiveHeadBody.validate, Checks.refuse_eq_ok_iff, not_not] at valid
      apply valid.2.2.1.mp
      rw [extending.next, empty, List.length_nil]
    · rw [extending.linked last isLast]
      exact Option.some.inj same

/-- A stored head can be published again. -/
theorem Dense.fold_stored (dense : Dense slot) (member : record ∈ slot.heads) :
    slot.fold record = (slot, .alreadyStored) := by
  obtain ⟨index, inside, rfl⟩ := List.getElem_of_mem member
  have segment : slot.heads[index].body.segment = index :=
    dense.dense index _ (List.getElem?_eq_getElem inside)
  have placed : slot.place slot.heads[index] = (slot, .alreadyStored) := by
    unfold place
    rw [dif_pos (segment.symm ▸ inside)]
    simp only [segment, if_true]
  rw [fold, dense.valid _ member]
  cases isFirst : slot.heads.head? with
  | none => exact placed
  | some first =>
    simp only
    rw [if_pos (dense.inScope first isFirst _ member), placed]

/-- The slot as a machine that answers each head with its decision. -/
def registry : StepFunction ArchiveChainSlot ArchiveHeadRecord ArchiveHeadDecision :=
  fun slot record =>
    let (after, decision) := slot.fold record
    some (after, [decision])

/-- One fold extends the chain by the head it accepts, and changes nothing
otherwise. -/
theorem registry_step (stepped : graph registry slot record output after) :
    (output = [.accepted] ∧ slot.Extends record ∧ after = ⟨slot.heads ++ [record]⟩) ∨
      (output ≠ [.accepted] ∧ after = slot) := by
  have outcome := fold_outcome slot record
  simp only [graph, registry, Option.some.injEq, Prod.mk.injEq] at stepped
  obtain ⟨rfl, rfl⟩ := stepped
  generalize slot.fold record = result at outcome
  cases outcome with
  | unchanged refused => exact .inr ⟨by simpa using refused, rfl⟩
  | accepted extending => exact .inl ⟨rfl, extending, rfl⟩

theorem dense_of_run (run : Run (graph registry) new trace slot) : Dense slot := by
  refine run.invariant Dense dense_new ?_
  intro slot record after output dense stepped
  rcases registry_step stepped with ⟨-, extending, rfl⟩ | ⟨-, rfl⟩
  · exact dense.extend extending
  · exact dense

/-- The heads stored at any point of a run stay, in place, to its end. -/
theorem heads_persist (run : Run (graph registry) new trace slot) :
    ∀ step ∈ trace, step.after.heads <+: slot.heads := by
  induction run with
  | nil => simp
  | @snoc trace slot record after output _ stepped persisted =>
    have grown : slot.heads <+: after.heads := by
      rcases registry_step stepped with ⟨-, -, rfl⟩ | ⟨-, rfl⟩
      · exact List.prefix_append _ _
      · exact List.prefix_refl _
    exact Lists.forall_mem_concat.mpr
      ⟨fun step earlier => (persisted step earlier).trans grown, List.prefix_refl _⟩

theorem archive_chain_append_only (run : Run (graph registry) new trace slot) :
    (∀ (index : Nat) (head : ArchiveHeadRecord),
      slot.heads[index]? = some head → head.body.segment = index) ∧
    (∀ earlier first second later, slot.heads = earlier ++ first :: second :: later →
      second.body.prevHash = first.body.segmentHash) ∧
    (∀ first ∈ slot.heads, ∀ second ∈ slot.heads, SameScope first second) ∧
    (∀ step ∈ trace, step.after.heads <+: slot.heads) ∧
    (∀ step ∈ trace, step.output = [.accepted] → step.input ∈ slot.heads) ∧
    (∀ head ∈ slot.heads, slot.fold head = (slot, .alreadyStored)) ∧
    (∀ step ∈ trace, step.output ≠ [.accepted] → step.after = step.before) := by
  have dense := dense_of_run run
  refine ⟨dense.dense, ?_, ?_, heads_persist run, ?_, ?_, ?_⟩
  · intro earlier first second later parted
    obtain ⟨tip, chained⟩ := dense.chained
    exact (Option.some.inj (chained.linked parted)).symm
  · intro first firstMember second secondMember
    cases oldest : slot.heads.head? with
    | none => simp [List.head?_eq_none_iff.mp oldest] at firstMember
    | some head =>
      obtain ⟨sameRun, sameRole, sameInstance⟩ := dense.inScope head oldest first firstMember
      obtain ⟨otherRun, otherRole, otherInstance⟩ := dense.inScope head oldest second secondMember
      exact ⟨sameRun.trans otherRun.symm, sameRole.trans otherRole.symm,
        sameInstance.trans otherInstance.symm⟩
  · intro step member accepted
    rcases registry_step (run.before_reached member).2 with ⟨-, -, grown⟩ | ⟨refused, -⟩
    · apply (heads_persist run step member).subset
      rw [grown]
      exact List.mem_append_right _ (List.mem_singleton_self _)
    · exact absurd accepted refused
  · intro head member
    exact dense.fold_stored member
  · intro step member refused
    rcases registry_step (run.before_reached member).2 with ⟨accepted, -⟩ | ⟨-, same⟩
    · exact absurd accepted refused
    · exact same

/-- Segment `segment` of a chain whose addresses are `1`, `2`, and so on. -/
def plainHead (segment : Nat) (previous address : Byte) : ArchiveHeadRecord where
  body :=
    { domain := archiveHeadDomain
      runId := fill 32 0
      role := "coordinator"
      chainInstance := 1
      segment := segment
      segmentHash := fill 32 address
      prevHash := fill 32 previous
      records := 3
      instanceId := 1
      epoch := 0
      moduleHash := fill 32 0
      predecessor := none
      round := none }
  certificate :=
    { body :=
        { domain := certDomainV2
          scope := ⟨fill 32 0, 0, "coordinator", 1, fill 32 0⟩
          runKey := fill 32 5 }
      baseIdentity := fill 32 6
      sig := fill 64 0 }
  signer := fill 32 5
  sig := fill 64 0

/-- Two heads, a fork at the second and a republished first. -/
theorem two_heads_survive_fork :
    ∃ trace slot, Run (graph registry) new trace slot ∧
      slot.heads = [plainHead 0 0 1, plainHead 1 1 2] ∧
      ∀ head ∈ slot.heads, slot.fold head = (slot, .alreadyStored) := by
  obtain ⟨trace, slot, run, passed⟩ := Run.of_checked_exec registry new
    [plainHead 0 0 1, plainHead 1 1 2, plainHead 1 1 3, plainHead 0 0 1]
    (fun _ slot => slot.heads = [plainHead 0 0 1, plainHead 1 1 2]) (by decide +kernel)
  exact ⟨trace, slot, run, passed, (archive_chain_append_only run).2.2.2.2.2.1⟩

end ArchiveChainSlot

end DaemonNode
