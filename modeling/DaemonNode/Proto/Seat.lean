import DaemonNode.Lib.Machine
import DaemonNode.Lib.Terms
import DaemonNode.Lib.Word
import DaemonNode.Proto.Cert

/-!
# The coordinator seat

A coordinator holds its seat by a signed lease at a leadership term. The
registry stores one lease per slot and compares terms before it swaps it; it
judges structure only. A receiver keeps, per run and role, the highest verified
term it has seen and the claimant bound there, and refuses what is below.

The registry's slot is a register of tenures in the sense of `Terms`.
-/

namespace DaemonNode

open Bytes (fill)
open Machine

/-- The domain tag of a lease body. -/
def seatLeaseDomain : String := "daemon-vhc/seat-lease/2.0.0"

/-- The domain tag of a release body. -/
def seatReleaseDomain : String := "daemon-vhc/seat-release/2.0.0"

/-- The largest term or incarnation. -/
def maxOrdinal : Nat := 9223372036854775807

/-- Where peers dial a leased coordinator. -/
structure ControlEndpoint where
  (ws irohTicket : Option String)
  deriving DecidableEq

/-- Whether at least one plane can be dialed. -/
def ControlEndpoint.isDialable (endpoint : ControlEndpoint) : Bool :=
  endpoint.ws.isSome || endpoint.irohTicket.isSome

structure SeatLeaseBody where
  domain : String
  runId : Hash
  role : String
  (epoch incarnation leadershipTerm : Nat)
  claimant : PeerId
  moduleHash : Hash
  endpoint : ControlEndpoint
  (issuedAtMs expiresAtMs heartbeatIntervalMs : Nat)
  deriving DecidableEq

/-- A lease: the body, the claimant's certificate and signature. -/
structure SeatLease where
  body : SeatLeaseBody
  certificate : RunKeyCertificate
  sig : Signature
  deriving DecidableEq

structure SeatReleaseBody where
  domain : String
  runId : Hash
  role : String
  (incarnation leadershipTerm : Nat)
  claimant : PeerId
  deriving DecidableEq

structure SeatRelease where
  body : SeatReleaseBody
  sig : Signature
  deriving DecidableEq

/-- Why a lease or a release was refused. -/
inductive SeatLeaseError
  | wrongDomain (got : String)
  | outOfDomain (field : String) (value : Nat)
  | invalidWindow
  | missingEndpoint
  | badSignature
  | cert (refusal : CertError)
  | untrustedBase
  | expired (expiresAtMs nowMs : Nat)
  | termSuperseded (got floor : Nat)
  deriving DecidableEq

/-- The text of a refusal. -/
def SeatLeaseError.display : SeatLeaseError → String
  | .wrongDomain got => s!"seat domain `{got}` is not the expected seat domain"
  | .outOfDomain field value =>
    s!"seat {field} {value} is outside the bounded ordinal domain (max {maxOrdinal})"
  | .invalidWindow => "lease expiry/heartbeat window is invalid"
  | .missingEndpoint => "lease publishes no dialable control endpoint"
  | .badSignature => "lease signature does not verify to the claimant"
  | .cert refusal => "lease certificate refused: " ++ refusal.display
  | .untrustedBase => "lease certificate base identity is not genesis-trusted"
  | .expired expiresAtMs nowMs => s!"lease expired at {expiresAtMs} (now {nowMs})"
  | .termSuperseded got floor => s!"lease term {got} is superseded (highest verified term {floor})"

/-- The bound every ordinal field keeps. -/
def inDomain (field : String) (value : Nat) : Except SeatLeaseError Unit :=
  if maxOrdinal < value then .error (.outOfDomain field value) else .ok ()

/-- The structural check both sides make of a lease body. -/
def SeatLeaseBody.validate (body : SeatLeaseBody) : Except SeatLeaseError Unit :=
  if body.domain ≠ seatLeaseDomain then .error (.wrongDomain body.domain)
  else
    (inDomain "incarnation" body.incarnation).bind fun _ =>
      (inDomain "leadership_term" body.leadershipTerm).bind fun _ =>
        if body.expiresAtMs ≤ body.issuedAtMs ∨ body.heartbeatIntervalMs = 0 then
          .error .invalidWindow
        else if body.endpoint.isDialable = false then .error .missingEndpoint
        else .ok ()

/-- The structural check of a release body. -/
def SeatReleaseBody.validate (body : SeatReleaseBody) : Except SeatLeaseError Unit :=
  if body.domain ≠ seatReleaseDomain then .error (.wrongDomain body.domain)
  else
    (inDomain "incarnation" body.incarnation).bind fun _ =>
      inDomain "leadership_term" body.leadershipTerm

namespace SeatLease

/-- Whether the lease is past its expiry and the skew grace. -/
def isExpired (lease : SeatLease) (nowMs skewMs : Nat) : Bool :=
  Word.saturatingAdd 64 lease.body.expiresAtMs skewMs < nowMs

/-- The term and the claimant a lease stands for. -/
def tenure (lease : SeatLease) : Nat × PeerId :=
  (lease.body.leadershipTerm, lease.body.claimant)

end SeatLease

/-- A request against a slot. -/
inductive SeatRequest
  | claim (lease : SeatLease)
  | renew (lease : SeatLease)
  | release (release : SeatRelease)
  deriving DecidableEq

/-- The registry's verdict on a request. -/
inductive SeatDecision
  | accepted
  | rejectedStructural (reason : String)
  | rejectedHeld
  | rejectedNotHeld
  | rejectedFencingConflict (expected got : Nat)
  deriving DecidableEq

/-- One seat slot: the stored lease and the highest term ever stored. -/
structure SeatSlot where
  lease : Option SeatLease
  lastLeadershipTerm : Option Nat
  deriving DecidableEq

namespace SeatSlot

/-- A slot that was never claimed. -/
def new : SeatSlot := ⟨none, none⟩

/-- Whether two bodies address one slot. -/
def keysMatch (first second : SeatLeaseBody) : Bool :=
  first.runId = second.runId && first.role = second.role

section

variable (slot : SeatSlot) (lease : SeatLease)

/-- Store a lease and advance the floor. -/
def store : SeatSlot × SeatDecision :=
  (⟨some lease, some (match slot.lastLeadershipTerm with
      | none => lease.body.leadershipTerm
      | some floor => max floor lease.body.leadershipTerm)⟩,
    .accepted)

/-- Compare a claim's term with the floor. -/
def claimAboveFloor : SeatSlot × SeatDecision :=
  match slot.lastLeadershipTerm with
  | none => slot.store lease
  | some floor =>
    if floor < lease.body.leadershipTerm then slot.store lease
    else (slot, .rejectedFencingConflict floor lease.body.leadershipTerm)

/-- Claim the seat, once the claim's structure has been checked. -/
def claim (nowMs skewMs : Nat) : SeatSlot × SeatDecision :=
  match slot.lease with
  | none => slot.claimAboveFloor lease
  | some current =>
    if keysMatch current.body lease.body = false then
      (slot, .rejectedStructural "claim run/role does not match the slot")
    else if current.body.claimant = lease.body.claimant then
      -- a refresh at the held term, or the claimant's own advance
      if current.body.leadershipTerm ≤ lease.body.leadershipTerm then slot.store lease
      else (slot, .rejectedFencingConflict current.body.leadershipTerm lease.body.leadershipTerm)
    else if current.isExpired nowMs skewMs = false then (slot, .rejectedHeld)
    else slot.claimAboveFloor lease

/-- Renew the held lease. -/
def renew : SeatSlot × SeatDecision :=
  match slot.lease with
  | none => (slot, .rejectedNotHeld)
  | some current =>
    if keysMatch current.body lease.body = false then
      (slot, .rejectedStructural "renew run/role does not match the slot")
    else if lease.body.claimant ≠ current.body.claimant ∨
        lease.body.leadershipTerm ≠ current.body.leadershipTerm ∨
        lease.body.incarnation ≠ current.body.incarnation then
      (slot, .rejectedFencingConflict current.body.leadershipTerm lease.body.leadershipTerm)
    else slot.store lease

/-- Give the seat up; the floor persists. -/
def release (request : SeatRelease) : SeatSlot × SeatDecision :=
  match slot.lease with
  | none => (slot, .rejectedNotHeld)
  | some current =>
    if request.body.runId ≠ current.body.runId ∨ request.body.role ≠ current.body.role then
      (slot, .rejectedStructural "release run/role does not match the slot")
    else if request.body.claimant ≠ current.body.claimant ∨
        request.body.leadershipTerm ≠ current.body.leadershipTerm then
      (slot, .rejectedFencingConflict current.body.leadershipTerm request.body.leadershipTerm)
    else (⟨none, slot.lastLeadershipTerm⟩, .accepted)

/-- The compare-and-swap every registry applies to a request. -/
def fold (request : SeatRequest) (nowMs skewMs : Nat) : SeatSlot × SeatDecision :=
  match request with
  | .claim lease =>
    match lease.body.validate with
    | .error refusal => (slot, .rejectedStructural refusal.display)
    | .ok _ => slot.claim lease nowMs skewMs
  | .renew lease =>
    match lease.body.validate with
    | .error refusal => (slot, .rejectedStructural refusal.display)
    | .ok _ => slot.renew lease
  | .release request =>
    match request.body.validate with
    | .error refusal => (slot, .rejectedStructural refusal.display)
    | .ok _ => slot.release request

/-- A lease may be stored: it continues the holder's tenure at its term or a
greater one, or its term is above the floor. -/
def Admissible : Prop :=
  (∃ current, slot.lease = some current ∧
      current.body.claimant = lease.body.claimant ∧
      current.body.leadershipTerm ≤ lease.body.leadershipTerm) ∨
    ∀ floor, slot.lastLeadershipTerm = some floor → floor < lease.body.leadershipTerm

end

/-- The outcomes of a request: refused without change, a lease stored, or the
held lease given up. -/
inductive Outcome (slot : SeatSlot) :
    SeatRequest → SeatSlot × SeatDecision → Prop
  | refused {request decision} : decision ≠ .accepted → Outcome slot request (slot, decision)
  | claimed {lease} : slot.Admissible lease → Outcome slot (.claim lease) (slot.store lease)
  | renewed {lease} : slot.Admissible lease → Outcome slot (.renew lease) (slot.store lease)
  | released {request} :
      Outcome slot (.release request) (⟨none, slot.lastLeadershipTerm⟩, .accepted)

variable {slot : SeatSlot}

theorem claimAboveFloor_outcome (lease : SeatLease) :
    Outcome slot (.claim lease) (slot.claimAboveFloor lease) := by
  unfold claimAboveFloor
  split
  · rename_i noFloor
    apply Outcome.claimed
    right
    simp [noFloor]
  · rename_i floor isFloor
    split
    · rename_i above
      apply Outcome.claimed
      right
      intro highest highestFloor
      obtain rfl := Option.some.inj (isFloor.symm.trans highestFloor)
      exact above
    · exact .refused (by simp)

theorem claim_outcome (lease : SeatLease) (nowMs skewMs : Nat) :
    Outcome slot (.claim lease) (slot.claim lease nowMs skewMs) := by
  unfold claim
  split
  · exact claimAboveFloor_outcome lease
  · rename_i current held
    split_ifs with keys sameClaimant notBelow live
    · exact .refused (by simp)
    · exact .claimed (.inl ⟨current, held, sameClaimant, notBelow⟩)
    · exact .refused (by simp)
    · exact .refused (by simp)
    · exact claimAboveFloor_outcome lease

theorem renew_outcome (lease : SeatLease) : Outcome slot (.renew lease) (slot.renew lease) := by
  unfold renew
  split
  · exact .refused (by simp)
  · rename_i current held
    split_ifs with keys differs
    · exact .refused (by simp)
    · exact .refused (by simp)
    · push Not at differs
      exact .renewed (.inl ⟨current, held, differs.1.symm, differs.2.1.ge⟩)

theorem fold_outcome (request : SeatRequest) (nowMs skewMs : Nat) :
    Outcome slot request (slot.fold request nowMs skewMs) := by
  cases request with
  | claim lease =>
    simp only [fold]
    split
    · exact .refused (by simp)
    · exact claim_outcome lease nowMs skewMs
  | renew lease =>
    simp only [fold]
    split
    · exact .refused (by simp)
    · exact renew_outcome lease
  | release request =>
    simp only [fold]
    split
    · exact .refused (by simp)
    · unfold release
      split
      · exact .refused (by simp)
      · split_ifs
        · exact .refused (by simp)
        · exact .refused (by simp)
        · exact .released

/-- A request with the registry's clock and skew grace. -/
structure TimedRequest where
  request : SeatRequest
  (nowMs skewMs : Nat)

/-- The slot as a machine that answers each request with its decision. -/
def registry : StepFunction SeatSlot TimedRequest SeatDecision :=
  fun slot timed =>
    let (after, decision) := slot.fold timed.request timed.nowMs timed.skewMs
    some (after, [decision])

abbrev SeatStep := Step SeatSlot TimedRequest SeatDecision

def storedBy (step : SeatStep) : Option SeatLease :=
  if step.output = [.accepted] then
    match step.input.request with
    | .claim lease => some lease
    | .renew lease => some lease
    | .release _ => none
  else none

/-- The leases a run stored, oldest first. -/
def stored (trace : List SeatStep) : List SeatLease :=
  trace.filterMap storedBy

theorem stored_concat (trace : List SeatStep) (step : SeatStep) :
    stored (trace ++ [step]) = stored trace ++ (storedBy step).toList := by
  rw [stored, List.filterMap_append, List.filterMap_cons, List.filterMap_nil]
  cases storedBy step with
  | none | some => rfl

/-- What one step of a slot does to it and to the leases stored. -/
inductive Move (slot : SeatSlot) : Option SeatLease → SeatSlot → Prop
  | unchanged : Move slot none slot
  | store {lease} : slot.Admissible lease → Move slot (some lease) (slot.store lease).1
  | vacate : Move slot none ⟨none, slot.lastLeadershipTerm⟩

/-- A step is a move, and it is no move when it is refused. -/
theorem registry_move (stepped : graph registry slot timed output after) :
    Move slot (storedBy ⟨slot, timed, after, output⟩) after ∧
      (output ≠ [.accepted] → after = slot) := by
  obtain ⟨request, nowMs, skewMs⟩ := timed
  have outcome : Outcome slot request (slot.fold request nowMs skewMs) :=
    fold_outcome request nowMs skewMs
  simp only [graph, registry, Option.some.injEq, Prod.mk.injEq] at stepped
  obtain ⟨rfl, rfl⟩ := stepped
  generalize slot.fold request nowMs skewMs = result at outcome
  cases outcome with
  | refused refused =>
    refine ⟨?_, fun _ => rfl⟩
    rw [storedBy, if_neg (by simpa using refused)]
    exact .unchanged
  | claimed admissible => exact ⟨.store admissible, fun refused => absurd rfl refused⟩
  | renewed admissible => exact ⟨.store admissible, fun refused => absurd rfl refused⟩
  | released => exact ⟨.vacate, fun refused => absurd rfl refused⟩

/-- The slot's lease and floor stand for a register whose history is the leases
stored. -/
def Registers (history : List SeatLease) (slot : SeatSlot) : Prop :=
  Terms.Fenced (history.map SeatLease.tenure) (slot.lease.map SeatLease.tenure)
    slot.lastLeadershipTerm

/-- The same, with any owner read off a lease. -/
def Stands (own : SeatLease → Owner) (history : List SeatLease) (slot : SeatSlot) : Prop :=
  Terms.Fenced (history.map fun lease => (lease.body.leadershipTerm, own lease))
    (slot.lease.map fun lease => (lease.body.leadershipTerm, own lease)) slot.lastLeadershipTerm

namespace Stands

variable {own : SeatLease → Owner} (stands : Stands own history slot)

include stands

theorem floor_of_held (held : slot.lease = some current) :
    slot.lastLeadershipTerm = some current.body.leadershipTerm :=
  (Terms.Fenced.held stands (_, own current) (by rw [held]; rfl)).2

/-- An admissible lease may follow everything stored, if at the held tenure it
leaves the owner as it is. -/
theorem follows {lease : SeatLease} (admissible : slot.Admissible lease)
    (keeps : ∀ current ∈ slot.lease, current.tenure = lease.tenure → own current = own lease) :
    ∀ tenure ∈ history.map fun lease => (lease.body.leadershipTerm, own lease),
      Terms.Follows tenure (lease.body.leadershipTerm, own lease) := by
  rcases admissible with ⟨current, held, sameClaimant, notBelow⟩ | above
  · rcases notBelow.lt_or_eq with less | sameTerm
    · apply Terms.Fenced.follows_of_floor_lt stands
      rw [stands.floor_of_held held]
      rintro _ ⟨⟩
      exact less
    · refine Terms.Fenced.follows_of_holder stands
        (show (_, own current) ∈ slot.lease.map _ by rw [held]; rfl) ?_ notBelow
      exact keeps current held (Prod.ext sameTerm sameClaimant)
  · exact Terms.Fenced.follows_of_floor_lt stands above

/-- Storing an admissible lease leaves its term as the floor. -/
theorem store_floor {lease : SeatLease} (admissible : slot.Admissible lease) :
    (slot.store lease).1.lastLeadershipTerm = some lease.body.leadershipTerm := by
  simp only [store]
  cases isFloor : slot.lastLeadershipTerm with
  | none => rfl
  | some floor =>
    have below : floor ≤ lease.body.leadershipTerm := by
      rcases admissible with ⟨current, held, -, notBelow⟩ | above
      · obtain rfl := Option.some.inj (isFloor.symm.trans (stands.floor_of_held held))
        exact notBelow
      · exact (above floor isFloor).le
    exact congrArg some (max_eq_right below)

theorem move (move : Move slot granted after)
    (keeps : ∀ lease ∈ granted, ∀ current ∈ slot.lease, current.tenure = lease.tenure →
      own current = own lease) :
    Stands own (history ++ granted.toList) after ∧
      ∀ floor ∈ slot.lastLeadershipTerm, ∃ higher ∈ after.lastLeadershipTerm, floor ≤ higher := by
  cases move with
  | unchanged =>
    rw [Option.toList_none, List.append_nil]
    exact ⟨stands, fun floor isFloor => ⟨floor, isFloor, le_rfl⟩⟩
  | vacate =>
    rw [Option.toList_none, List.append_nil]
    exact ⟨Terms.Fenced.vacate stands, fun floor isFloor => ⟨floor, isFloor, le_rfl⟩⟩
  | @store lease admissible =>
    constructor
    · rw [Stands, stands.store_floor admissible, Option.toList_some, List.map_append]
      exact Terms.Fenced.grant stands (stands.follows admissible (keeps lease rfl))
    · intro floor isFloor
      refine ⟨_, rfl, ?_⟩
      rw [Option.mem_def.mp isFloor]
      exact le_max_left floor _

end Stands

theorem Registers.move (registers : Registers history slot) (move : Move slot granted after) :
    Registers (history ++ granted.toList) after ∧
      ∀ floor ∈ slot.lastLeadershipTerm, ∃ higher ∈ after.lastLeadershipTerm, floor ≤ higher :=
  Stands.move registers move fun _ _ _ _ same => (Prod.mk.inj same).2

/-- Along every run the slot stands for a register of the leases stored. -/
theorem registers_of_run (run : Run (graph registry) new trace slot) :
    Registers (stored trace) slot := by
  have initial : Registers (stored []) new := Terms.Fenced.empty
  refine run.history (fun trace slot => Registers (stored trace) slot) initial ?_
  intro trace slot timed after output _ registers stepped
  rw [stored_concat]
  exact (registers.move (registry_move stepped).1).1

/-- Terms fence the whole history of a slot. The floor never falls and is the
held lease's term, a refused request changes nothing, a term has one claimant,
and where the claimant changes the term is above every one stored before. -/
theorem seat_terms_fence_history (run : Run (graph registry) new trace slot) :
    (∀ step ∈ trace, ∀ floor ∈ step.before.lastLeadershipTerm,
      ∃ higher ∈ step.after.lastLeadershipTerm, floor ≤ higher) ∧
    (∀ lease, slot.lease = some lease → slot.lastLeadershipTerm = some lease.body.leadershipTerm) ∧
    (∀ step ∈ trace, step.output ≠ [.accepted] → step.after = step.before) ∧
    (∀ first ∈ stored trace, ∀ second ∈ stored trace,
      first.body.leadershipTerm = second.body.leadershipTerm →
      first.body.claimant = second.body.claimant) ∧
    (∀ earlier previous next later,
      stored trace = earlier ++ previous :: next :: later →
      previous.body.claimant ≠ next.body.claimant →
      ∀ old ∈ earlier ++ [previous], old.body.leadershipTerm < next.body.leadershipTerm) := by
  have registers := registers_of_run run
  refine ⟨?_, ?_, ?_, ?_, ?_⟩
  · intro step member
    obtain ⟨⟨before, reached⟩, stepped⟩ := run.before_reached member
    exact ((registers_of_run reached).move (registry_move stepped).1).2
  · exact fun lease => Stands.floor_of_held registers
  · intro step member
    exact (registry_move (run.before_reached member).2).2
  · intro first firstMember second secondMember sameTerm
    have same := registers.ordered.eq_of_term_eq (List.mem_map_of_mem firstMember)
      (List.mem_map_of_mem secondMember) sameTerm
    exact congrArg Prod.snd same
  · intro earlier previous next later parted changed old member
    have ordered := registers.ordered
    rw [parted, List.map_append, List.map_cons, List.map_cons] at ordered
    apply ordered.lt_of_change changed old.tenure
    have mapped := List.mem_map_of_mem member (f := SeatLease.tenure)
    rwa [List.map_append, List.map_singleton] at mapped

/-- A well-formed lease of a run that is all zeros. -/
def plainLease (claimant : PeerId) (term expiresAtMs : Nat) : SeatLease where
  body :=
    { domain := seatLeaseDomain
      runId := fill 32 0
      role := "coordinator"
      epoch := 0
      incarnation := term
      leadershipTerm := term
      claimant := claimant
      moduleHash := fill 32 0
      endpoint := ⟨some "wss", none⟩
      issuedAtMs := 0
      expiresAtMs := expiresAtMs
      heartbeatIntervalMs := 1 }
  certificate :=
    { body :=
        { domain := certDomainV2
          scope := ⟨fill 32 0, 0, "coordinator", term, fill 32 0⟩
          runKey := claimant }
      baseIdentity := claimant
      sig := fill 64 0 }
  sig := fill 64 0

/-- A takeover once the first lease has expired. -/
def takeoverRequests : List TimedRequest :=
  [⟨.claim (plainLease (fill 32 1) 3 10), 0, 5⟩,
    ⟨.claim (plainLease (fill 32 2) 9 30), 15, 5⟩,
    ⟨.claim (plainLease (fill 32 2) 9 30), 16, 5⟩]

theorem takeover_run :
    ∃ trace slot, Run (graph registry) new trace slot ∧
      stored trace = [plainLease (fill 32 1) 3 10, plainLease (fill 32 2) 9 30] := by
  exact Run.of_checked_exec _ _ takeoverRequests _ (by decide +kernel)

theorem takeover_fences_predecessor :
    ∃ trace slot, Run (graph registry) new trace slot ∧
      stored trace = [plainLease (fill 32 1) 3 10, plainLease (fill 32 2) 9 30] ∧
      ∀ old ∈ [plainLease (fill 32 1) 3 10], old.body.leadershipTerm < 9 := by
  obtain ⟨trace, slot, run, storedTrace⟩ := takeover_run
  exact ⟨trace, slot, run, storedTrace,
    (seat_terms_fence_history run).2.2.2.2 [] _ _ [] storedTrace (by decide)⟩

/-- A claim by the holder at its term comes from the incarnation that holds the seat. -/
def keepsIncarnation (step : SeatStep) : Bool :=
  match step.input.request, step.before.lease with
  | .claim lease, some held =>
    held.tenure ≠ lease.tenure || held.body.incarnation = lease.body.incarnation
  | _, _ => true

/-- Renewals keep the incarnation of the held lease, so what claims do decides. -/
theorem incarnation_of_storedBy {lease : SeatLease}
    (stepped : graph registry slot timed output after)
    (keeps : keepsIncarnation ⟨slot, timed, after, output⟩ = true)
    (stores : storedBy ⟨slot, timed, after, output⟩ = some lease)
    (held : slot.lease = some current) (same : current.tenure = lease.tenure) :
    current.body.incarnation = lease.body.incarnation := by
  obtain ⟨request, nowMs, skewMs⟩ := timed
  have accepted : output = [.accepted] := by
    by_contra refused
    rw [storedBy, if_neg refused] at stores
    cases stores
  rw [storedBy, if_pos accepted] at stores
  have decided : [(slot.fold request nowMs skewMs).2] = [.accepted] :=
    (Prod.mk.inj (Option.some.inj stepped)).2.trans accepted
  cases request with
  | claim claimed =>
    cases stores
    simpa [keepsIncarnation, held, same] using keeps
  | renew renewed =>
    cases stores
    simp only [fold, renew, held] at decided
    split at decided
    · cases decided
    split_ifs at decided with keys differs
    · cases decided
    · cases decided
    · push Not at differs
      exact differs.2.2.symm
  | release => cases stores

/-- The leases stored at one term have one claimant. They have one incarnation
too, if no claim by the holder at its term comes from another one. -/
theorem one_execution_per_term (run : Run (graph registry) new trace slot)
    (keeps : ∀ step ∈ trace, keepsIncarnation step = true) :
    ∀ first ∈ stored trace, ∀ second ∈ stored trace,
      first.body.leadershipTerm = second.body.leadershipTerm →
      first.body.claimant = second.body.claimant ∧
        first.body.incarnation = second.body.incarnation := by
  have stands : Stands (fun lease => (lease.body.claimant, lease.body.incarnation))
      (stored trace) slot := by
    induction run with
    | nil => exact Terms.Fenced.empty
    | snoc _ stepped ih =>
      obtain ⟨earlier, last⟩ := Lists.forall_mem_concat.mp keeps
      rw [stored_concat]
      refine ((ih earlier).move (registry_move stepped).1 ?_).1
      intro lease stores current held same
      exact Prod.ext (Prod.mk.inj same).2 (incarnation_of_storedBy stepped last stores held same)
  intro first firstMember second secondMember sameTerm
  have same := stands.ordered.eq_of_term_eq (List.mem_map_of_mem firstMember)
    (List.mem_map_of_mem secondMember) sameTerm
  exact Prod.mk.inj (Prod.mk.inj same).2

theorem renewed_one_execution :
    ∃ trace slot, Run (graph registry) new trace slot ∧ (stored trace).length = 3 ∧
      ∀ first ∈ stored trace, ∀ second ∈ stored trace,
        first.body.leadershipTerm = second.body.leadershipTerm →
        first.body.claimant = second.body.claimant ∧
          first.body.incarnation = second.body.incarnation := by
  obtain ⟨trace, slot, run, three, keeps⟩ := Run.of_checked_exec registry new
    [⟨.claim (plainLease (fill 32 1) 3 10), 0, 5⟩, ⟨.renew (plainLease (fill 32 1) 3 20), 1, 5⟩,
      ⟨.claim (plainLease (fill 32 1) 3 30), 2, 5⟩]
    (fun trace _ => (stored trace).length = 3 ∧ ∀ step ∈ trace, keepsIncarnation step = true)
    (by decide +kernel)
  exact ⟨trace, slot, run, three, one_execution_per_term run keeps⟩

/-- The holder claims its seat again at the same term, as another incarnation. -/
theorem claimed_by_two_incarnations :
    ∃ trace slot, Run (graph registry) new trace slot ∧
      (stored trace).map (fun lease => (lease.tenure, lease.body.incarnation)) =
        [((3, fill 32 1), 3), ((3, fill 32 1), 4)] := by
  let second := plainLease (fill 32 1) 3 30
  exact Run.of_checked_exec _ _ [⟨.claim (plainLease (fill 32 1) 3 10), 0, 5⟩,
    ⟨.claim { second with body := { second.body with incarnation := 4 } }, 1, 5⟩] _
    (by decide +kernel)

end SeatSlot

/-- A receiver's term floors: per run and role the highest verified term and the
claimant it binds. -/
structure SeatTermLedger where
  floors : Hash × String → Option (Nat × PeerId)

namespace SeatTermLedger

/-- An empty ledger. -/
def new : SeatTermLedger := ⟨fun _ => none⟩

section

variable (ledger : SeatTermLedger) (lease : SeatLease) (runId : Hash) (role : String)

/-- Advance a floor, unless the term is not above it. -/
def advance (key : Hash × String) (term : Nat) (claimant : PeerId) : SeatTermLedger :=
  match ledger.floors key with
  | some (floor, _) =>
    if term ≤ floor then ledger
    else ⟨Function.update ledger.floors key (some (term, claimant))⟩
  | none => ⟨Function.update ledger.floors key (some (term, claimant))⟩

def observeVerifiedGrant : SeatTermLedger :=
  ledger.advance (lease.body.runId, lease.body.role) lease.body.leadershipTerm lease.body.claimant

/-- The highest verified term. -/
def floor : Option Nat :=
  (ledger.floors (runId, role)).map Prod.fst

/-- Judge a lease against the floor. -/
def judge : Except SeatLeaseError Unit :=
  match ledger.floors (lease.body.runId, lease.body.role) with
  | none => .ok ()
  | some (floor, bound) =>
    if lease.body.leadershipTerm < floor ∨
        (lease.body.leadershipTerm = floor ∧ lease.body.claimant ≠ bound) then
      .error (.termSuperseded lease.body.leadershipTerm floor)
    else .ok ()

/-- Whether `sender` is the claimant bound at the highest verified term. -/
def binds (sender : PeerId) : Option Bool :=
  (ledger.floors (runId, role)).map fun entry => entry.2 = sender

end

/-- The ledger of a receiver that observed `seen`, in this order. -/
def observing (seen : List SeatLease) : SeatTermLedger :=
  seen.foldl observeVerifiedGrant new

def addresses (runId : Hash) (role : String) (lease : SeatLease) : Bool :=
  lease.body.runId = runId && lease.body.role = role

theorem advance_floors (ledger : SeatTermLedger) (key : Hash × String) (term : Nat)
    (claimant : PeerId) :
    (ledger.advance key term claimant).floors =
      Function.update ledger.floors key (match ledger.floors key with
        | some kept => if term ≤ kept.1 then some kept else some (term, claimant)
        | none => some (term, claimant)) := by
  unfold advance
  cases kept : ledger.floors key with
  | none => rfl
  | some entry =>
    simp only
    split
    · rw [← kept, Function.update_eq_self]
    · rfl

/-- A ledger keeps the first grant of the highest term seen for the key. -/
theorem observing_floors (seen : List SeatLease) (runId : Hash) (role : String) :
    (observing seen).floors (runId, role) =
      ((seen.filter (addresses runId role)).argmax fun lease =>
        lease.body.leadershipTerm).map SeatLease.tenure := by
  induction seen using List.reverseRecOn with
  | nil => rfl
  | append_singleton seen lease ih =>
    have observed : observing (seen ++ [lease]) = (observing seen).observeVerifiedGrant lease := by
      rw [observing, List.foldl_append]
      rfl
    rw [observed, observeVerifiedGrant, advance_floors, List.filter_append]
    by_cases addressed : addresses runId role lease = true
    · have key : (runId, role) = (lease.body.runId, lease.body.role) := by
        simp only [addresses, Bool.and_eq_true, decide_eq_true_eq] at addressed
        rw [addressed.1, addressed.2]
      rw [List.filter_singleton, addressed, cond_true, List.argmax_concat, ← key,
        Function.update_self, ih]
      cases (seen.filter (addresses runId role)).argmax
          (fun lease => lease.body.leadershipTerm) with
      | none => rfl
      | some kept =>
        simp only [Option.map_some, SeatLease.tenure, ← not_lt, ite_not]
        split
        · rfl
        · rfl
    · have key : (runId, role) ≠ (lease.body.runId, lease.body.role) := by
        intro same
        cases same
        simp [addresses] at addressed
      rw [Function.update_of_ne key, ih, List.filter_singleton,
        eq_false_of_ne_true addressed, cond_false, List.append_nil]

/-- A receiver that saw only stored leases binds, at its floor, the claimant of
every lease stored at that term. -/
theorem binds_of_floor (ordered : Terms.Ordered (granted.map SeatLease.tenure))
    (subset : seen ⊆ granted) (isFloor : (observing seen).floor runId role = some term) :
    (∃ lease ∈ granted, addresses runId role lease = true ∧ lease.body.leadershipTerm = term) ∧
    ∀ lease ∈ granted, lease.body.leadershipTerm = term →
      ∀ sender, (observing seen).binds runId role sender =
        some (decide (lease.body.claimant = sender)) := by
  rw [floor, observing_floors, Option.map_map] at isFloor
  obtain ⟨latest, kept, rfl⟩ := Option.map_eq_some_iff.mp isFloor
  obtain ⟨latestSeen, addressed⟩ := List.mem_filter.mp (List.argmax_mem kept)
  refine ⟨⟨latest, subset latestSeen, addressed, rfl⟩, ?_⟩
  intro lease member sameTerm sender
  have same := ordered.eq_of_term_eq (List.mem_map_of_mem member)
    (List.mem_map_of_mem (subset latestSeen)) sameTerm
  have sameClaimant : lease.body.claimant = latest.body.claimant := (Prod.mk.inj same).2
  rw [binds, observing_floors, kept, sameClaimant]
  rfl

/-- No split brain: whatever the registry stored and whichever of those leases
each receiver saw, in whatever order, a receiver's floor is the highest term it
saw, it binds the claimant the registry stored there, receivers at one floor bind
one claimant, and what is below the floor or from another claimant is refused. -/
theorem receivers_never_split {Receiver : Type} {trace : List SeatSlot.SeatStep} {slot : SeatSlot}
    (run : Run (graph SeatSlot.registry) SeatSlot.new trace slot) (seen : Receiver → List SeatLease)
    (subset : ∀ receiver, seen receiver ⊆ SeatSlot.stored trace) (runId : Hash) (role : String) :
    (∀ receiver, (observing (seen receiver)).floor runId role =
      (((seen receiver).filter (addresses runId role)).map fun lease =>
        lease.body.leadershipTerm).max?) ∧
    (∀ receiver term, (observing (seen receiver)).floor runId role = some term →
      (∃ lease ∈ SeatSlot.stored trace, addresses runId role lease = true ∧
        lease.body.leadershipTerm = term) ∧
      ∀ lease ∈ SeatSlot.stored trace, lease.body.leadershipTerm = term →
        ∀ sender, (observing (seen receiver)).binds runId role sender =
          some (decide (lease.body.claimant = sender))) ∧
    (∀ first second,
      (observing (seen first)).floor runId role = (observing (seen second)).floor runId role →
      ∀ sender, (observing (seen first)).binds runId role sender =
        (observing (seen second)).binds runId role sender) ∧
    (∀ receiver term lease,
      (observing (seen receiver)).floor runId role = some term →
      addresses runId role lease = true →
      lease.body.leadershipTerm < term ∨
        (lease.body.leadershipTerm = term ∧
          (observing (seen receiver)).binds runId role lease.body.claimant = some false) →
      (observing (seen receiver)).judge lease =
        .error (.termSuperseded lease.body.leadershipTerm term)) := by
  have ordered := (SeatSlot.registers_of_run run).ordered
  have bound := fun receiver term
      (isFloor : (observing (seen receiver)).floor runId role = some term) =>
    binds_of_floor ordered (subset receiver) isFloor
  refine ⟨?_, bound, ?_, ?_⟩
  · intro receiver
    rw [floor, observing_floors, Option.map_map]
    exact Terms.map_argmax_eq_max?
  · intro first second sameFloor sender
    cases isFloor : (observing (seen second)).floor runId role with
    | none =>
      have noEntry : ∀ receiver, (observing (seen receiver)).floor runId role = none →
          (observing (seen receiver)).binds runId role sender = none := by
        intro receiver noFloor
        rw [floor, Option.map_eq_none_iff] at noFloor
        rw [binds, noFloor, Option.map_none]
      rw [noEntry first (sameFloor.trans isFloor), noEntry second isFloor]
    | some term =>
      obtain ⟨⟨lease, member, -, sameTerm⟩, -⟩ := bound second term isFloor
      rw [(bound first term (sameFloor.trans isFloor)).2 lease member sameTerm sender,
        (bound second term isFloor).2 lease member sameTerm sender]
  · intro receiver term lease isFloor addressed superseded
    simp only [addresses, Bool.and_eq_true, decide_eq_true_eq] at addressed
    obtain ⟨rfl, rfl⟩ := addressed
    obtain ⟨⟨floor, bound⟩, entry, rfl⟩ := Option.map_eq_some_iff.mp isFloor
    rw [judge, entry]
    apply if_pos
    rcases superseded with below | ⟨sameTerm, other⟩
    · exact .inl below
    · rw [binds, entry, Option.map_some, Option.some_inj, decide_eq_false_iff_not] at other
      exact .inr ⟨sameTerm, Ne.symm other⟩

/-- Two receivers see the takeover, one of them out of order and twice. -/
theorem takeover_receivers_agree :
    ∃ trace slot, Run (graph SeatSlot.registry) SeatSlot.new trace slot ∧
      ∃ seen : Bool → List SeatLease,
        (∀ receiver, seen receiver ⊆ SeatSlot.stored trace) ∧ seen false ≠ seen true ∧
        ∀ sender, (observing (seen false)).binds (fill 32 0) "coordinator" sender =
          (observing (seen true)).binds (fill 32 0) "coordinator" sender := by
  obtain ⟨trace, slot, run, storedTrace⟩ := SeatSlot.takeover_run
  let first := SeatSlot.plainLease (fill 32 1) 3 10
  let second := SeatSlot.plainLease (fill 32 2) 9 30
  let seen : Bool → List SeatLease := fun receiver =>
    if receiver then [second, first, second] else [second]
  have subset : ∀ receiver, seen receiver ⊆ SeatSlot.stored trace := by
    rw [storedTrace]
    decide +kernel
  refine ⟨trace, slot, run, seen, subset, by decide +kernel, ?_⟩
  exact (receivers_never_split run seen subset (fill 32 0) "coordinator").2.2.1
    false true (by decide +kernel)

end SeatTermLedger

end DaemonNode
