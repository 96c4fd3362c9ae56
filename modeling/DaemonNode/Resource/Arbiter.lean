import DaemonNode.Lib.Machine
import DaemonNode.Lib.Word
import Mathlib.Algebra.Order.BigOperators.Group.List
import Mathlib.Algebra.Order.Group.Nat
import Mathlib.Data.List.Perm.Subperm
import Mathlib.Data.Prod.Lex

/-!
# The owner's arbiter

A role instance is admitted against what is left of the owner's budget: the memory of its
device, host memory, disk, the two directions of the network, and duty. Every call holds
one lock, so calls are steps. What is left is computed anew from the reservations; it is
the budget less what they charge. A reconciliation records what is running whether or not
it fits.
-/

namespace DaemonNode.Arbiter

open Machine
open Word (saturatingAdd)

/-- The name of an accelerator. -/
abbrev DeviceId := String

/-- Bytes on the device and on its host. -/
structure TierBytes where
  (device host : Nat)
  deriving DecidableEq, Repr

/-- The memory that an instance claims, in three tiers. -/
structure ClaimTiers where
  (hardAccountable declaredPeak workspace : TierBytes)
  deriving DecidableEq, Repr

namespace ClaimTiers

/-- All device memory of a claim. -/
def deviceTotal (tiers : ClaimTiers) : Nat :=
  saturatingAdd 64 (saturatingAdd 64 tiers.hardAccountable.device tiers.declaredPeak.device)
    tiers.workspace.device

/-- All host memory of a claim. -/
def hostTotal (tiers : ClaimTiers) : Nat :=
  saturatingAdd 64 (saturatingAdd 64 tiers.hardAccountable.host tiers.declaredPeak.host)
    tiers.workspace.host

end ClaimTiers

/-- What one instance is charged for. -/
structure InstanceCharge where
  device : DeviceId
  tiers : ClaimTiers
  (diskBytes netUpBps netDownBps dutyPct : Nat)
  deriving DecidableEq, Repr

/-- What an owner grants; a device that is not listed is not granted. -/
structure OwnerBudget where
  deviceMemory : DeviceId → Option Nat
  (hostRam disk netUpBps netDownBps dutyPct maxInstances : Nat)

/-- Why an instance is not admitted. -/
inductive AdmitRefusal
  | unknownDevice (device : DeviceId)
  | deviceMemoryExhausted (device : DeviceId) (requested remaining : Nat)
  | hostRamExhausted (requested remaining : Nat)
  | diskExhausted (requested remaining : Nat)
  | netUpExhausted (requested remaining : Nat)
  | netDownExhausted (requested remaining : Nat)
  | dutyExhausted (requested remaining : Nat)
  | maxInstances (max : Nat)
  | duplicateInstance
  deriving DecidableEq, Repr

/-- A charge that was admitted, and its priority. -/
structure Reserved where
  charge : InstanceCharge
  priority : Nat
  deriving DecidableEq, Repr

/-- What is left of a budget, and how many instances are charged. -/
structure BudgetSnapshot where
  deviceMemory : DeviceId → Option Nat
  (hostRam disk netUpBps netDownBps dutyPct instances : Nat)

/-- The reservations under a budget. Only the order of their keys matters, so the keys are
of any ordered type. -/
structure Ledgers (Id : Type) where
  budget : OwnerBudget
  entries : List (Id × Reserved)
  distinct : (entries.map Prod.fst).Nodup

/-- Nothing is charged yet. -/
def OwnerBudget.snapshot (budget : OwnerBudget) : BudgetSnapshot where
  deviceMemory := budget.deviceMemory
  hostRam := budget.hostRam
  disk := budget.disk
  netUpBps := budget.netUpBps
  netDownBps := budget.netDownBps
  dutyPct := budget.dutyPct
  instances := 0

/-- One reservation is charged. -/
def BudgetSnapshot.debit
    (charge : InstanceCharge)
    (snap : BudgetSnapshot) : BudgetSnapshot where
  deviceMemory := fun device =>
    if device = charge.device then (snap.deviceMemory device).map (· - charge.tiers.deviceTotal)
    else snap.deviceMemory device
  hostRam := snap.hostRam - charge.tiers.hostTotal
  disk := snap.disk - charge.diskBytes
  netUpBps := snap.netUpBps - charge.netUpBps
  netDownBps := snap.netDownBps - charge.netDownBps
  dutyPct := snap.dutyPct - charge.dutyPct
  instances := snap.instances + 1

/-- Compare a charge with what is left, ledger by ledger; the first that is short refuses. -/
def check
    (snap : BudgetSnapshot)
    (budget : OwnerBudget)
    (charge : InstanceCharge) :
    Except AdmitRefusal Unit :=
  if budget.maxInstances ≤ snap.instances then .error (.maxInstances budget.maxInstances)
  else
    match snap.deviceMemory charge.device with
    | none => .error (.unknownDevice charge.device)
    | some remaining =>
      if remaining < charge.tiers.deviceTotal then
        .error (.deviceMemoryExhausted charge.device charge.tiers.deviceTotal remaining)
      else if snap.hostRam < charge.tiers.hostTotal then
        .error (.hostRamExhausted charge.tiers.hostTotal snap.hostRam)
      else if snap.disk < charge.diskBytes then .error (.diskExhausted charge.diskBytes snap.disk)
      else if snap.netUpBps < charge.netUpBps then
        .error (.netUpExhausted charge.netUpBps snap.netUpBps)
      else if snap.netDownBps < charge.netDownBps then
        .error (.netDownExhausted charge.netDownBps snap.netDownBps)
      else if snap.dutyPct < charge.dutyPct then .error (.dutyExhausted charge.dutyPct snap.dutyPct)
      else .ok ()

variable {Id : Type}

/-- What is counted against the budget. -/
inductive Ledger
  | device (id : DeviceId)
  | hostRam
  | disk
  | netUp
  | netDown
  | duty

/-- What a charge takes from a ledger. -/
def InstanceCharge.on (charge : InstanceCharge) : Ledger → Nat
  | .device id => if id = charge.device then charge.tiers.deviceTotal else 0
  | .hostRam => charge.tiers.hostTotal
  | .disk => charge.diskBytes
  | .netUp => charge.netUpBps
  | .netDown => charge.netDownBps
  | .duty => charge.dutyPct

/-- What the budget grants on a ledger. -/
def OwnerBudget.grant (budget : OwnerBudget) : Ledger → Option Nat
  | .device id => budget.deviceMemory id
  | .hostRam => some budget.hostRam
  | .disk => some budget.disk
  | .netUp => some budget.netUpBps
  | .netDown => some budget.netDownBps
  | .duty => some budget.dutyPct

/-- What is left on a ledger. -/
def BudgetSnapshot.left (snap : BudgetSnapshot) : Ledger → Option Nat
  | .device id => snap.deviceMemory id
  | .hostRam => some snap.hostRam
  | .disk => some snap.disk
  | .netUp => some snap.netUpBps
  | .netDown => some snap.netDownBps
  | .duty => some snap.dutyPct

/-- What reservations take from a ledger. -/
def used
    (entries : List (Id × Reserved))
    (ledger : Ledger) : Nat :=
  (entries.map fun entry => entry.2.charge.on ledger).sum

/-- A charge fits beside some reservations. -/
structure Fits
    (budget : OwnerBudget)
    (entries : List (Id × Reserved))
    (charge : InstanceCharge) :
    Prop where
  count : entries.length < budget.maxInstances
  known : ∃ grant, budget.deviceMemory charge.device = some grant
  room : ∀ ledger grant, budget.grant ledger = some grant →
    charge.on ledger ≤ grant - used entries ledger

section Room

variable {budget : OwnerBudget} {charge : InstanceCharge} {ledger : Ledger}
variable {entries others : List (Id × Reserved)}

/-- A charge that fits leaves its ledgers within the grant. -/
theorem Fits.within
    (fits : Fits budget entries charge)
    (charged : 0 < charge.on ledger) :
    ∃ grant, budget.grant ledger = some grant ∧ charge.on ledger + used entries ledger ≤ grant := by
  have granted : ∃ grant, budget.grant ledger = some grant := by
    cases ledger with
    | device id =>
      by_cases same : id = charge.device
      · exact same ▸ fits.known
      · simp [InstanceCharge.on, same] at charged
    | _ => exact ⟨_, rfl⟩
  obtain ⟨grant, granted⟩ := granted
  have room := fits.room ledger grant granted
  exact ⟨grant, granted, by omega⟩

theorem used_perm (same : entries.Perm others) : used entries ledger = used others ledger :=
  (same.map _).sum_eq

/-- Fewer reservations take no more. -/
theorem used_le_of_subperm (inside : entries.Subperm others) :
    used entries ledger ≤ used others ledger := by
  obtain ⟨listed, same, sub⟩ := inside
  rw [← used_perm same]
  exact (sub.map _).sum_le_sum fun _ _ => Nat.zero_le _

/-- A charge that fits beside some reservations fits beside fewer. -/
theorem Fits.mono
    (fits : Fits budget others charge)
    (fewer : entries.Subperm others) :
    Fits budget entries charge := by
  refine ⟨fewer.length_le.trans_lt fits.count, fits.known, fun ledger grant granted => ?_⟩
  have less : used entries ledger ≤ used others ledger := used_le_of_subperm fewer
  have room := fits.room ledger grant granted
  omega

/-- A reservation beside others leaves no room for a charge, on some ledger or for its count. -/
def Blocks
    (budget : OwnerBudget)
    (others : List (Id × Reserved))
    (charge : InstanceCharge)
    (entry : Id × Reserved) : Prop :=
  budget.maxInstances ≤ others.length + 1 ∨
    ∃ ledger grant, budget.grant ledger = some grant ∧
      grant - (entry.2.charge.on ledger + used others ledger) < charge.on ledger

theorem blocks_iff (fits : Fits budget others charge) :
    Blocks budget others charge entry ↔ ¬ Fits budget (entry :: others) charge := by
  constructor
  · rintro (full | ⟨ledger, grant, granted, short⟩) beside
    · exact absurd beside.count (Nat.not_lt.mpr full)
    · exact absurd (beside.room ledger grant granted) (Nat.not_le.mpr short)
  · intro refused
    by_contra free
    simp only [Blocks, not_or, not_le, not_exists, not_and, not_lt] at free
    exact refused ⟨free.1, fits.known, free.2⟩

theorem Ledgers.nodup_entries (ledgers : Ledgers Id) : ledgers.entries.Nodup :=
  .of_map Prod.fst ledgers.distinct

end Room

variable [LinearOrder Id]

namespace Ledgers

/-- No reservation yet. -/
def new (budget : OwnerBudget) : Ledgers Id where
  budget := budget
  entries := []
  distinct := List.nodup_nil

/-- The instances with a reservation. -/
def ids (ledgers : Ledgers Id) : List Id :=
  ledgers.entries.map Prod.fst

/-- What is left when some reservations are taken as released. -/
def remainingExcluding
    (exclude : List Id)
    (ledgers : Ledgers Id) : BudgetSnapshot :=
  ledgers.entries.foldl
    (fun snap entry => if entry.1 ∈ exclude then snap else snap.debit entry.2.charge)
    ledgers.budget.snapshot

/-- What all reservations leave. -/
def remaining (ledgers : Ledgers Id) : BudgetSnapshot :=
  ledgers.remainingExcluding []

/-- A reservation under a new key. -/
def insert
    (id : Id)
    (reserved : Reserved)
    (ledgers : Ledgers Id)
    (fresh : id ∉ ledgers.ids) :
    Ledgers Id where
  budget := ledgers.budget
  entries := (id, reserved) :: ledgers.entries
  distinct := List.nodup_cons.mpr ⟨fresh, ledgers.distinct⟩

/-- The reservations whose keys are kept. -/
def retain
    (keep : Id → Bool)
    (ledgers : Ledgers Id) : Ledgers Id where
  budget := ledgers.budget
  entries := ledgers.entries.filter fun entry => keep entry.1
  distinct := ledgers.distinct.sublist (List.filter_sublist.map Prod.fst)

/-- Admit an instance if it is new and its charge fits. -/
def admitInstance
    (id : Id)
    (charge : InstanceCharge)
    (priority : Nat)
    (ledgers : Ledgers Id) :
    Except AdmitRefusal Unit × Ledgers Id :=
  if fresh : id ∈ ledgers.ids then (.error .duplicateInstance, ledgers)
  else
    match check ledgers.remaining ledgers.budget charge with
    | .error refusal => (.error refusal, ledgers)
    | .ok () => (.ok (), ledgers.insert id ⟨charge, priority⟩ fresh)

/-- Drop a reservation, and tell whether there was one. -/
def release
    (id : Id)
    (ledgers : Ledgers Id) : Bool × Ledgers Id :=
  (decide (id ∈ ledgers.ids), ledgers.retain (· ≠ id))

/-- A live incarnation without a reservation is charged again, whether or not it fits. -/
def recharge
    (counted : Nat × Ledgers Id)
    (live : Id × Reserved) : Nat × Ledgers Id :=
  if fresh : live.1 ∈ counted.2.ids then counted
  else (counted.1 + 1, counted.2.insert live.1 live.2 fresh)

/-- Drop the reservations of dead instances and charge the live ones that have none. -/
def reconcile
    (live : List (Id × Reserved))
    (ledgers : Ledgers Id) : (Nat × Nat) × Ledgers Id :=
  let liveKeys := live.map Prod.fst
  let stale := ledgers.ids.filter (· ∉ liveKeys)
  let charged := live.foldl recharge (0, ledgers.retain (· ∈ liveKeys))
  ((stale.length, charged.1), charged.2)

/-- The loop of `plan_preemption`: one more victim until the incoming charge fits. -/
def choose
    (incoming : InstanceCharge)
    (ledgers : Ledgers Id) :
    List Id → List (Id × Reserved) → List Id
  | victims, [] => victims
  | victims, (id, _) :: rest =>
    match check (ledgers.remainingExcluding victims) ledgers.budget incoming with
    | .ok () => victims
    | .error _ => choose incoming ledgers (victims ++ [id]) rest

/-- Reservations of lower priority, the lowest first, in key order within a priority. -/
def candidates
    (priority : Nat)
    (ledgers : Ledgers Id) : List (Id × Reserved) :=
  (ledgers.entries.filter fun entry => entry.2.priority < priority).insertionSort
    fun first second => toLex (first.2.priority, first.1) ≤ toLex (second.2.priority, second.1)

/-- The victims after which the incoming charge fits, if it then does. -/
def planPreemption
    (incoming : InstanceCharge)
    (priority : Nat)
    (ledgers : Ledgers Id) :
    Option (List Id) :=
  let victims := ledgers.choose incoming [] (ledgers.candidates priority)
  match check (ledgers.remainingExcluding victims) ledgers.budget incoming with
  | .ok () => some victims
  | .error _ => none

end Ledgers

/-- The calls of the arbiter that change its reservations. -/
inductive Call (Id : Type)
  | admitInstance (id : Id) (charge : InstanceCharge) (priority : Nat)
  | release (id : Id)
  | reconcile (live : List (Id × Reserved))

/-- What a call answers. -/
inductive Answer
  | admitted (result : Except AdmitRefusal Unit)
  | released (existed : Bool)
  | reconciled (reclaimed recharged : Nat)

/-- A call holds the lock from its start to its end. -/
def Ledgers.serve (ledgers : Ledgers Id) : Call Id → Answer × Ledgers Id
  | .admitInstance id charge priority =>
    (ledgers.admitInstance id charge priority).map .admitted fun after => after
  | .release id => (ledgers.release id).map .released fun after => after
  | .reconcile live =>
    (ledgers.reconcile live).map (fun counts => .reconciled counts.1 counts.2)
      fun after => after

/-- The arbiter as a machine. -/
def step : StepFunction (Ledgers Id) (Call Id) Answer :=
  fun ledgers call => some ((ledgers.serve call).2, [(ledgers.serve call).1])

section Remaining

variable {ledgers : Ledgers Id} {budget : OwnerBudget} {charge : InstanceCharge}
variable {entries others : List (Id × Reserved)} {exclude : List Id}

open BudgetSnapshot (debit left)

theorem left_debit
    (snap : BudgetSnapshot)
    (ledger : Ledger) :
    (snap.debit charge).left ledger = (snap.left ledger).map (· - charge.on ledger) := by
  cases ledger with
  | device id =>
    by_cases same : id = charge.device
    · simp [left, debit, InstanceCharge.on, same]
    · simp [left, debit, InstanceCharge.on, same]
  | _ => rfl

theorem left_snapshot (ledger : Ledger) : budget.snapshot.left ledger = budget.grant ledger := by
  cases ledger <;> rfl

/-- The reservations that are not taken as released. -/
def Ledgers.kept
    (exclude : List Id)
    (ledgers : Ledgers Id) : List (Id × Reserved) :=
  ledgers.entries.filter (·.1 ∉ exclude)

/-- Debits that are floored at zero one by one leave what one debit of their sum leaves. -/
theorem left_remainingExcluding (ledger : Ledger) :
    (ledgers.remainingExcluding exclude).left ledger =
      (ledgers.budget.grant ledger).map (· - used (ledgers.kept exclude) ledger) := by
  rw [← left_snapshot, Ledgers.remainingExcluding, Ledgers.kept]
  generalize ledgers.budget.snapshot = snap
  induction ledgers.entries generalizing snap with
  | nil => simp [used]
  | cons entry rest ih =>
    rw [List.foldl_cons, ih]
    by_cases excluded : entry.1 ∈ exclude
    · simp [excluded]
    · simp [excluded, left_debit, used, Function.comp_def, Nat.sub_sub]

theorem instances_remainingExcluding :
    (ledgers.remainingExcluding exclude).instances = (ledgers.kept exclude).length := by
  have counted (entries : List (Id × Reserved)) (snap : BudgetSnapshot) :
      (entries.foldl (fun snap entry => if entry.1 ∈ exclude then snap
        else snap.debit entry.2.charge) snap).instances =
      snap.instances + (entries.filter (·.1 ∉ exclude)).length := by
    induction entries generalizing snap with
    | nil => rfl
    | cons entry rest ih =>
      rw [List.foldl_cons, ih]
      by_cases excluded : entry.1 ∈ exclude
      · simp [excluded]
      · simp only [excluded, if_false, not_false_eq_true, decide_true, List.filter_cons_of_pos,
          List.length_cons, debit]
        omega
  exact (counted _ _).trans (Nat.zero_add _)

@[simp] theorem kept_nil : ledgers.kept [] = ledgers.entries := by
  simp [Ledgers.kept]

/-- The check asks whether there is room on every ledger. -/
theorem check_eq_ok_iff :
    check snap budget charge = .ok () ↔
      snap.instances < budget.maxInstances ∧
        (∃ left, snap.deviceMemory charge.device = some left) ∧
        ∀ ledger left, snap.left ledger = some left → charge.on ledger ≤ left := by
  constructor
  · intro passed
    unfold check at passed
    split at passed
    · cases passed
    rename_i few
    split at passed
    · cases passed
    rename_i remaining found
    simp only [Checks.refuse_eq_ok_iff, not_lt, and_true] at passed
    obtain ⟨memory, ram, disk, up, down, duty⟩ := passed
    refine ⟨not_le.mp few, ⟨remaining, found⟩, ?_⟩
    intro ledger left there
    cases ledger with
    | device id =>
      by_cases same : id = charge.device
      · subst same
        cases found.symm.trans there
        simpa [InstanceCharge.on] using memory
      · simp [InstanceCharge.on, same]
    | hostRam => cases there; exact ram
    | disk => cases there; exact disk
    | netUp => cases there; exact up
    | netDown => cases there; exact down
    | duty => cases there; exact duty
  · rintro ⟨few, ⟨remaining, found⟩, room⟩
    have memory := room (.device charge.device) remaining found
    simp only [InstanceCharge.on, if_true] at memory
    rw [check, if_neg (not_le.mpr few), found]
    simp only [Checks.refuse_eq_ok_iff, not_lt, and_true]
    exact ⟨memory, room .hostRam _ rfl, room .disk _ rfl, room .netUp _ rfl, room .netDown _ rfl,
      room .duty _ rfl⟩

/-- The check passes exactly when the charge fits beside what is kept. -/
theorem check_remainingExcluding :
    check (ledgers.remainingExcluding exclude) ledgers.budget charge = .ok () ↔
      Fits ledgers.budget (ledgers.kept exclude) charge := by
  have left (ledger : Ledger) := @left_remainingExcluding Id _ ledgers exclude ledger
  rw [check_eq_ok_iff, instances_remainingExcluding]
  constructor
  · rintro ⟨count, ⟨memory, found⟩, room⟩
    obtain ⟨grant, known, -⟩ := Option.map_eq_some_iff.mp ((left (.device _)).symm.trans found)
    refine ⟨count, ⟨grant, known⟩, fun ledger grant granted => room ledger _ ?_⟩
    rw [left, granted]
    rfl
  · rintro ⟨count, ⟨grant, known⟩, room⟩
    refine ⟨count, ⟨_, (left (.device _)).trans (congrArg _ known)⟩, ?_⟩
    intro ledger remaining there
    obtain ⟨grant, granted, rfl⟩ := Option.map_eq_some_iff.mp ((left ledger).symm.trans there)
    exact room ledger grant granted

/-- A new instance is admitted exactly when its charge fits. -/
theorem admit_eq_ok_iff
    {id : Id}
    (fresh : id ∉ ledgers.ids) :
    (ledgers.admitInstance id charge priority).1 = .ok () ↔
      Fits ledgers.budget ledgers.entries charge := by
  have passes := @check_remainingExcluding Id _ ledgers charge []
  rw [kept_nil] at passes
  rw [← passes, Ledgers.admitInstance, dif_neg fresh]
  change _ ↔ check ledgers.remaining _ _ = _
  cases check ledgers.remaining ledgers.budget charge with
  | error | ok => simp

end Remaining

section Runs

variable {ledgers : Ledgers Id} {budget : OwnerBudget}
variable {trace : List (Step (Ledgers Id) (Call Id) Answer)}

theorem budget_reconcile (live : List (Id × Reserved)) :
    (ledgers.reconcile live).2.budget = ledgers.budget := by
  have kept (counted : Nat × Ledgers Id) :
      (live.foldl Ledgers.recharge counted).2.budget = counted.2.budget := by
    induction live generalizing counted with
    | nil => rfl
    | cons first rest ih =>
      rw [List.foldl_cons, ih, Ledgers.recharge]
      split
      · rfl
      · rfl
  exact kept _

/-- An admission that succeeds adds its reservation; one that is refused changes nothing. -/
theorem admit_cases
    (id : Id)
    (charge : InstanceCharge)
    (priority : Nat) :
    (∃ fresh, ledgers.admitInstance id charge priority =
        (.ok (), ledgers.insert id ⟨charge, priority⟩ fresh) ∧
      Fits ledgers.budget ledgers.entries charge) ∨
    ∃ refusal, ledgers.admitInstance id charge priority = (.error refusal, ledgers) := by
  by_cases fresh : id ∈ ledgers.ids
  · exact .inr ⟨_, dif_pos fresh⟩
  · cases passed : check ledgers.remaining ledgers.budget charge with
    | error refusal =>
      refine .inr ⟨refusal, ?_⟩
      rw [Ledgers.admitInstance, dif_neg fresh, passed]
    | ok =>
      have admitted : ledgers.admitInstance id charge priority =
          (.ok (), ledgers.insert id ⟨charge, priority⟩ fresh) := by
        rw [Ledgers.admitInstance, dif_neg fresh, passed]
      exact .inl ⟨fresh, admitted, (admit_eq_ok_iff fresh).mp (congrArg Prod.fst admitted)⟩

/-- No call changes the budget. -/
theorem budget_of_run (run : Run (graph step) (Ledgers.new budget) trace ledgers) :
    ledgers.budget = budget := by
  apply run.invariant (fun ledgers => ledgers.budget = budget) rfl
  intro ledgers call after output same stepped
  cases stepped
  rw [← same]
  cases call with
  | admitInstance id charge priority =>
    rcases admit_cases id charge priority with ⟨fresh, admitted, -⟩ | ⟨refusal, refused⟩
    · exact congrArg (fun result => result.2.budget) admitted
    · exact congrArg (fun result => result.2.budget) refused
  | release id => rfl
  | reconcile live => exact budget_reconcile live

/-- Every admission that succeeds stays within the budget on each ledger it charges. -/
theorem owner_ledgers_within_budget (run : Run (graph step) (Ledgers.new budget) trace ledgers) :
    (∀ recorded ∈ trace, ∀ id charge priority, recorded.input = .admitInstance id charge priority →
      (recorded.output = [.admitted (.ok ())] ∧
          (∀ ledger, 0 < charge.on ledger → ∃ grant, budget.grant ledger = some grant ∧
            used recorded.after.entries ledger ≤ grant) ∧
          recorded.after.entries.length ≤ budget.maxInstances ∧ id ∉ recorded.before.ids ∧
          recorded.after.entries = (id, ⟨charge, priority⟩) :: recorded.before.entries) ∨
        (∃ refusal, recorded.output = [.admitted (.error refusal)]) ∧
          recorded.after = recorded.before) ∧
      (∀ ledger, ledgers.remaining.left ledger =
        (budget.grant ledger).map (· - used ledgers.entries ledger)) := by
  refine ⟨?_, fun ledger => ?_⟩
  · intro recorded member id charge priority called
    obtain ⟨⟨earlier, reached⟩, stepped⟩ := run.before_reached member
    have same := budget_of_run reached
    rw [called] at stepped
    obtain ⟨after, output⟩ := Prod.mk.inj (Option.some.inj stepped)
    rcases admit_cases id charge priority with ⟨fresh, admitted, fits⟩ | ⟨refusal, refused⟩
    · rw [Ledgers.serve, admitted] at after output
      refine .inl ⟨output.symm, ?_, ?_, fresh, ?_⟩
      · intro ledger charged
        rw [← after, ← same]
        exact fits.within charged
      · rw [← after, ← same]
        exact fits.count
      · rw [← after]
        rfl
    · rw [Ledgers.serve, refused] at after output
      exact .inr ⟨⟨refusal, output.symm⟩, after.symm⟩
  · rw [← budget_of_run run]
    have left := @left_remainingExcluding Id _ ledgers [] ledger
    rwa [kept_nil] at left

end Runs

/-- A charge for the memory of one device. -/
def InstanceCharge.deviceMemory
    (device : DeviceId)
    (bytes : Nat) : InstanceCharge where
  device := device
  tiers := ⟨⟨bytes, 0⟩, ⟨0, 0⟩, ⟨0, 0⟩⟩
  diskBytes := 0
  netUpBps := 0
  netDownBps := 0
  dutyPct := 0

/-- Two devices of ten bytes each. -/
def twoDevices : OwnerBudget where
  deviceMemory := fun device => if device = "gpu:0" ∨ device = "gpu:1" then some 10 else none
  hostRam := 0
  disk := 0
  netUpBps := 0
  netDownBps := 0
  dutyPct := 0
  maxInstances := 4

/-- Two reservations fill a device, and a third is refused. -/
theorem owner_ledgers_within_budget_full :
    ∃ trace ledgers, Run (graph step) (Ledgers.new twoDevices : Ledgers Nat) trace ledgers ∧
      emitted trace = [.admitted (.ok ()), .admitted (.ok ()),
        .admitted (.error (.deviceMemoryExhausted "gpu:0" 1 0))] ∧
      ledgers.remaining.left (.device "gpu:0") = some (10 - 10) := by
  have run : Run (graph step) (Ledgers.new twoDevices) _ _ :=
    Run.of_exec (rfl : exec step (Ledgers.new twoDevices)
      [Call.admitInstance 0 (.deviceMemory "gpu:0" 5) 0,
        .admitInstance 1 (.deviceMemory "gpu:0" 5) 0,
        .admitInstance 2 (.deviceMemory "gpu:0" 1) 0] = _)
  exact ⟨_, _, run, rfl, (owner_ledgers_within_budget run).2 (.device "gpu:0")⟩

section Preemption

variable {ledgers : Ledgers Id} {incoming : InstanceCharge} {priority : Nat}
variable {entries others : List (Id × Reserved)} {victims : List Id}

/-- Releasing more keeps fewer of the reservations. -/
theorem kept_subperm
    {freed : List Id}
    (more : ∀ entry ∈ ledgers.entries, entry.1 ∈ freed → entry.1 ∈ victims) :
    (ledgers.kept victims).Subperm (ledgers.kept freed) := by
  apply List.Nodup.subperm (ledgers.nodup_entries.filter _)
  intro entry member
  obtain ⟨inside, stays⟩ := List.mem_filter.mp member
  rw [decide_eq_true_eq] at stays
  exact List.mem_filter.mpr ⟨inside, decide_eq_true fun gone => stays (more entry inside gone)⟩

/-- What is kept without one of the victims. -/
theorem kept_spared
    {fewer : List Id}
    (inside : entry ∈ ledgers.entries)
    (victim : entry.1 ∈ victims)
    (spared : entry.1 ∉ fewer)
    (less : fewer ⊆ victims) :
    (entry :: ledgers.kept victims).Subperm (ledgers.kept fewer) := by
  apply List.Nodup.subperm
  · refine List.nodup_cons.mpr ⟨fun kept => ?_, ledgers.nodup_entries.filter _⟩
    exact of_decide_eq_true (List.mem_filter.mp kept).2 victim
  · refine List.cons_subset.mpr ⟨List.mem_filter.mpr ⟨inside, decide_eq_true spared⟩, ?_⟩
    exact (kept_subperm fun _ _ gone => less gone).subset

/-- Candidates are the reservations of lower priority. -/
theorem mem_candidates :
    entry ∈ ledgers.candidates priority ↔
      entry ∈ ledgers.entries ∧ entry.2.priority < priority := by
  simp [Ledgers.candidates, List.mem_insertionSort]

/-- The loop stops at the first victims whose release makes room. -/
theorem choose_spec
    (chosen : List Id)
    (offered : List (Id × Reserved)) :
    ∃ taken rest, offered = taken ++ rest ∧
      ledgers.choose incoming chosen offered = chosen ++ taken.map Prod.fst ∧
      (rest ≠ [] → Fits ledgers.budget (ledgers.kept (chosen ++ taken.map Prod.fst)) incoming) ∧
      ∀ shorter, shorter <+: taken → shorter ≠ taken →
        ¬Fits ledgers.budget (ledgers.kept (chosen ++ shorter.map Prod.fst)) incoming := by
  induction offered generalizing chosen with
  | nil => exact ⟨[], [], rfl, (List.append_nil _).symm, fun some => absurd rfl some, by simp⟩
  | cons entry offered ih =>
    cases passed : check (ledgers.remainingExcluding chosen) ledgers.budget incoming with
    | ok =>
      refine ⟨[], entry :: offered, rfl, ?_, fun _ => ?_, by simp⟩
      · simp [Ledgers.choose, passed]
      · simpa using check_remainingExcluding.mp passed
    | error refusal =>
      obtain ⟨taken, rest, parted, chose, enough, short⟩ := ih (chosen ++ [entry.1])
      rw [List.append_assoc, List.singleton_append] at chose enough
      refine ⟨entry :: taken, rest, congrArg _ parted, ?_, enough, ?_⟩
      · simpa only [Ledgers.choose, passed, List.map_cons] using chose
      · intro shorter begins differs
        cases shorter with
        | nil =>
          intro fits
          rw [List.map_nil, List.append_nil, ← check_remainingExcluding, passed] at fits
          cases fits
        | cons first shorter =>
          obtain ⟨rfl, rest⟩ := List.cons_prefix_cons.mp begins
          simpa using short shorter rest fun same => differs (congrArg _ same)

/-- Several reservations are released one after another. -/
def Ledgers.releaseAll
    (ids : List Id)
    (ledgers : Ledgers Id) : Ledgers Id :=
  ids.foldl (fun ledgers id => (ledgers.release id).2) ledgers

theorem releaseAll_eq (ids : List Id) :
    (ledgers.releaseAll ids).budget = ledgers.budget ∧
      (ledgers.releaseAll ids).entries = ledgers.kept ids := by
  induction ids generalizing ledgers with
  | nil => exact ⟨rfl, kept_nil.symm⟩
  | cons id ids ih =>
    refine ⟨(@ih (ledgers.release id).2).1, (@ih (ledgers.release id).2).2.trans ?_⟩
    simp only [Ledgers.kept, Ledgers.release, Ledgers.retain, List.filter_filter]
    apply List.filter_congr
    intro entry _
    simp [Bool.and_comm]

/-- After a release a fresh instance is admitted exactly if its charge fits beside the rest. -/
theorem admit_releaseAll
    {id : Id}
    (fresh : id ∉ ledgers.ids)
    (ids : List Id) :
    ((ledgers.releaseAll ids).admitInstance id incoming priority).1 = .ok () ↔
      Fits ledgers.budget (ledgers.kept ids) incoming := by
  have fresh' : id ∉ (ledgers.releaseAll ids).ids := by
    rw [Ledgers.ids, (releaseAll_eq ids).2]
    exact fun inside => fresh ((List.filter_sublist.map _).subset inside)
  rw [admit_eq_ok_iff fresh', (releaseAll_eq ids).1, (releaseAll_eq ids).2]

/-- Whether victims are reservations of lower priority. -/
def Ledgers.Lower
    (priority : Nat)
    (victims : List Id)
    (ledgers : Ledgers Id) : Prop :=
  ∀ id ∈ victims, ∃ reserved, (id, reserved) ∈ ledgers.entries ∧ reserved.priority < priority

/-- The shortest beginning of the candidates whose release makes room. -/
structure Ledgers.Shortest
    (incoming : InstanceCharge)
    (priority : Nat)
    (front : List (Id × Reserved))
    (ledgers : Ledgers Id) : Prop where
  begins : front <+: ledgers.candidates priority
  enough : Fits ledgers.budget (ledgers.kept (front.map Prod.fst)) incoming
  short : ∀ shorter, shorter <+: front → shorter ≠ front →
    ¬Fits ledgers.budget (ledgers.kept (shorter.map Prod.fst)) incoming

theorem Ledgers.Shortest.unique
    (first : ledgers.Shortest incoming priority front)
    (second : ledgers.Shortest incoming priority front') :
    front = front' := by
  by_contra differs
  rcases List.prefix_or_prefix_of_prefix first.begins second.begins with shorter | shorter
  · exact second.short front shorter differs first.enough
  · exact first.short front' shorter (Ne.symm differs) second.enough

/-- A plan is the shortest beginning of the candidates that makes room; without one no victims of
lower priority make room. -/
theorem planPreemption_cases :
    (∃ front, ledgers.planPreemption incoming priority = some (front.map Prod.fst) ∧
      ledgers.Shortest incoming priority front) ∨
    ledgers.planPreemption incoming priority = none ∧ ∀ victims, ledgers.Lower priority victims →
      ¬Fits ledgers.budget (ledgers.kept victims) incoming := by
  obtain ⟨taken, rest, parted, chose, enough, short⟩ :=
    @choose_spec Id _ ledgers incoming [] (ledgers.candidates priority)
  simp only [List.nil_append] at chose enough short
  unfold Ledgers.planPreemption
  dsimp only
  rw [chose]
  cases passed :
      check (ledgers.remainingExcluding (taken.map Prod.fst)) ledgers.budget incoming with
  | ok =>
    exact .inl ⟨taken, rfl, ⟨rest, parted.symm⟩, check_remainingExcluding.mp passed, short⟩
  | error refusal =>
    refine .inr ⟨rfl, fun victims lower fits => ?_⟩
    have full : Fits ledgers.budget (ledgers.kept (taken.map Prod.fst)) incoming := by
      by_cases more : rest = []
      · subst more
        rw [List.append_nil] at parted
        refine fits.mono (kept_subperm fun entry inside victim => ?_)
        obtain ⟨reserved, present, below⟩ := lower entry.1 victim
        rw [← parted]
        refine List.mem_map_of_mem (mem_candidates.mpr ⟨inside, ?_⟩)
        rwa [List.inj_on_of_nodup_map ledgers.distinct inside present rfl]
      · exact enough more
    rw [← check_remainingExcluding, passed] at full
    cases full

theorem Ledgers.Shortest.lower (shortest : ledgers.Shortest incoming priority front) :
    ledgers.Lower priority (front.map Prod.fst) := by
  intro id victim
  obtain ⟨entry, member, rfl⟩ := List.mem_map.mp victim
  exact ⟨entry.2, mem_candidates.mp (shortest.begins.subset member)⟩

/-- No fewer of the victims suffice exactly if each blocks the charge beside those that stay. -/
theorem Ledgers.Shortest.minimal_iff (shortest : ledgers.Shortest incoming priority front) :
    (∀ fewer ⊆ front.map Prod.fst, ¬front.map Prod.fst ⊆ fewer →
      ¬Fits ledgers.budget (ledgers.kept fewer) incoming) ↔
    ∀ entry ∈ front,
      Blocks ledgers.budget (ledgers.kept (front.map Prod.fst)) incoming entry := by
  have inside {entry : Id × Reserved} (member : entry ∈ front) :=
    (mem_candidates.mp (shortest.begins.subset member)).1
  simp only [blocks_iff shortest.enough]
  constructor
  · intro minimal entry member fits
    refine minimal ((front.map Prod.fst).filter (· ≠ entry.1)) (List.filter_subset_self _) ?_
      (fits.mono ?_)
    · intro all
      simpa using all (List.mem_map_of_mem member)
    · apply List.Nodup.subperm (ledgers.nodup_entries.filter _)
      intro other kept
      obtain ⟨there, stays⟩ := List.mem_filter.mp kept
      rw [decide_eq_true_eq] at stays
      by_cases same : other.1 = entry.1
      · exact List.inj_on_of_nodup_map ledgers.distinct there (inside member) same ▸
          List.mem_cons_self
      · refine List.mem_cons_of_mem _ (List.mem_filter.mpr ⟨there, decide_eq_true fun victim => ?_⟩)
        exact stays (List.mem_filter.mpr ⟨victim, decide_eq_true same⟩)
  · intro blocked fewer less missed fits
    obtain ⟨spared, member, left⟩ : ∃ spared ∈ front, spared.1 ∉ fewer := by
      simpa [List.subset_def] using missed
    exact blocked spared member
      (fits.mono (kept_spared (inside member) (List.mem_map_of_mem member) left less))

end Preemption

/-- Two reservations: the first of priority zero and the second of priority one. -/
def twoReserved (first second : InstanceCharge) : Ledgers Nat :=
  (((Ledgers.new twoDevices).admitInstance 0 first 0).2.admitInstance 1 second 1).2

end DaemonNode.Arbiter
