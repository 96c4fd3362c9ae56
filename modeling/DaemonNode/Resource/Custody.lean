import DaemonNode.Lib.Machine
import DaemonNode.Lib.Word
import Mathlib.Algebra.Order.BigOperators.Group.List
import Mathlib.Algebra.Order.Group.Nat

/-!
# The disk custodian

A durable write reserves its bytes first, and its reservation is committed or dropped.
The custodian keeps the committed and the pending bytes in two atomic counters and the
committed bytes of each scope behind a lock. Every atomic access and every lock section is
a step, and the calls of all threads interleave at these steps. Reservations are of the
normal class.
-/

namespace DaemonNode.Custody

open Machine
open Word (saturatingAdd)

/-- The quotas, and the free space that is never given away. -/
structure CustodyConfig where
  (quotaBytes scopeQuotaBytes : Option Nat)
  (reserveBytes emergencyBytes : Nat)

/-- Why a reservation is refused. -/
inductive CustodyRefusal
  | quotaExceeded (scope : String) (requested quota : Nat)
  | floorBreached (requested free floor : Nat)
  deriving DecidableEq, Repr

/-- Where a call stands: its next access, with what it has read. -/
inductive Phase
  /-- `reserve` loads the pending bytes. -/
  | loading (scope : String) (bytes : Nat)
  | totalling (scope : String) (bytes pending : Nat)
  | scoping (scope : String) (bytes pending : Nat)
  | probing (scope : String) (bytes pending : Nat)
  | adding (scope : String) (bytes : Nat)
  /-- A reservation is live. -/
  | held (scope : String) (bytes : Nat)
  /-- `commit` adds to the committed bytes. -/
  | crediting (scope : String) (bytes : Nat)
  | filing (scope : String) (bytes : Nat)
  | returned
  deriving DecidableEq, Repr

/-- The shared counters, and the calls in progress. -/
structure DiskCustodian where
  (usedTotal pending : Nat)
  scopes : String → Option Nat
  /-- Every call of `reserve`, with the reservation it returned. -/
  calls : List Phase

/-- What callers and the scheduler can do next. -/
inductive Event
  | reserve (scope : String) (bytes : Nat)
  /-- A call makes its next access; `free` is the free space if it probes it. -/
  | advance (call free : Nat)
  | commit (call : Nat)
  | drop (call : Nat)
  | discharge (scope : String) (bytes : Nat)

/-- An atomic addition on 64 bits. -/
def fetchAdd (value bytes : Nat) : Nat :=
  (value + bytes) % 2 ^ 64

/-- An atomic subtraction on 64 bits. -/
def fetchSub (value bytes : Nat) : Nat :=
  (value + (2 ^ 64 - bytes)) % 2 ^ 64

namespace DiskCustodian

/-- The state after an access, where the call then stands, and its refusal. -/
abbrev Progress := DiskCustodian × Phase × Option CustodyRefusal

/-- A call returns with a refusal. -/
def refuse
    (refusal : CustodyRefusal)
    (custodian : DiskCustodian) : Progress :=
  (custodian, .returned, some refusal)

/-- After the check of the global quota. -/
def afterTotal
    (config : CustodyConfig)
    (scope : String)
    (bytes pending : Nat) : Phase :=
  if config.scopeQuotaBytes.isSome then .scoping scope bytes pending
  else .probing scope bytes pending

/-- The committed bytes of a scope. -/
def committed
    (scope : String)
    (custodian : DiskCustodian) : Nat :=
  (custodian.scopes scope).getD 0

/-- The next access of a call. -/
def access
    (config : CustodyConfig)
    (free : Nat)
    (custodian : DiskCustodian) :
    Phase → Option Progress
  | .loading scope bytes =>
    some (custodian,
      if config.quotaBytes.isSome then .totalling scope bytes custodian.pending
      else afterTotal config scope bytes custodian.pending, none)
  | .totalling scope bytes pending =>
    config.quotaBytes.map fun quota =>
      if quota < saturatingAdd 64 (saturatingAdd 64 custodian.usedTotal pending) bytes then
        custodian.refuse (.quotaExceeded scope bytes quota)
      else (custodian, afterTotal config scope bytes pending, none)
  | .scoping scope bytes pending =>
    config.scopeQuotaBytes.map fun quota =>
      if quota < saturatingAdd 64 (custodian.committed scope) bytes then
        custodian.refuse (.quotaExceeded scope bytes quota)
      else (custodian, .probing scope bytes pending, none)
  | .probing scope bytes pending =>
    let floor := saturatingAdd 64 config.reserveBytes config.emergencyBytes
    let room := free - pending
    if room - bytes < floor then some (custodian.refuse (.floorBreached bytes room floor))
    else some (custodian, .adding scope bytes, none)
  | .adding scope bytes =>
    some ({ custodian with pending := fetchAdd custodian.pending bytes }, .held scope bytes, none)
  | .crediting scope bytes =>
    some ({ custodian with usedTotal := fetchAdd custodian.usedTotal bytes },
      .filing scope bytes, none)
  | .filing scope bytes =>
    some
      ({ custodian with
        scopes := Function.update custodian.scopes scope
          (some (fetchAdd (custodian.committed scope) bytes)) },
        .returned, none)
  | .held _ _ => none
  | .returned => none

/-- The first access of `commit`, and the only one of a drop. -/
def release
    (bytes : Nat)
    (next : Phase)
    (index : Nat)
    (custodian : DiskCustodian) :
    DiskCustodian :=
  { custodian with
    pending := fetchSub custodian.pending bytes
    calls := custodian.calls.set index next }

/-- Committed bytes of a scope are given back. -/
def discharge
    (scope : String)
    (bytes : Nat)
    (custodian : DiskCustodian) : DiskCustodian :=
  { custodian with
    scopes := Function.update custodian.scopes scope ((custodian.scopes scope).map (· - bytes))
    usedTotal := custodian.usedTotal - bytes }

end DiskCustodian

/-- The custodian as a machine. -/
def step (config : CustodyConfig) :
    StepFunction DiskCustodian Event (Nat × CustodyRefusal) :=
  fun custodian event =>
    match event with
    | .reserve scope bytes =>
      some ({ custodian with calls := custodian.calls ++ [.loading scope bytes] }, [])
    | .advance index free =>
      custodian.calls[index]?.bind fun phase =>
        (custodian.access config free phase).map fun (shared, next, refusal) =>
          ({ shared with calls := custodian.calls.set index next },
            refusal.toList.map fun told => (index, told))
    | .commit index =>
      match custodian.calls[index]? with
      | some (.held scope bytes) =>
        some (custodian.release bytes (.crediting scope bytes) index, [])
      | _ => none
    | .drop index =>
      match custodian.calls[index]? with
      | some (.held _ bytes) => some (custodian.release bytes .returned index, [])
      | _ => none
    | .discharge scope bytes => some (custodian.discharge scope bytes, [])

namespace Phase

/-- The bytes of a live reservation. -/
def live : Phase → Nat
  | .held _ bytes => bytes
  | _ => 0

/-- The bytes of a live reservation in a scope. -/
def liveIn (scope : String) : Phase → Nat
  | .held other bytes => if other = scope then bytes else 0
  | _ => 0

/-- The bytes that a commit has yet to credit. -/
def due : Phase → Nat
  | .crediting _ bytes => bytes
  | _ => 0

/-- The bytes that a commit has yet to file in a scope. -/
def dueIn (scope : String) : Phase → Nat
  | .crediting other bytes => if other = scope then bytes else 0
  | .filing other bytes => if other = scope then bytes else 0
  | _ => 0

/-- The scope that a `reserve` is under way for, once it has read a counter, and its bytes. -/
def reserving : Phase → Option (String × Nat)
  | .totalling scope bytes _ => some (scope, bytes)
  | .scoping scope bytes _ => some (scope, bytes)
  | .probing scope bytes _ => some (scope, bytes)
  | .adding scope bytes => some (scope, bytes)
  | _ => none

/-- Whether a `commit` is under way. -/
def committing : Phase → Bool
  | .crediting _ _ => true
  | .filing _ _ => true
  | _ => false

end Phase

/-- A total over all calls. -/
def totalOf
    (weight : Phase → Nat)
    (calls : List Phase) : Nat :=
  (calls.map weight).sum

open Phase (due dueIn liveIn)

/-- Calls of `reserve` are serial: while one is under way no other is, nor a commit; its
scope has no live reservation if scopes have a quota; and the bytes fit 64 bits. -/
structure Serial
    (config : CustodyConfig)
    (custodian : DiskCustodian) : Prop where
  alone : ∀ (first second : Nat) (phase other : Phase), custodian.calls[first]? = some phase →
    custodian.calls[second]? = some other → phase.reserving.isSome → first ≠ second →
    other.reserving = none ∧ other.committing = false
  apart : config.scopeQuotaBytes.isSome → ∀ phase ∈ custodian.calls, ∀ scope bytes,
    phase.reserving = some (scope, bytes) → ∀ other ∈ custodian.calls, other.liveIn scope = 0
  small : ∀ phase ∈ custodian.calls, ∀ scope bytes, phase.reserving = some (scope, bytes) →
    custodian.usedTotal + custodian.pending + bytes < 2 ^ 64 ∧
      custodian.committed scope + bytes < 2 ^ 64
  counted : custodian.usedTotal + custodian.pending + totalOf due custodian.calls < 2 ^ 64

/-- There is room for more bytes in the global quota. -/
def DiskCustodian.FitsTotal
    (config : CustodyConfig)
    (bytes : Nat)
    (custodian : DiskCustodian) :
    Prop :=
  ∀ quota, config.quotaBytes = some quota →
    custodian.usedTotal + custodian.pending + bytes ≤ quota

/-- There is room for more bytes in the quota of a scope. -/
def DiskCustodian.FitsScope
    (config : CustodyConfig)
    (scope : String)
    (bytes : Nat)
    (custodian : DiskCustodian) : Prop :=
  ∀ quota, config.scopeQuotaBytes = some quota → custodian.committed scope + bytes ≤ quota

/-- What a call knows from the checks it has passed. -/
def Phase.Promised
    (config : CustodyConfig)
    (custodian : DiskCustodian) : Phase → Prop
  | .totalling _ _ pending => custodian.pending ≤ pending
  | .scoping _ bytes _ => custodian.FitsTotal config bytes
  | .probing scope bytes _ =>
    custodian.FitsTotal config bytes ∧ custodian.FitsScope config scope bytes
  | .adding scope bytes => custodian.FitsTotal config bytes ∧ custodian.FitsScope config scope bytes
  | _ => True

/-- The counters are within the quotas, the commits under way included. -/
structure Sound
    (config : CustodyConfig)
    (custodian : DiskCustodian) : Prop where
  pending : custodian.pending = totalOf Phase.live custodian.calls
  total : custodian.FitsTotal config (totalOf due custodian.calls)
  inScope : ∀ scope, custodian.FitsScope config scope
    (totalOf (liveIn scope) custodian.calls + totalOf (dueIn scope) custodian.calls)
  promised : ∀ phase ∈ custodian.calls, phase.Promised config custodian

section Steps

variable {custodian after : DiskCustodian}
variable {index bytes : Nat} {scope : String}
variable {old next phase : Phase}

theorem total_append (weight : Phase → Nat) :
    totalOf weight (calls ++ [phase]) = totalOf weight calls + weight phase := by
  simp [totalOf]

/-- A call that moves changes a total by its own part. -/
theorem total_set
    (found : calls[index]? = some old)
    (next : Phase)
    (weight : Phase → Nat) :
    totalOf weight (calls.set index next) + weight old = totalOf weight calls + weight next := by
  induction calls generalizing index with
  | nil => simp at found
  | cons first rest ih =>
    cases index with
    | zero =>
      cases found
      simp only [totalOf, List.set_cons_zero, List.map_cons, List.sum_cons]
      omega
    | succ index =>
      have later := ih found
      simp only [totalOf, List.set_cons_succ, List.map_cons, List.sum_cons] at later ⊢
      omega

/-- A call weighs no more than all of them. -/
theorem weight_le_total
    (found : calls[index]? = some old)
    (weight : Phase → Nat) :
    weight old ≤ totalOf weight calls :=
  List.le_sum_of_mem (List.mem_map_of_mem (List.mem_of_getElem? found))

theorem total_eq_zero (none : ∀ phase ∈ calls, weight phase = 0) : totalOf weight calls = 0 :=
  List.sum_eq_zero (by simpa using none)

theorem fetchAdd_of_lt (small : value + bytes < 2 ^ 64) : fetchAdd value bytes = value + bytes :=
  Nat.mod_eq_of_lt small

theorem fetchSub_of_le
    (inside : bytes ≤ value)
    (small : value < 2 ^ 64) :
    fetchSub value bytes = value - bytes := by
  have moved : value + (2 ^ 64 - bytes) = value - bytes + 2 ^ 64 := by omega
  rw [fetchSub, moved, Nat.add_mod_right, Nat.mod_eq_of_lt (by omega)]

/-- What a call knows stays true while nothing is added. -/
theorem Phase.Promised.mono
    (promised : phase.Promised config custodian)
    (used : after.usedTotal ≤ custodian.usedTotal)
    (pending : after.pending ≤ custodian.pending)
    (committed : ∀ scope, after.committed scope ≤ custodian.committed scope) :
    phase.Promised config after := by
  have total {bytes : Nat} (fits : custodian.FitsTotal config bytes) :
      after.FitsTotal config bytes := fun quota set => by
    have before := fits quota set
    omega
  have inScope {scope : String} {bytes : Nat} (fits : custodian.FitsScope config scope bytes) :
      after.FitsScope config scope bytes := fun quota set =>
    (Nat.add_le_add_right (committed scope) bytes).trans (fits quota set)
  cases phase with
  | totalling scope bytes read => exact pending.trans promised
  | scoping scope bytes read => exact total promised
  | probing | adding => exact ⟨total promised.1, inScope promised.2⟩
  | _ => trivial

/-- A call that is not reserving relies on no check. -/
theorem Phase.promised_of_not_reserving (idle : phase.reserving = none) :
    phase.Promised config custodian := by
  cases phase with
  | totalling | scoping | probing | adding => cases idle
  | _ => trivial

/-- A call moves on, and what it holds goes where it is counted. -/
theorem Sound.move
    (sound : Sound config custodian)
    (found : custodian.calls[index]? = some old)
    (calls : after.calls = custodian.calls.set index next)
    (pending : after.pending + old.live = custodian.pending + next.live)
    (total : ∀ quota, config.quotaBytes = some quota → after.usedTotal + after.pending +
      next.due + totalOf Phase.due custodian.calls ≤ quota + old.due)
    (inScope : ∀ scope quota, config.scopeQuotaBytes = some quota → after.committed scope +
      next.liveIn scope + next.dueIn scope + totalOf (Phase.liveIn scope) custodian.calls +
        totalOf (Phase.dueIn scope) custodian.calls ≤
      quota + old.liveIn scope + old.dueIn scope)
    (promised : ∀ phase ∈ custodian.calls.set index next, phase.Promised config after) :
    Sound config after := by
  have moved := total_set found next
  refine ⟨?_, fun quota set => ?_, fun scope quota set => ?_, calls ▸ promised⟩
  · have before := sound.pending
    have live := moved Phase.live
    rw [calls]
    omega
  · have fits := total quota set
    have due := moved Phase.due
    rw [calls]
    omega
  · have fits := inScope scope quota set
    have liveIn := moved (Phase.liveIn scope)
    have dueIn := moved (Phase.dueIn scope)
    rw [calls]
    omega

/-- A call that holds nothing. -/
structure Phase.Empty (phase : Phase) : Prop where
  live : phase.live = 0
  due : phase.due = 0
  liveIn : ∀ scope, phase.liveIn scope = 0
  dueIn : ∀ scope, phase.dueIn scope = 0

theorem Phase.empty_of_add (nothing : ∀ scope, liveIn scope phase + dueIn scope phase = 0) :
    phase.Empty := by
  simp only [Nat.add_eq_zero_iff, forall_and] at nothing
  refine ⟨?_, ?_, nothing.1, nothing.2⟩
  · cases phase <;> simp_all [live, liveIn]
  · cases phase <;> simp_all [due, dueIn]

/-- A call that holds nothing goes on to hold nothing. -/
theorem Sound.neutral
    (sound : Sound config custodian)
    (found : custodian.calls[index]? = some old)
    (nothing : ∀ scope, old.liveIn scope + old.dueIn scope = 0)
    (still : ∀ scope, next.liveIn scope + next.dueIn scope = 0)
    (promised : next.Promised config custodian) :
    Sound config { custodian with calls := custodian.calls.set index next } := by
  have before := Phase.empty_of_add nothing
  have later := Phase.empty_of_add still
  refine sound.move found rfl ?_ (fun quota set => ?_) (fun scope quota set => ?_) ?_
  · rw [before.live, later.live]
  · rw [before.due, later.due]
    exact sound.total quota set
  · rw [before.liveIn, before.dueIn, later.liveIn, later.dueIn, Nat.add_assoc]
    exact sound.inScope scope quota set
  · intro phase member
    rcases List.mem_or_eq_of_mem_set member with older | rfl
    · exact sound.promised phase older
    · exact promised

/-- A `reserve` that has passed the check of the global quota. -/
theorem Sound.afterTotal
    {read : Nat}
    (sound : Sound config custodian)
    (found : custodian.calls[index]? = some old)
    (nothing : ∀ scope, old.liveIn scope + old.dueIn scope = 0)
    (fits : custodian.FitsTotal config bytes) :
    Sound config { custodian with
      calls := custodian.calls.set index (DiskCustodian.afterTotal config scope bytes read) } := by
  unfold DiskCustodian.afterTotal
  split
  · exact sound.neutral found nothing (fun _ => rfl) fits
  · rename_i unset
    refine sound.neutral found nothing (fun _ => rfl) ⟨fits, ?_⟩
    intro quota set
    simp [set] at unset

/-- While a call is busy, no other call relies on a check. -/
theorem Serial.others
    (serial : Serial config custodian)
    (found : custodian.calls[index]? = some old)
    (busy : old.reserving.isSome ∨ old.committing = true)
    (promised : next.Promised config after) :
    ∀ phase ∈ custodian.calls.set index next, phase.Promised config after := by
  intro phase member
  obtain ⟨place, there⟩ := List.mem_iff_getElem?.mp member
  rcases Lists.getElem?_set_cases there with ⟨-, rfl⟩ | ⟨different, there⟩
  · exact promised
  · apply Phase.promised_of_not_reserving
    rcases busy with reserving | committing
    · exact (serial.alone index place old phase found there reserving different.symm).1
    · by_contra other
      have quiet := serial.alone place index phase old there found
        (Option.isSome_iff_ne_none.mpr other) different
      rw [committing] at quiet
      cases quiet.2

/-- While a call reserves, no bytes are on the way from a commit. -/
theorem Serial.not_committing
    (serial : Serial config custodian)
    (found : custodian.calls[index]? = some old)
    (busy : old.reserving.isSome) :
    ∀ phase ∈ custodian.calls, phase.due = 0 ∧ ∀ scope, phase.dueIn scope = 0 := by
  intro phase inside
  have idle : phase.committing = false := by
    obtain ⟨place, there⟩ := List.mem_iff_getElem?.mp inside
    by_cases same : index = place
    · cases found.symm.trans (same ▸ there)
      cases old with
      | crediting | filing => cases busy
      | _ => rfl
    · exact (serial.alone index place old phase found there busy same).2
  cases phase with
  | crediting | filing => cases idle
  | _ => exact ⟨rfl, fun _ => rfl⟩

/-- What was found to fit is held from then on. -/
theorem Sound.add
    (sound : Sound config custodian)
    (serial : Serial config custodian)
    (found : custodian.calls[index]? = some (.adding scope bytes))
    (promised : (Phase.adding scope bytes).Promised config custodian) :
    Sound config { custodian with
      pending := fetchAdd custodian.pending bytes
      calls := custodian.calls.set index (.held scope bytes) } := by
  have member := List.mem_of_getElem? found
  have small := (serial.small _ member scope bytes rfl).1
  have added : fetchAdd custodian.pending bytes = custodian.pending + bytes :=
    fetchAdd_of_lt (by omega)
  have idle := serial.not_committing found rfl
  refine sound.move found rfl added (fun quota set => ?_) (fun other quota set => ?_)
    (serial.others found (.inl rfl) trivial)
  · have fits := promised.1 quota set
    have none : totalOf due custodian.calls = 0 := total_eq_zero fun phase inside =>
      (idle phase inside).1
    simp only [added, due]
    omega
  · change custodian.committed other + _ + _ + _ + _ ≤ _
    have before := sound.inScope other quota set
    simp only [liveIn, dueIn]
    by_cases same : scope = other
    · subst same
      have fits := promised.2 quota set
      have none := total_eq_zero (serial.apart (by simp [set]) _ member scope bytes rfl)
      have none' := total_eq_zero fun phase inside => (idle phase inside).2 scope
      rw [if_pos rfl]
      omega
    · rw [if_neg same]
      omega

/-- What was held is counted in the total. -/
theorem Sound.credit
    (sound : Sound config custodian)
    (serial : Serial config custodian)
    (found : custodian.calls[index]? = some (.crediting scope bytes)) :
    Sound config { custodian with
      usedTotal := fetchAdd custodian.usedTotal bytes
      calls := custodian.calls.set index (.filing scope bytes) } := by
  have bound : bytes ≤ _ := weight_le_total found due
  have counted := serial.counted
  have credited : fetchAdd custodian.usedTotal bytes = custodian.usedTotal + bytes :=
    fetchAdd_of_lt (by omega)
  refine sound.move found rfl rfl (fun quota set => ?_) (fun other quota set => ?_)
    (serial.others found (.inr rfl) trivial)
  · have before := sound.total quota set
    simp only [credited, due]
    omega
  · have before := sound.inScope other quota set
    change custodian.committed other + 0 + dueIn other (.crediting scope bytes) + _ + _ ≤ _
    omega

/-- What was held is counted in its scope. -/
theorem Sound.file
    (sound : Sound config custodian)
    (serial : Serial config custodian)
    (found : custodian.calls[index]? = some (.filing scope bytes)) :
    Sound config { custodian with
      scopes := Function.update custodian.scopes scope
        (some (fetchAdd (custodian.committed scope) bytes))
      calls := custodian.calls.set index .returned } := by
  refine sound.move found rfl rfl (fun quota set => ?_) (fun other quota set => ?_)
    (serial.others found (.inr rfl) trivial)
  · exact sound.total quota set
  · have before := sound.inScope other quota set
    simp only [liveIn, dueIn]
    by_cases same : scope = other
    · subst same
      have wrapped : fetchAdd (custodian.committed scope) bytes ≤ _ := Nat.mod_le _ _
      simp only [if_true, DiskCustodian.committed, Function.update_self, Option.getD_some]
        at wrapped before ⊢
      omega
    · simp only [if_neg same, DiskCustodian.committed, Function.update_of_ne (Ne.symm same)]
        at before ⊢
      omega

/-- The step lemma for an access. -/
theorem Sound.access
    {free : Nat}
    {shared : DiskCustodian}
    {refusal : Option CustodyRefusal}
    (sound : Sound config custodian)
    (serial : Serial config custodian)
    (found : custodian.calls[index]? = some phase)
    (accessed : custodian.access config free phase = some (shared, next, refusal)) :
    Sound config { shared with calls := custodian.calls.set index next } := by
  have member := List.mem_of_getElem? found
  have promised := sound.promised phase member
  cases phase with
  | loading scope bytes =>
    cases accessed
    by_cases limited : config.quotaBytes.isSome
    · rw [if_pos limited]
      exact sound.neutral found (fun _ => rfl) (fun _ => rfl) le_rfl
    · rw [if_neg limited]
      exact sound.afterTotal found (fun _ => rfl) fun quota set => by simp [set] at limited
  | totalling scope bytes read =>
    obtain ⟨quota, set, checked⟩ := Option.map_eq_some_iff.mp accessed
    split at checked
    · cases checked
      exact sound.neutral found (fun _ => rfl) (fun _ => rfl) trivial
    rename_i passed
    cases checked
    refine sound.afterTotal found (fun _ => rfl) fun quota' set' => ?_
    cases set.symm.trans set'
    have small := (serial.small _ member scope bytes rfl).1
    have read : custodian.pending ≤ read := promised
    simp only [saturatingAdd] at passed
    omega
  | scoping scope bytes read =>
    obtain ⟨quota, set, checked⟩ := Option.map_eq_some_iff.mp accessed
    split at checked
    · cases checked
      exact sound.neutral found (fun _ => rfl) (fun _ => rfl) trivial
    rename_i passed
    cases checked
    refine sound.neutral found (fun _ => rfl) (fun _ => rfl) ⟨promised, ?_⟩
    intro quota' set'
    cases set.symm.trans set'
    have small := (serial.small _ member scope bytes rfl).2
    simp only [saturatingAdd] at passed
    omega
  | probing scope bytes read =>
    simp only [DiskCustodian.access] at accessed
    split at accessed
    · cases accessed
      exact sound.neutral found (fun _ => rfl) (fun _ => rfl) trivial
    · cases accessed
      exact sound.neutral found (fun _ => rfl) (fun _ => rfl) promised
  | adding scope bytes =>
    cases accessed
    exact sound.add serial found promised
  | crediting scope bytes =>
    cases accessed
    exact sound.credit serial found
  | filing scope bytes =>
    cases accessed
    exact sound.file serial found
  | held | returned => cases accessed

/-- A reservation is committed or dropped: its bytes are no longer pending. -/
theorem Sound.release
    (sound : Sound config custodian)
    (serial : Serial config custodian)
    (found : custodian.calls[index]? = some (.held scope bytes))
    (unheld : next.live = 0)
    (idle : ∀ after, next.Promised config after)
    (due : next.due ≤ bytes)
    (inScope : ∀ other, next.liveIn other + next.dueIn other ≤ if scope = other then bytes else 0) :
    Sound config (custodian.release bytes next index) := by
  have bound : bytes ≤ _ := weight_le_total found Phase.live
  have counted := serial.counted
  have held := sound.pending
  have taken : fetchSub custodian.pending bytes = custodian.pending - bytes :=
    fetchSub_of_le (held ▸ bound) (by omega)
  refine sound.move found rfl ?_ (fun quota set => ?_) (fun other quota set => ?_) ?_
  · change fetchSub custodian.pending bytes + bytes = custodian.pending + _
    omega
  · have before := sound.total quota set
    change custodian.usedTotal + fetchSub custodian.pending bytes + _ + _ ≤ _ + 0
    omega
  · have before := sound.inScope other quota set
    have less := inScope other
    change custodian.committed other + _ + _ + _ + _ ≤ _ + (if scope = other then bytes else 0) + 0
    omega
  · intro phase member
    rcases List.mem_or_eq_of_mem_set member with older | rfl
    · refine (sound.promised phase older).mono le_rfl ?_ fun _ => le_rfl
      change fetchSub custodian.pending bytes ≤ _
      omega
    · exact idle _

theorem committed_discharge_le (other : String) :
    (custodian.discharge scope bytes).committed other ≤ custodian.committed other := by
  by_cases same : other = scope
  · subst same
    simp only [DiskCustodian.discharge, DiskCustodian.committed, Function.update_self]
    cases custodian.scopes other with
    | none => exact le_rfl
    | some committed => exact Nat.sub_le committed bytes
  · simp [DiskCustodian.discharge, DiskCustodian.committed, Function.update_of_ne same]

/-- The step lemma. -/
theorem Sound.step
    (sound : Sound config custodian)
    (serial : Serial config custodian)
    (stepped : step config custodian event = some (after, output)) :
    Sound config after := by
  cases event with
  | reserve scope bytes =>
    cases stepped
    refine ⟨?_, ?_, fun other => ?_, fun phase member => ?_⟩
    · rw [total_append]
      exact sound.pending
    · rw [total_append]
      exact sound.total
    · rw [total_append, total_append]
      exact sound.inScope other
    · rcases List.mem_append.mp member with older | newest
      · exact sound.promised phase older
      · obtain rfl := List.mem_singleton.mp newest
        trivial
  | advance index free =>
    obtain ⟨phase, found, answered⟩ := Option.bind_eq_some_iff.mp stepped
    obtain ⟨⟨shared, next, refusal⟩, accessed, told⟩ := Option.map_eq_some_iff.mp answered
    cases told
    exact sound.access serial found accessed
  | commit index =>
    simp only [Custody.step] at stepped
    split at stepped
    · rename_i scope bytes found
      cases stepped
      exact sound.release serial found rfl (fun _ => trivial) le_rfl fun other =>
        (Nat.zero_add _).le
    · cases stepped
  | drop index =>
    simp only [Custody.step] at stepped
    split at stepped
    · rename_i scope bytes found
      cases stepped
      exact sound.release serial found rfl (fun _ => trivial) (Nat.zero_le _) fun _ => Nat.zero_le _
    · cases stepped
  | discharge scope bytes =>
    cases stepped
    refine ⟨sound.pending, fun quota set => ?_, fun other quota set => ?_, fun phase member => ?_⟩
    · have before := sound.total quota set
      simp only [DiskCustodian.discharge]
      omega
    · exact (Nat.add_le_add_right (committed_discharge_le other) _).trans
        (sound.inScope other quota set)
    · exact (sound.promised phase member).mono (Nat.sub_le _ _) le_rfl committed_discharge_le

end Steps

/-- When the calls of `reserve` are serial, the committed and the pending bytes stay within
the quotas, and the pending bytes are those of the live reservations. -/
theorem quotas_hold_when_serial
    {config : CustodyConfig}
    {start custodian : DiskCustodian}
    {trace : List (Step DiskCustodian Event (Nat × CustodyRefusal))}
    (run : Run (graph (step config)) start trace custodian)
    (opened : start.pending = 0 ∧ start.calls = [])
    (total : ∀ quota, config.quotaBytes = some quota → start.usedTotal ≤ quota)
    (inScope : ∀ quota, config.scopeQuotaBytes = some quota → ∀ scope,
      start.committed scope ≤ quota)
    (serial : ∀ recorded ∈ trace, Serial config recorded.before) :
    (∀ quota, config.quotaBytes = some quota →
        custodian.usedTotal + custodian.pending ≤ quota) ∧
      (∀ quota, config.scopeQuotaBytes = some quota → ∀ scope,
        custodian.committed scope + totalOf (liveIn scope) custodian.calls ≤ quota) ∧
      custodian.pending = totalOf Phase.live custodian.calls := by
  have sound : Sound config custodian := by
    induction run with
    | nil =>
      obtain ⟨nothing, idle⟩ := opened
      refine ⟨?_, fun quota set => ?_, fun scope quota set => ?_, by simp [idle]⟩
      · simp [nothing, idle, totalOf]
      · simpa [nothing, idle, totalOf] using total quota set
      · simpa [idle, totalOf] using inScope quota set scope
    | snoc _ stepped ih =>
      obtain ⟨earlier, last⟩ := Lists.forall_mem_concat.mp serial
      exact (ih earlier).step last stepped
  refine ⟨fun quota set => ?_, fun quota set scope => ?_, sound.pending⟩
  · exact (Nat.le_add_right _ _).trans (sound.total quota set)
  · exact (Nat.add_le_add_left (Nat.le_add_right _ _) _).trans (sound.inScope scope quota set)

/-- Quotas of ten bytes for all and of eight for each scope. -/
def tenBytes : CustodyConfig where
  quotaBytes := some 10
  scopeQuotaBytes := some 8
  reserveBytes := 0
  emergencyBytes := 0

/-- A custodian with nothing on its disk. -/
def noBytes : DiskCustodian where
  usedTotal := 0
  pending := 0
  scopes := fun _ => none
  calls := []

/-- A call of `reserve` makes all its accesses. -/
def alone
    (call : Nat)
    (scope : String)
    (bytes : Nat) : List Event :=
  .reserve scope bytes :: List.replicate 5 (.advance call 100)

/-- While one call reserves, another does not, nor does it commit. -/
def Phase.Excludes (phase other : Phase) : Prop :=
  phase.reserving.isSome → other.reserving = none ∧ other.committing = false

instance : DecidableRel Phase.Excludes :=
  fun phase _ => inferInstanceAs (Decidable (phase.reserving.isSome → _))

/-- Calls are serial if the calls of a state pass a check. -/
theorem serial_of_pairwise
    {config : CustodyConfig}
    {custodian : DiskCustodian}
    (checked : custodian.calls.Pairwise
        (fun phase other => phase.Excludes other ∧ other.Excludes phase) ∧
      (∀ phase ∈ custodian.calls, ∀ taken ∈ phase.reserving,
        (config.scopeQuotaBytes.isSome → ∀ other ∈ custodian.calls, other.liveIn taken.1 = 0) ∧
        custodian.usedTotal + custodian.pending + taken.2 < 2 ^ 64 ∧
          custodian.committed taken.1 + taken.2 < 2 ^ 64) ∧
      custodian.usedTotal + custodian.pending + totalOf due custodian.calls < 2 ^ 64) :
    Serial config custodian where
  alone first second phase other atFirst atSecond busy different := by
    obtain ⟨one, rfl⟩ := List.getElem?_eq_some_iff.mp atFirst
    obtain ⟨two, rfl⟩ := List.getElem?_eq_some_iff.mp atSecond
    have pairs := List.pairwise_iff_getElem.mp checked.1
    rcases Nat.lt_or_gt_of_ne different with earlier | later
    · exact (pairs first second one two earlier).1 busy
    · exact (pairs second first two one later).2 busy
  apart limited phase member scope bytes taken :=
    (checked.2.1 phase member (scope, bytes) taken).1 limited
  small phase member scope bytes taken := (checked.2.1 phase member (scope, bytes) taken).2
  counted := checked.2.2

/-- One reservation is committed, and while a third is made another is dropped and bytes of the
first are discharged. -/
def threeCalls : List Event :=
  alone 0 "a" 3 ++ alone 1 "b" 2 ++ [.commit 0, .advance 0 0, .advance 0 0, .reserve "c" 4,
    .advance 2 100, .drop 1, .advance 2 100, .discharge "a" 1, .advance 2 100, .advance 2 100,
    .advance 2 100]

theorem quotas_hold_when_serial_three :
    ∃ trace custodian, Run (graph (step tenBytes)) noBytes trace custodian ∧
      trace.map Step.input = threeCalls ∧
      custodian.calls = [.returned, .returned, .held "c" 4] ∧
      custodian.usedTotal + custodian.pending ≤ 10 ∧
      (∀ scope, custodian.committed scope + totalOf (liveIn scope) custodian.calls ≤ 8) ∧
      custodian.pending = 4 := by
  have run : Run (graph (step tenBytes)) noBytes _ _ :=
    Run.of_exec (rfl : exec (step tenBytes) noBytes threeCalls = _)
  obtain ⟨total, inScope, pending⟩ := quotas_hold_when_serial run ⟨rfl, rfl⟩
    (fun _ _ => Nat.zero_le _) (fun _ _ _ => Nat.zero_le _)
    (fun recorded member => serial_of_pairwise (by revert recorded; decide +kernel))
  exact ⟨_, _, run, rfl, rfl, total 10 rfl, inScope 8 rfl, pending⟩

/-- Calls of `reserve` for two scopes make their accesses in turn. -/
def together : List Event :=
  [.reserve "a" 6, .reserve "b" 6] ++ (List.replicate 5 [.advance 0 100, .advance 1 100]).flatten

/-- The bytes that are pending after some events. -/
def pendingAfter (events : List Event) : Option Nat :=
  (exec (step tenBytes) noBytes events).map fun reached => reached.2.pending

/-- Two calls at once exceed the global quota, and one after the other that of their scope. -/
theorem quotas_exceeded :
    pendingAfter together = some 12 ∧
      pendingAfter (alone 0 "a" 5 ++ alone 1 "a" 5) = some 10 :=
  ⟨rfl, rfl⟩

end DaemonNode.Custody
