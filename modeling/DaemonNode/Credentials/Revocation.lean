import DaemonNode.Credentials.Authority

/-!
# Revoking all leases

When the secret at the source was replaced and all leases are revoked, the leases on
the old secret are those of old epochs, except where an `acquire` took the old secret
before the replacement and reads the epoch after the bump.
-/

namespace DaemonNode.Credentials

open Machine
open Authority (access verify resolve provision lease)

namespace Phase

/-- The id that an `acquire` has drawn. -/
def capId : Phase → Option CredId
  | .provisioning capId _ => some capId
  | .retaining capId _ _ => some capId
  | .timing capId _ _ => some capId
  | .loading capId _ _ _ => some capId
  | _ => none

/-- The secret that an `acquire` has been given. -/
def holding : Phase → Option Secret
  | .retaining _ _ secret => some secret
  | .timing _ _ secret => some secret
  | .loading _ _ secret _ => some secret
  | _ => none

/-- The key that may be retained for the id of an `acquire`. -/
def stored : Phase → Option Secret
  | .timing _ _ secret => some secret
  | .loading _ _ secret _ => some secret
  | _ => none

/-- The lease that a use has verified, and whether its epoch was the current one. -/
def trusts : Phase → Option (CapabilityLease × Bool)
  | .comparing lease => some (lease, false)
  | .asking lease => some (lease, true)
  | .resolving lease => some (lease, true)
  | _ => none

end Phase

/-- A call that has ended, or goes on with what it had. -/
structure Continues (phase next : Phase) : Prop where
  capId : next.capId = none ∨ next.capId = phase.capId
  stored : ∀ key, phase.stored = some key → next.capId = none ∨ next.stored = some key

/-- What an access does to ids, keys and leases. -/
inductive Accessed
    (config : Config)
    (authority : Authority)
    (phase : Phase) :
    Authority → Phase → Prop
  /-- No id, key or lease is new. -/
  | went {after : Authority} {next : Phase}
      (nextCap : after.nextCap = authority.nextCap)
      (minted : after.minted = authority.minted)
      (version : after.version = authority.version)
      (epoch : authority.epoch ≤ after.epoch)
      (proxied : ∀ capId key, after.proxied capId = some key → authority.proxied capId = some key)
      (continues : Continues phase next)
      (holding : ∀ secret, next.holding = some secret →
        phase.holding = some secret ∨ secret.version = authority.version)
      (trusts : ∀ lease current, next.trusts = some (lease, current) →
        (phase.trusts = some (lease, false) ∧ (current = true → lease.epoch = authority.epoch)) ∨
          phase.trusts = some (lease, current) ∨
          current = false ∧ lease.digest ∈ authority.minted.map CapabilityLease.digest) :
      Accessed config authority phase after next
  | drew (scope : CredScope) (drawing : phase = .drawing scope) :
      Accessed config authority phase { authority with nextCap := authority.nextCap + 1 }
        (.provisioning ⟨config.profile, authority.nextCap⟩ scope)
  | retained (capId : CredId) (scope : CredScope) (secret : Secret)
      (retaining : phase = .retaining capId scope secret) :
      Accessed config authority phase
        { authority with proxied := Function.update authority.proxied capId (some secret) }
        (.timing capId scope secret)
  | minted (capId : CredId) (scope : CredScope) (secret : Secret) (expiresAtMs : Nat)
      (loading : phase = .loading capId scope secret expiresAtMs) :
      Accessed config authority phase
        { authority with
          minted := authority.minted ++ [authority.lease config capId scope secret expiresAtMs] }
        .returned

/-- A call that ends leaves nothing behind. -/
theorem Accessed.ended
    (nextCap : after.nextCap = authority.nextCap)
    (minted : after.minted = authority.minted)
    (version : after.version = authority.version)
    (epoch : authority.epoch ≤ after.epoch)
    (proxied : ∀ capId key, after.proxied capId = some key → authority.proxied capId = some key)
    (capId : next.capId = none)
    (holding : next.holding = none)
    (trusts : next.trusts = none) :
    Accessed config authority phase after next := by
  refine .went nextCap minted version epoch proxied ⟨.inl capId, fun _ _ => .inl capId⟩ ?_ ?_
  · intro secret held
    rw [holding] at held
    cases held
  · intro lease current held
    rw [trusts] at held
    cases held

theorem Accessed.refused : Accessed config authority phase authority .returned :=
  .ended rfl rfl rfl le_rfl (fun _ _ kept => kept) rfl rfl rfl

/-- Every access is one of these. -/
theorem accessed_of_access
    (accessed : authority.access config provisioned phase = some (after, next, result)) :
    Accessed config authority phase after next := by
  cases phase with
  | drawing scope =>
    cases accessed
    exact .drew scope rfl
  | provisioning capId scope =>
    cases provisioned with
    | error error =>
      cases accessed
      exact .refused
    | ok text =>
      simp only [access, provision, Option.some.injEq] at accessed
      split at accessed
      all_goals
        cases accessed
        refine .went rfl rfl rfl le_rfl (fun _ _ kept => kept) ⟨.inr rfl, nofun⟩ ?_ nofun
        intro secret held
        cases held
        exact .inr rfl
  | retaining capId scope secret =>
    cases accessed
    exact .retained capId scope secret rfl
  | timing capId scope secret =>
    cases accessed
    exact .went rfl rfl rfl le_rfl (fun _ _ kept => kept)
      ⟨.inr rfl, fun _ held => .inr held⟩ (fun _ held => .inl held) nofun
  | loading capId scope secret expiresAtMs =>
    cases accessed
    exact .minted capId scope secret expiresAtMs rfl
  | bumping =>
    cases accessed
    exact .ended rfl rfl rfl (Nat.le_succ _) (fun _ _ kept => kept) rfl rfl rfl
  | clearing =>
    cases accessed
    exact .ended rfl rfl rfl le_rfl nofun rfl rfl rfl
  | dropping capId =>
    cases accessed
    refine .ended rfl rfl rfl le_rfl ?_ rfl rfl rfl
    intro other key (kept : Function.update authority.proxied capId none other = some key)
    by_cases same : other = capId
    · subst same
      simp at kept
    · rwa [Function.update_of_ne same] at kept
  | barring capId =>
    cases accessed
    exact .ended rfl rfl rfl le_rfl (fun _ _ kept => kept) rfl rfl rfl
  | verifying lease =>
    simp only [access, verify, Option.some.injEq] at accessed
    split at accessed
    · rename_i signed
      split at accessed
      · cases accessed
        exact .refused
      cases accessed
      refine .went rfl rfl rfl le_rfl (fun _ _ kept => kept) ⟨.inl rfl, nofun⟩ nofun ?_
      intro lease current trusted
      cases trusted
      exact .inr (.inr ⟨rfl, signed⟩)
    · cases accessed
      exact .refused
  | comparing lease =>
    simp only [access] at accessed
    split at accessed
    · rename_i current
      cases accessed
      refine .went rfl rfl rfl le_rfl (fun _ _ kept => kept) ⟨.inl rfl, nofun⟩ nofun ?_
      intro lease current trusted
      cases trusted
      exact .inl ⟨rfl, fun _ => ‹_›⟩
    · cases accessed
      exact .refused
  | asking lease =>
    simp only [access] at accessed
    split at accessed
    · cases accessed
      exact .refused
    · cases accessed
      exact .went rfl rfl rfl le_rfl (fun _ _ kept => kept) ⟨.inl rfl, nofun⟩ nofun
        fun _ _ trusted => .inr (.inl trusted)
  | resolving lease =>
    have ends : after = authority ∧ next = .returned := by
      simp only [access, resolve, Option.some.injEq] at accessed
      split at accessed
      all_goals
        split at accessed
        all_goals
          cases accessed
          exact ⟨rfl, rfl⟩
    rw [ends.1, ends.2]
    exact .refused
  | returned => cases accessed

/-- What holds of the authority after any steps. -/
structure Authority.Regular (authority : Authority) : Prop where
  drawn : ∀ phase ∈ authority.calls, ∀ capId, phase.capId = some capId →
    capId.number < authority.nextCap
  apart : ∀ (first second : Nat) (phase other : Phase) (capId : CredId),
    authority.calls[first]? = some phase → authority.calls[second]? = some other →
    phase.capId = some capId → other.capId = some capId → first = second
  used : ∀ lease ∈ authority.minted, lease.capId.number < authority.nextCap
  retained : ∀ capId key, authority.proxied capId = some key → capId.number < authority.nextCap
  closed : ∀ lease ∈ authority.minted, ∀ phase ∈ authority.calls, phase.capId ≠ some lease.capId
  epochs : ∀ lease ∈ authority.minted, lease.epoch ≤ authority.epoch
  carried : ∀ lease ∈ authority.minted, lease.secret = none → lease.mode = .proxied
  kept : ∀ phase ∈ authority.calls, ∀ capId, phase.capId = some capId →
    ∀ key, authority.proxied capId = some key → phase.stored = some key

/-- Nothing from before a bump is trusted after it. -/
structure Authority.Fresh
    (version epoch since : Nat)
    (authority : Authority) : Prop where
  replaced : version ≤ authority.version
  bumped : epoch < authority.epoch
  holding : ∀ phase ∈ authority.calls, ∀ secret, phase.holding = some secret →
    version ≤ secret.version
  leases : ∀ lease ∈ authority.minted, epoch < lease.epoch →
    (∀ secret, lease.secret = some secret → version ≤ secret.version) ∧
      ∀ key, authority.proxied lease.capId = some key → version ≤ key.version
  uses : ∀ (index : Nat) (phase : Phase) (lease : CapabilityLease) (current : Bool),
    since ≤ index → authority.calls[index]? = some phase →
    phase.trusts = some (lease, current) →
    ∃ minted ∈ authority.minted, minted.digest = lease.digest ∧
      (current = true → epoch < minted.epoch)

variable {secret : Secret}

section Invariants

variable {authority after : Authority} {phase next : Phase}
variable {index version epoch since : Nat}

/-- A call goes on: the shared state after an access, with the call moved. -/
def Authority.moved
    (index : Nat)
    (next : Phase)
    (calls : List Phase)
    (shared : Authority) :
    Authority :=
  { shared with calls := calls.set index next }

theorem regular_new : Authority.new.Regular := by
  constructor <;> simp [Authority.new]

/-- A call has its id from before, with the key stored for it, or draws it in this step. -/
def Authority.Owns
    (index : Nat)
    (authority after : Authority)
    (place : Nat)
    (there : Phase) :
    Prop :=
  ∀ capId, there.capId = some capId →
    (∃ earlier, authority.calls[place]? = some earlier ∧ earlier.capId = some capId ∧
        ∀ key, earlier.stored = some key → there.stored = some key) ∨
      place = index ∧ authority.nextCap ≤ capId.number ∧ capId.number < after.nextCap

/-- What a step does to ids: a lease is signed, and a key retained, for the id of the call that
moves. -/
structure Authority.Passes
    (index : Nat)
    (authority after : Authority) : Prop where
  nextCap : authority.nextCap ≤ after.nextCap
  epoch : authority.epoch ≤ after.epoch
  calls : ∀ (place : Nat) (there : Phase), after.calls[place]? = some there →
    authority.Owns index after place there
  minted : ∀ lease ∈ after.minted, lease ∈ authority.minted ∨
    (∃ phase, authority.calls[index]? = some phase ∧ phase.capId = some lease.capId) ∧
      (∀ there, after.calls[index]? = some there → there.capId ≠ some lease.capId) ∧
      lease.epoch ≤ after.epoch ∧ (lease.secret = none → lease.mode = .proxied)
  proxied : ∀ capId key, after.proxied capId = some key → authority.proxied capId = some key ∨
    (∃ phase, authority.calls[index]? = some phase ∧ phase.capId = some capId) ∧
      ∀ there, after.calls[index]? = some there → there.stored = some key

/-- The step lemma for ids. -/
theorem Authority.Regular.pass
    (regular : authority.Regular)
    (passes : authority.Passes index after) :
    after.Regular := by
  have drawn {place : Nat} {phase : Phase} {capId : CredId}
      (there : authority.calls[place]? = some phase) (drew : phase.capId = some capId) :
      capId.number < authority.nextCap :=
    regular.drawn phase (List.mem_of_getElem? there) capId drew
  constructor
  · intro there inside capId drew
    obtain ⟨place, atPlace⟩ := List.mem_iff_getElem?.mp inside
    rcases passes.calls place there atPlace capId drew with ⟨_, older, drew', -⟩ | ⟨-, -, new⟩
    · exact (drawn older drew').trans_le passes.nextCap
    · exact new
  · intro first second there other capId atFirst atSecond drew drewToo
    rcases passes.calls first there atFirst capId drew with ⟨_, older, drew', -⟩ | ⟨here, new, -⟩
    · rcases passes.calls second other atSecond capId drewToo with
        ⟨_, olderToo, drewToo', -⟩ | ⟨-, new, -⟩
      · exact regular.apart first second _ _ capId older olderToo drew' drewToo'
      · exact absurd (drawn older drew') (not_lt.mpr new)
    · rcases passes.calls second other atSecond capId drewToo with
        ⟨_, older, drew', -⟩ | ⟨hereToo, -⟩
      · exact absurd (drawn older drew') (not_lt.mpr new)
      · exact here.trans hereToo.symm
  · intro lease signed
    refine lt_of_lt_of_le ?_ passes.nextCap
    rcases passes.minted lease signed with older | ⟨⟨_, there, drew⟩, -⟩
    · exact regular.used lease older
    · exact drawn there drew
  · intro capId key retained
    refine lt_of_lt_of_le ?_ passes.nextCap
    rcases passes.proxied capId key retained with older | ⟨⟨_, there, drew⟩, -⟩
    · exact regular.retained capId key older
    · exact drawn there drew
  · intro lease signed there inside drew
    obtain ⟨place, atPlace⟩ := List.mem_iff_getElem?.mp inside
    rcases passes.calls place there atPlace _ drew with ⟨_, older, drew', -⟩ | ⟨-, new, -⟩
    · rcases passes.minted lease signed with signed | ⟨⟨_, holder, held⟩, gone, -⟩
      · exact regular.closed lease signed _ (List.mem_of_getElem? older) drew'
      · cases regular.apart place index _ _ _ older holder drew' held
        exact gone there atPlace drew
    · rcases passes.minted lease signed with signed | ⟨⟨_, holder, held⟩, -⟩
      · exact absurd (regular.used lease signed) (not_lt.mpr new)
      · exact absurd (drawn holder held) (not_lt.mpr new)
  · intro lease signed
    rcases passes.minted lease signed with older | ⟨-, -, current, -⟩
    · exact (regular.epochs lease older).trans passes.epoch
    · exact current
  · intro lease signed
    rcases passes.minted lease signed with older | ⟨-, -, -, carried⟩
    · exact regular.carried lease older
    · exact carried
  · intro there inside capId drew key retained
    obtain ⟨place, atPlace⟩ := List.mem_iff_getElem?.mp inside
    rcases passes.calls place there atPlace capId drew with ⟨_, older, drew', keeps⟩ | ⟨-, new, -⟩
    · rcases passes.proxied capId key retained with kept | ⟨⟨_, holder, held⟩, stored⟩
      · exact keeps key (regular.kept _ (List.mem_of_getElem? older) capId drew' key kept)
      · cases regular.apart place index _ _ _ older holder drew' held
        exact stored there atPlace
    · rcases passes.proxied capId key retained with kept | ⟨⟨_, holder, held⟩, -⟩
      · exact absurd (regular.retained capId key kept) (not_lt.mpr new)
      · exact absurd (drawn holder held) (not_lt.mpr new)

/-- A call that has drawn no id is started. -/
theorem Authority.Regular.start
    (regular : authority.Regular)
    (fresh : phase.capId = none) :
    (authority.start phase).Regular := by
  suffices passes : authority.Passes 0 (authority.start phase) from regular.pass passes
  refine ⟨le_rfl, le_rfl, ?_, fun _ => .inl, fun _ _ => .inl⟩
  intro place there atPlace capId drew
  rw [Authority.start, List.getElem?_append] at atPlace
  split at atPlace
  · exact .inl ⟨there, atPlace, drew, fun _ stored => stored⟩
  · obtain rfl := List.mem_singleton.mp (List.mem_of_getElem? atPlace)
    rw [fresh] at drew
    cases drew

/-- Only the call that moves is looked at: the others are as they were. -/
theorem Authority.Owns.set
    (own : authority.Owns index after index next)
    (place : Nat)
    (there : Phase)
    (atPlace : (authority.calls.set index next)[place]? = some there) :
    authority.Owns index after place there := by
  rcases Lists.getElem?_set_cases atPlace with ⟨rfl, rfl⟩ | ⟨-, older⟩
  · exact own
  · exact fun _ drew => .inl ⟨there, older, drew, fun _ stored => stored⟩

/-- The step lemma for an access. -/
theorem Authority.Regular.access
    (regular : authority.Regular)
    (found : authority.calls[index]? = some phase)
    (accessed : Accessed config authority phase after next) :
    (after.moved index next authority.calls).Regular := by
  apply regular.pass
  have here (there : Phase) (atIndex : (authority.calls.set index next)[index]? = some there) :
      there = next := by
    rcases Lists.getElem?_set_cases atIndex with ⟨-, same⟩ | ⟨elsewhere, -⟩
    · exact same
    · exact absurd rfl elsewhere
  cases accessed with
  | went nextCap minted _ epoch proxied continues _ _ =>
    refine ⟨nextCap.ge, epoch, Authority.Owns.set ?_, ?_, fun capId key retained =>
      .inl (proxied capId key retained)⟩
    · intro capId drew
      rcases continues.capId with none | same
      · rw [none] at drew
        cases drew
      · refine .inl ⟨phase, found, same.symm.trans drew, fun key stored => ?_⟩
        rcases continues.stored key stored with none | kept
        · rw [none] at drew
          cases drew
        · exact kept
    · exact fun lease signed => .inl (minted ▸ signed)
  | drew scope _ =>
    refine ⟨Nat.le_succ _, le_rfl, Authority.Owns.set ?_, fun _ => .inl, fun _ _ => .inl⟩
    intro capId drew
    cases drew
    exact .inr ⟨rfl, le_rfl, Nat.lt_succ_self _⟩
  | retained capId scope secret retaining =>
    subst retaining
    refine ⟨le_rfl, le_rfl, Authority.Owns.set fun _ drew => ?_, fun _ => .inl, ?_⟩
    · exact .inl ⟨_, found, drew, nofun⟩
    · intro other key (retained : Function.update authority.proxied capId (some secret) other = _)
      by_cases same : other = capId
      · subst same
        rw [Function.update_self] at retained
        exact .inr ⟨⟨_, found, rfl⟩, fun there atIndex => here there atIndex ▸ retained⟩
      · rw [Function.update_of_ne same] at retained
        exact .inl retained
  | minted capId scope secret expiresAtMs loading =>
    subst loading
    refine ⟨le_rfl, le_rfl, Authority.Owns.set nofun, ?_, fun _ _ => .inl⟩
    refine Lists.forall_mem_concat.mpr ⟨fun lease => .inl, .inr ⟨⟨_, found, rfl⟩, ?_, le_rfl, ?_⟩⟩
    · intro there atIndex
      rw [here there atIndex]
      exact nofun
    · intro absent
      simp only [lease] at absent ⊢
      cases mode : config.mode with
      | proxied => rfl
      | native | bearer => simp [mode] at absent

/-- Leases of one digest agree on epoch, id and mode. -/
theorem digest_eq
    {lease minted : CapabilityLease}
    (same : minted.digest = lease.digest) :
    minted.epoch = lease.epoch ∧ minted.capId = lease.capId ∧ minted.mode = lease.mode ∧
      minted.secret.getD ⟨"", 0⟩ = lease.secret.getD ⟨"", 0⟩ :=
  ⟨congrArg Digest.epoch same, congrArg Digest.capId same, congrArg Digest.mode same,
    congrArg Digest.secret same⟩

section

variable (fresh : authority.Fresh version epoch since)

include fresh

/-- A call that is started holds and trusts nothing yet. -/
theorem Authority.Fresh.start
    (holding : phase.holding = none)
    (trusts : phase.trusts = none) :
    (authority.start phase).Fresh version epoch since := by
  refine ⟨fresh.replaced, fresh.bumped, ?_, fresh.leases, ?_⟩
  · refine Lists.forall_mem_concat.mpr ⟨fresh.holding, fun secret held => ?_⟩
    rw [holding] at held
    cases held
  · intro index found lease current late there trusted
    rw [Authority.start, List.getElem?_append] at there
    split at there
    · exact fresh.uses index found lease current late there trusted
    · obtain rfl := List.mem_singleton.mp (List.mem_of_getElem? there)
      rw [trusts] at trusted
      cases trusted

/-- What a call trusts after an access that makes no lease. -/
theorem Authority.Fresh.trusted
    (found : authority.calls[index]? = some phase)
    (late : since ≤ index)
    {lease : CapabilityLease}
    (trusts : (phase.trusts = some (lease, false) ∧
        (current = true → lease.epoch = authority.epoch)) ∨
      phase.trusts = some (lease, current) ∨
      current = false ∧ lease.digest ∈ authority.minted.map CapabilityLease.digest) :
    ∃ minted ∈ authority.minted, minted.digest = lease.digest ∧
      (current = true → epoch < minted.epoch) := by
  rcases trusts with ⟨verified, compared⟩ | kept | ⟨early, signed⟩
  · obtain ⟨minted, signed, same, -⟩ := fresh.uses index phase lease false late found verified
    refine ⟨minted, signed, same, fun now => ?_⟩
    rw [(digest_eq same).1, compared now]
    exact fresh.bumped
  · exact fresh.uses index phase lease current late found kept
  · obtain ⟨minted, signed, same⟩ := List.mem_map.mp signed
    refine ⟨minted, signed, same, fun now => ?_⟩
    rw [early] at now
    cases now

/-- The step lemma for an access after the bump. -/
theorem Authority.Fresh.access
    (regular : authority.Regular)
    (found : authority.calls[index]? = some phase)
    (accessed : Accessed config authority phase after next) :
    (after.moved index next authority.calls).Fresh version epoch since := by
  have member := List.mem_of_getElem? found
  -- what the other calls hold and trust is as before
  have holds (own : ∀ secret, next.holding = some secret → version ≤ secret.version)
      (there : Phase) (inside : there ∈ authority.calls.set index next) :
      ∀ secret, there.holding = some secret → version ≤ secret.version := by
    rcases List.mem_or_eq_of_mem_set inside with older | rfl
    · exact fresh.holding there older
    · exact own
  have uses (idle : next.trusts = none) {place : Nat} {there : Phase} {lease : CapabilityLease}
      {current : Bool} (late : since ≤ place)
      (atPlace : (authority.calls.set index next)[place]? = some there)
      (trusted : there.trusts = some (lease, current)) :
      ∃ minted ∈ authority.minted, minted.digest = lease.digest ∧
        (current = true → epoch < minted.epoch) := by
    rcases Lists.getElem?_set_cases atPlace with ⟨rfl, rfl⟩ | ⟨-, older⟩
    · cases idle.symm.trans trusted
    · exact fresh.uses place there lease current late older trusted
  cases accessed with
  | went nextCap minted version' epoch' proxied continues holding trusts =>
    refine ⟨?_, lt_of_lt_of_le fresh.bumped epoch', holds fun secret held => ?_, ?_, ?_⟩
    · rw [Authority.moved, version']
      exact fresh.replaced
    · rcases holding secret held with before | now
      · exact fresh.holding phase member secret before
      · exact now ▸ fresh.replaced
    · intro lease signed late
      rw [Authority.moved, minted] at signed
      obtain ⟨carried, retained⟩ := fresh.leases lease signed late
      exact ⟨carried, fun key there => retained key (proxied _ key there)⟩
    · intro place there lease current late atPlace trusted
      rw [Authority.moved, minted]
      rcases Lists.getElem?_set_cases atPlace with ⟨rfl, rfl⟩ | ⟨-, older⟩
      · exact fresh.trusted found late (trusts lease current trusted)
      · exact fresh.uses place there lease current late older trusted
  | drew scope _ =>
    exact ⟨fresh.replaced, fresh.bumped, holds nofun, fresh.leases, fun _ _ _ _ => uses rfl⟩
  | retained capId scope secret retaining =>
    subst retaining
    refine ⟨fresh.replaced, fresh.bumped, holds fun secret => fresh.holding _ member secret, ?_,
      fun _ _ _ _ => uses rfl⟩
    · intro lease signed late
      obtain ⟨carried, retained⟩ := fresh.leases lease signed late
      have different : lease.capId ≠ capId := fun same =>
        regular.closed lease signed _ member (congrArg some same.symm)
      refine ⟨carried, ?_⟩
      intro key
        (there : Function.update authority.proxied capId (some secret) lease.capId = some key)
      rw [Function.update_of_ne different] at there
      exact retained key there
  | minted capId scope secret expiresAtMs loading =>
    subst loading
    have good : version ≤ secret.version := fresh.holding _ member secret rfl
    refine ⟨fresh.replaced, fresh.bumped, holds nofun, ?_, ?_⟩
    · refine Lists.forall_mem_concat.mpr ⟨fresh.leases, fun late =>
        ⟨fun other carried => ?_, fun key retained => ?_⟩⟩
      · simp only [lease] at carried
        cases mode : config.mode with
        | proxied => simp [mode] at carried
        | native | bearer =>
          obtain rfl : secret = other := by simpa [mode] using carried
          exact good
      · cases regular.kept _ member capId rfl key retained
        exact good
    · intro place there lease current late atPlace trusted
      obtain ⟨minted, signed, rest⟩ := uses rfl late atPlace trusted
      exact ⟨minted, List.mem_append_left _ signed, rest⟩

end

end Invariants

/-- The result of a use, or the retained key it was made with. -/
def Result.yields : Result → Option Secret
  | .secret carried => some carried
  | .proxied key _ => some key
  | .lease _ => none
  | .revoked => none
  | .error _ => none

/-- What a step does. -/
inductive Stepped
    (config : Config)
    (authority : Authority) :
    Event → Authority → List (Nat × Result) → Prop
  | elapse (duration : Nat) :
      Stepped config authority (.elapse duration)
        { authority with now := authority.now + duration } []
  | replace : Stepped config authority .replace
      { authority with version := authority.version + 1 } []
  | start {event : Event} {phase : Phase} {output : List (Nat × Result)}
      (capId : phase.capId = none) (holding : phase.holding = none)
      (trusts : phase.trusts = none) (quiet : ∀ told ∈ output, told.2.yields = none) :
      Stepped config authority event (authority.start phase) output
  | access {index : Nat} {provisioned : Except CredError String} {phase next : Phase}
      {shared : Authority} {result : Option Result}
      (found : authority.calls[index]? = some phase)
      (accessed : authority.access config provisioned phase = some (shared, next, result)) :
      Stepped config authority (.advance index provisioned)
        (shared.moved index next authority.calls) (result.toList.map fun told => (index, told))

section Steps

variable {authority after : Authority}

theorem acquire_starts
    (profile : String)
    (scope : CredScope) :
    Stepped config authority event (authority.acquire config profile scope).1
      (authority.acquire config profile scope).2 := by
  simp only [Authority.acquire]
  split
  · split
    · exact .start rfl rfl rfl (by simp [Result.yields])
    · exact .start rfl rfl rfl nofun
  · exact .start rfl rfl rfl (by simp [Result.yields])

/-- Every step is one of the steps described. -/
theorem stepped_of_step (stepped : step config authority event = some (after, output)) :
    Stepped config authority event after output := by
  cases event with
  | elapse duration =>
    cases stepped
    exact .elapse duration
  | replace =>
    cases stepped
    exact .replace
  | acquire profile scope =>
    obtain ⟨rfl, rfl⟩ := Prod.mk.inj (Option.some.inj stepped)
    exact acquire_starts profile scope
  | revokeAll | revoke | useCapability =>
    cases stepped
    exact .start rfl rfl rfl nofun
  | advance index provisioned =>
    obtain ⟨phase, found, answered⟩ := Option.bind_eq_some_iff.mp stepped
    obtain ⟨⟨shared, next, result⟩, accessed, told⟩ := Option.map_eq_some_iff.mp answered
    cases told
    exact .access found accessed

/-- Every step keeps what always holds. -/
theorem Stepped.regular
    (stepped : Stepped config authority event after output)
    (regular : authority.Regular) :
    after.Regular := by
  cases stepped with
  | elapse | replace => exact { regular with }
  | start capId => exact regular.start capId
  | access found accessed => exact regular.access found (accessed_of_access accessed)

/-- Every step after the bump keeps old material out. -/
theorem Stepped.fresh
    (stepped : Stepped config authority event after output)
    (regular : authority.Regular)
    (fresh : authority.Fresh version epoch since) :
    after.Fresh version epoch since := by
  cases stepped with
  | elapse => exact { fresh with }
  | replace => exact { fresh with replaced := Nat.le_succ_of_le fresh.replaced }
  | start _ holding trusts => exact fresh.start holding trusts
  | access found accessed => exact fresh.access regular found (accessed_of_access accessed)

/-- Only a call that resolves its lease yields a secret. -/
theorem resolving_of_yields
    (accessed : authority.access config provisioned phase = some (shared, next, some result))
    (yields : result.yields = some secret) :
    ∃ lease, phase = .resolving lease ∧
      ((lease.mode ≠ .proxied ∧ lease.secret = some secret) ∨
        (lease.mode = .proxied ∧ authority.proxied lease.capId = some secret)) := by
  cases phase with
  | resolving lease =>
    refine ⟨lease, rfl, ?_⟩
    simp only [access, resolve, Option.some.injEq] at accessed
    cases mode : lease.mode with
    | proxied =>
      simp only [mode] at accessed
      split at accessed
      · cases accessed
        cases yields
        exact .inr ⟨rfl, ‹_›⟩
      · cases accessed
        cases yields
    | native | bearer =>
      simp only [mode] at accessed
      split at accessed
      · cases accessed
        cases yields
        exact .inl ⟨nofun, ‹_›⟩
      · cases accessed
        cases yields
  | provisioning capId scope =>
    cases provisioned with
    | error error =>
      cases accessed
      cases yields
    | ok text =>
      simp only [access, provision, Option.some.injEq] at accessed
      split at accessed <;> cases accessed
  | verifying | comparing | asking =>
    simp only [access, verify, Option.some.injEq] at accessed
    repeat' split at accessed
    all_goals cases accessed
    all_goals cases yields
  | loading | clearing | barring =>
    cases accessed
    cases yields
  | _ => cases accessed

/-- What a use yields that started after the bump is not from before the replacement. -/
theorem Stepped.yields
    (stepped : Stepped config authority event after output)
    (regular : authority.Regular)
    (fresh : authority.Fresh version epoch since)
    (told : (user, result) ∈ output)
    (late : since ≤ user)
    (yields : result.yields = some secret) :
    version ≤ secret.version := by
  cases stepped with
  | elapse | replace => cases told
  | start _ _ _ quiet =>
    rw [quiet _ told] at yields
    cases yields
  | @access index provisioned phase next shared result' found accessed =>
    cases result' with
    | none => cases told
    | some given =>
      simp only [Option.toList_some, List.map_cons, List.map_nil, List.mem_singleton,
        Prod.mk.injEq] at told
      obtain ⟨rfl, rfl⟩ := told
      obtain ⟨lease, rfl, resolved⟩ := resolving_of_yields accessed yields
      obtain ⟨minted, signed, same, current⟩ := fresh.uses user _ lease true late found rfl
      obtain ⟨carried, retained⟩ := fresh.leases minted signed (current rfl)
      obtain ⟨-, capId, mode, secrets⟩ := digest_eq same
      rcases resolved with ⟨plain, holds⟩ | ⟨-, there⟩
      · cases own : minted.secret with
        | none => exact absurd (mode.symm.trans (regular.carried minted signed own)) plain
        | some other =>
          rw [own, holds] at secrets
          exact carried secret (own.trans (congrArg some secrets))
      · rw [← capId] at there
        exact retained secret there

end Steps

/-- What always holds, holds of every state reached. -/
theorem regular_of_run (run : Run (graph (step config)) Authority.new trace authority) :
    authority.Regular :=
  run.invariant Authority.Regular regular_new fun _ _ _ _ regular stepped =>
    (stepped_of_step stepped).regular regular

/-- Right after the bump, if no call holds a secret from before the replacement. -/
theorem fresh_of_bump
    (regular : authority.Regular)
    (bumping : authority.calls[call]? = some .bumping)
    (stepped : step config authority (.advance call answer) = some (after, output))
    (replaced : version ≤ authority.version)
    (settled : ∀ phase ∈ authority.calls, ∀ secret, phase.holding = some secret →
      version ≤ secret.version) :
    after.Fresh version authority.epoch authority.calls.length := by
  obtain ⟨phase, found, answered⟩ := Option.bind_eq_some_iff.mp stepped
  obtain rfl := Option.some.inj (bumping.symm.trans found)
  cases answered
  refine ⟨replaced, Nat.lt_succ_self _, ?_, ?_, ?_⟩
  · intro there inside secret held
    rcases List.mem_or_eq_of_mem_set inside with older | rfl
    · exact settled there older secret held
    · cases held
  · intro lease signed late
    have early := regular.epochs lease signed
    omega
  · intro index there lease current late atIndex
    have bound := (List.getElem?_eq_some_iff.mp atIndex).1
    rw [List.length_set] at bound
    omega

/-- A secret is replaced before `revoke_all` bumps the epoch. When no `acquire` in progress at
the bump holds a secret from before the replacement, no use that starts after the bump yields a
secret from before the replacement, or is made with such a key. -/
theorem no_old_secret_after_revokeAll
    {call user version : Nat}
    {answer : Except CredError String}
    {result : Result}
    {secret : Secret}
    (run : Run (graph (step config)) Authority.new (earlier ++ bumped :: later) authority)
    (advanced : bumped.input = .advance call answer)
    (bumping : bumped.before.calls[call]? = some .bumping)
    (replaced : version ≤ bumped.before.version)
    (settled : ∀ phase ∈ bumped.before.calls, ∀ secret, phase.holding = some secret →
      version ≤ secret.version)
    (member : recorded ∈ later)
    (told : (user, result) ∈ recorded.output)
    (late : bumped.before.calls.length ≤ user)
    (yields : result.yields = some secret) :
    version ≤ secret.version := by
  obtain ⟨reached, stepped⟩ := run.split rfl
  have regular := regular_of_run reached
  rw [advanced] at stepped
  have fresh := fresh_of_bump regular bumping stepped replaced settled
  have regular' := (stepped_of_step stepped).regular regular
  obtain ⟨⟨before, there⟩, next⟩ := (run.rest rfl).before_reached member
  have both : recorded.before.Regular ∧
      recorded.before.Fresh version bumped.before.epoch bumped.before.calls.length :=
    there.invariant (fun authority => authority.Regular ∧
        authority.Fresh version bumped.before.epoch bumped.before.calls.length)
      ⟨regular', fresh⟩ fun _ _ _ _ both stepped =>
        ⟨(stepped_of_step stepped).regular both.1, (stepped_of_step stepped).fresh both.1 both.2⟩
  exact (stepped_of_step next).yields both.1 both.2 told late yields

/-- An authority for one profile that hands out leases in a mode. -/
def demo (mode : CredMode) : Config where
  profile := "p"
  grant := ⟨["p"], ["chat"], none⟩
  mode := mode
  ttlMs := 1000

/-- The lease of the first `acquire`, minted in an epoch on a secret. -/
def demoLease
    (mode : CredMode)
    (epoch : Nat)
    (secret : Option Secret) : CapabilityLease where
  capId := ⟨"p", 0⟩
  profile := "p"
  scope := ⟨["p"], ["chat"], none⟩
  mode := mode
  expiresAtMs := 1000
  epoch := epoch
  secret := secret

/-- An `acquire` is given its secret; the secret is replaced and all leases are revoked;
the `acquire` goes on. -/
def overtaken (steps : Nat) : List Event :=
  [.acquire "p" ⟨["p"], ["chat"], none⟩, .advance 0 (.ok ""), .advance 0 (.ok "old"), .replace,
      .revokeAll, .advance 1 (.ok ""), .advance 1 (.ok "")] ++
    List.replicate steps (.advance 0 (.ok ""))

/-- A use of a lease by the third call. -/
def uses (lease : CapabilityLease) : List Event :=
  [.useCapability lease] ++ List.replicate 4 (.advance 2 (.ok ""))

/-- The steps that were made by these events, and what was told last. -/
def Tells
    (config : Config)
    (events : List Event)
    (version : Nat)
    (told : Nat × Result) : Prop :=
  ∃ trace authority, Run (graph (step config)) Authority.new trace authority ∧
    trace.map Step.input = events ∧ authority.version = version ∧
    (emitted trace).getLast? = some told

theorem tells_of_exec
    (executed : exec (step config) Authority.new events = some (trace, authority))
    (replaced : authority.version = version)
    (last : (emitted trace).getLast? = some told) :
    Tells config events version told :=
  ⟨trace, authority, .of_exec executed, exec_inputs executed, replaced, last⟩

/-- The secret is replaced; an `acquire` that is given the new one is overtaken by a revocation
of all leases, and its lease is used by the third call. -/
def renewed : List Event :=
  [.replace, .acquire "p" ⟨["p"], ["chat"], none⟩, .advance 0 (.ok ""), .advance 0 (.ok "new"),
      .revokeAll, .advance 1 (.ok ""), .advance 1 (.ok ""), .advance 0 (.ok ""),
      .advance 0 (.ok "")] ++
    uses (demoLease .bearer 1 (some ⟨"new", 1⟩))

/-- That lease yields the new secret. -/
theorem no_old_secret_after_revokeAll_renewed :
    ∃ trace authority secret, Run (graph (step (demo .bearer))) Authority.new trace authority ∧
      trace.map Step.input = renewed ∧ (2, .secret secret) ∈ emitted trace ∧
      1 ≤ secret.version := by
  have run : Run (graph (step (demo .bearer))) Authority.new
      ([_, _, _, _, _] ++ _ :: [_, _, _, _, _, _, _, _]) _ :=
    Run.of_exec (rfl : exec (step (demo .bearer)) Authority.new renewed = _)
  have settled : ∀ phase ∈ [Phase.timing ⟨"p", 0⟩ ⟨["p"], ["chat"], none⟩ ⟨"new", 1⟩,
      Phase.bumping], ∀ secret, phase.holding = some secret → 1 ≤ secret.version := by
    simp [Phase.holding]
  refine ⟨_, _, ⟨"new", 1⟩, run, rfl, List.mem_of_getLast? rfl, ?_⟩
  exact no_old_secret_after_revokeAll run rfl rfl (le_refl 1) settled
    (List.mem_of_getLast? rfl) (List.mem_singleton_self (2, Result.secret ⟨"new", 1⟩))
    (by decide) rfl

/-- After the replacement and the revocation, the old secret is still carried by a
lease, and an old key is still used. -/
theorem old_secret_after_revokeAll :
    Tells (demo .bearer) (overtaken 2 ++ uses (demoLease .bearer 1 (some ⟨"old", 0⟩))) 1
        (2, .secret ⟨"old", 0⟩) ∧
      Tells (demo .proxied) (overtaken 3 ++ uses (demoLease .proxied 1 none)) 1
        (2, .proxied ⟨"old", 0⟩ "proxied-result:p-cap-0") :=
  ⟨tells_of_exec rfl rfl rfl, tells_of_exec rfl rfl rfl⟩

end DaemonNode.Credentials
