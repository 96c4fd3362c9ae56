import DaemonNode.Lib.Machine

/-!
# The credential authority

The authority mints leases on a secret that a source provisions, and resolves them when
they are used. A lease carries the epoch it was minted in, and is refused in another
one; revoking all leases starts a new epoch and forgets the retained keys.

Calls run concurrently. Each proceeds from one lock section or atomic access to the
next. Signatures are ideal: exactly the digests that the authority signed verify, and
two leases of one digest agree in what it covers. A secret carries the number of
replacements at the source that came before it.
-/

namespace DaemonNode.Credentials

/-- How a lease gives access to a secret. -/
inductive CredMode
  | native
  | bearer
  | proxied
  deriving DecidableEq, Repr

/-- Why a call fails. -/
inductive CredError
  | unavailable (profile : String)
  | scopeDenied
  | expired
  | badSignature
  | other (message : String)
  deriving DecidableEq, Repr

/-- The sets of a scope are lists without repetitions. -/
structure CredScope where
  (profiles actions : List String)
  maxTokens : Option Nat
  deriving DecidableEq, Repr

namespace CredScope

/-- The tighter of two ceilings. -/
def tighter : Option Nat → Option Nat → Option Nat
  | some first, some second => some (min first second)
  | some first, none => some first
  | none, some second => some second
  | none, none => none

/-- What two scopes both allow. -/
def intersect (scope other : CredScope) : CredScope where
  profiles := scope.profiles.filter fun profile => other.profiles.contains profile
  actions := scope.actions.filter fun action => other.actions.contains action
  maxTokens := tighter scope.maxTokens other.maxTokens

/-- Whether a scope allows nothing. -/
def isEmpty (scope : CredScope) : Bool :=
  scope.profiles.isEmpty || scope.actions.isEmpty || scope.maxTokens == some 0

/-- The text that stands for a scope in a digest. -/
def fingerprint (scope : CredScope) : String :=
  let profiles := ",".intercalate scope.profiles
  let actions := ",".intercalate scope.actions
  let tokens := (scope.maxTokens.map toString).getD "inf"
  "p[" ++ profiles ++ "]a[" ++ actions ++ "]t[" ++ tokens ++ "]"

end CredScope

/-- A capability's id; its text is the profile, `-cap-` and the number. -/
structure CredId where
  profile : String
  number : Nat
  deriving DecidableEq, Repr

/-- The text of an id. -/
def CredId.text (id : CredId) : String :=
  id.profile ++ "-cap-" ++ toString id.number

/-- A secret, and how often the source's material had been replaced when it was
provisioned. -/
structure Secret where
  text : String
  version : Nat
  deriving DecidableEq, Repr

/-- A lease; in proxied mode it carries no secret. -/
structure CapabilityLease where
  capId : CredId
  profile : String
  scope : CredScope
  mode : CredMode
  (expiresAtMs epoch : Nat)
  secret : Option Secret
  deriving DecidableEq, Repr

/-- What a signature covers; a lease without a secret is signed as one with the empty
secret. -/
structure Digest where
  capId : CredId
  profile : String
  mode : CredMode
  (expiresAtMs epoch : Nat)
  scope : String
  secret : Secret
  deriving DecidableEq, Repr

namespace CapabilityLease

/-- What is signed of a lease. -/
def digest (lease : CapabilityLease) : Digest where
  capId := lease.capId
  profile := lease.profile
  mode := lease.mode
  expiresAtMs := lease.expiresAtMs
  epoch := lease.epoch
  scope := lease.scope.fingerprint
  secret := lease.secret.getD ⟨"", 0⟩

/-- Whether a lease has run out. -/
def isExpired
    (now : Nat)
    (lease : CapabilityLease) : Bool :=
  decide (lease.expiresAtMs ≤ now)

end CapabilityLease

/-- What an authority is set up with. -/
structure Config where
  profile : String
  grant : CredScope
  mode : CredMode
  ttlMs : Nat

/-- Where a call stands: what its next access is, with what it has so far. -/
inductive Phase
  /-- `acquire` draws an id. -/
  | drawing (scope : CredScope)
  | provisioning (capId : CredId) (scope : CredScope)
  /-- `acquire` retains a proxied key. -/
  | retaining (capId : CredId) (scope : CredScope) (secret : Secret)
  | timing (capId : CredId) (scope : CredScope) (secret : Secret)
  /-- `acquire` reads the epoch. -/
  | loading (capId : CredId) (scope : CredScope) (secret : Secret) (expiresAtMs : Nat)
  /-- `revoke_all` bumps the epoch. -/
  | bumping
  | clearing
  /-- `revoke` forgets a retained key. -/
  | dropping (capId : CredId)
  | barring (capId : CredId)
  /-- `use_capability` verifies a lease. -/
  | verifying (lease : CapabilityLease)
  | comparing (lease : CapabilityLease)
  /-- `use_capability` asks whether the lease is barred. -/
  | asking (lease : CapabilityLease)
  | resolving (lease : CapabilityLease)
  | returned
  deriving DecidableEq, Repr

/-- What a call returns. -/
inductive Result
  | lease (lease : CapabilityLease)
  | secret (secret : Secret)
  /-- The result of a call made with a retained key. -/
  | proxied (key : Secret) (result : String)
  | revoked
  | error (error : CredError)
  deriving DecidableEq, Repr

/-- The authority, its source and clock, and every call so far. -/
structure Authority where
  nextCap : Nat
  proxied : CredId → Option Secret
  revoked : List CredId
  epoch : Nat
  /-- How often the material at the source was replaced. -/
  (version now : Nat)
  minted : List CapabilityLease
  calls : List Phase

/-- An authority at its start. -/
def Authority.new : Authority where
  nextCap := 0
  proxied := fun _ => none
  revoked := []
  epoch := 0
  version := 0
  now := 0
  minted := []
  calls := []

/-- What callers, the source, the clock and the scheduler can do next. -/
inductive Event
  | elapse (duration : Nat)
  | replace
  | acquire (profile : String) (scope : CredScope)
  | revokeAll
  | revoke (capId : CredId)
  | useCapability (lease : CapabilityLease)
  /-- A call makes its next access; `provisioned` is the source's answer if it asks it. -/
  | advance (call : Nat) (provisioned : Except CredError String)

namespace Authority

/-- What an access does to the shared state and the call, and what the caller is told. -/
abbrev Progress := Authority × Phase × Option Result

/-- Draw the next id. -/
def draw
    (config : Config)
    (scope : CredScope)
    (authority : Authority) : Progress :=
  ({ authority with nextCap := authority.nextCap + 1 },
    .provisioning ⟨config.profile, authority.nextCap⟩ scope, none)

/-- A proxied key stays with the authority. -/
def provision
    (config : Config)
    (capId : CredId)
    (scope : CredScope)
    (text : String)
    (authority : Authority) : Progress :=
  match config.mode with
  | .proxied => (authority, .retaining capId scope ⟨text, authority.version⟩, none)
  | .native => (authority, .timing capId scope ⟨text, authority.version⟩, none)
  | .bearer => (authority, .timing capId scope ⟨text, authority.version⟩, none)

/-- The lease that `acquire` signs. -/
def lease
    (config : Config)
    (capId : CredId)
    (scope : CredScope)
    (secret : Secret)
    (expiresAtMs : Nat)
    (authority : Authority) : CapabilityLease where
  capId := capId
  profile := config.profile
  scope := scope
  mode := config.mode
  expiresAtMs := expiresAtMs
  epoch := authority.epoch
  secret :=
    match config.mode with
    | .proxied => none
    | .native => some secret
    | .bearer => some secret

/-- Sign a lease and return it. -/
def mint
    (minted : CapabilityLease)
    (authority : Authority) : Progress :=
  ({ authority with minted := authority.minted ++ [minted] }, .returned, some (.lease minted))

/-- Refuse a call. -/
def refuse
    (error : CredError)
    (authority : Authority) : Progress :=
  (authority, .returned, some (.error error))

/-- The signature, then the expiry. -/
def verify
    (lease : CapabilityLease)
    (authority : Authority) : Progress :=
  if lease.digest ∈ authority.minted.map CapabilityLease.digest then
    if lease.isExpired authority.now then authority.refuse .expired
    else (authority, .comparing lease, none)
  else authority.refuse .badSignature

/-- Look up the retained key, or take the carried secret. -/
def resolve
    (lease : CapabilityLease)
    (authority : Authority) : Progress :=
  match lease.mode with
  | .proxied =>
    match authority.proxied lease.capId with
    | some key =>
      (authority, .returned, some (.proxied key ("proxied-result:" ++ lease.capId.text)))
    | none => authority.refuse (.unavailable lease.profile)
  | .native =>
    match lease.secret with
    | some secret => (authority, .returned, some (.secret secret))
    | none => authority.refuse (.other "lease missing embedded secret")
  | .bearer =>
    match lease.secret with
    | some secret => (authority, .returned, some (.secret secret))
    | none => authority.refuse (.other "lease missing embedded secret")

/-- The next access of a call. -/
def access
    (config : Config)
    (provisioned : Except CredError String)
    (authority : Authority) :
    Phase → Option Progress
  | .drawing scope => some (authority.draw config scope)
  | .provisioning capId scope =>
    match provisioned with
    | .ok text => some (authority.provision config capId scope text)
    | .error error => some (authority.refuse error)
  | .retaining capId scope secret =>
    some
      ({ authority with proxied := Function.update authority.proxied capId (some secret) },
        .timing capId scope secret, none)
  | .timing capId scope secret =>
    some (authority, .loading capId scope secret (authority.now + config.ttlMs), none)
  | .loading capId scope secret expiresAtMs =>
    some (authority.mint (authority.lease config capId scope secret expiresAtMs))
  | .bumping => some ({ authority with epoch := authority.epoch + 1 }, .clearing, none)
  | .clearing => some ({ authority with proxied := fun _ => none }, .returned, some .revoked)
  | .dropping capId =>
    some
      ({ authority with proxied := Function.update authority.proxied capId none },
        .barring capId, none)
  | .barring capId =>
    some ({ authority with revoked := capId :: authority.revoked }, .returned, some .revoked)
  | .verifying lease => some (authority.verify lease)
  | .comparing lease =>
    if lease.epoch = authority.epoch then some (authority, .asking lease, none)
    else some (authority.refuse (.unavailable lease.profile))
  | .asking lease =>
    if lease.capId ∈ authority.revoked then some (authority.refuse (.unavailable lease.profile))
    else some (authority, .resolving lease, none)
  | .resolving lease => some (authority.resolve lease)
  | .returned => none

/-- Start a call. -/
def start
    (phase : Phase)
    (authority : Authority) : Authority :=
  { authority with calls := authority.calls ++ [phase] }

/-- What `acquire` checks before its first access. -/
def acquire
    (config : Config)
    (profile : String)
    (scope : CredScope)
    (authority : Authority) :
    Authority × List (Nat × Result) :=
  if profile = config.profile then
    let issued := config.grant.intersect scope
    if issued.isEmpty then
      (authority.start .returned, [(authority.calls.length, .error .scopeDenied)])
    else (authority.start (.drawing issued), [])
  else (authority.start .returned, [(authority.calls.length, .error (.unavailable profile))])

end Authority

/-- The authority as a machine. -/
def step (config : Config) : Machine.StepFunction Authority Event (Nat × Result) :=
  fun authority event =>
    match event with
    | .elapse duration => some ({ authority with now := authority.now + duration }, [])
    | .replace => some ({ authority with version := authority.version + 1 }, [])
    | .acquire profile scope => some (authority.acquire config profile scope)
    | .revokeAll => some (authority.start .bumping, [])
    | .revoke capId => some (authority.start (.dropping capId), [])
    | .useCapability lease => some (authority.start (.verifying lease), [])
    | .advance index provisioned =>
      authority.calls[index]?.bind fun phase =>
        (authority.access config provisioned phase).map fun (shared, next, result) =>
          ({ shared with calls := authority.calls.set index next },
            result.toList.map fun told => (index, told))

end DaemonNode.Credentials
