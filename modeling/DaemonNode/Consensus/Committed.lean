import DaemonNode.Consensus.Messages

/-!
# Committed sets

What a round's ingest consumes: the payloads a record lists, fetched and checked
one by one in the record's order. Minting is all or nothing; the first payload
that is missing or does not match refuses the set.

The representation of a payload and the source it is fetched from are
parameters. A source may change with every fetch.
-/

namespace DaemonNode

/-- How a payload answers the check against its listed hash. -/
inductive PayloadCheck
  | verified
  | mismatch
  | hostVerified
  deriving DecidableEq, Repr

def checkBytes (blake3 : List Byte → Hash) (bytes : List Byte) (expected : Hash) :
    PayloadCheck :=
  if blake3 bytes = expected then .verified else .mismatch

/-- How payloads are represented, checked and fetched. -/
structure PayloadAccess (P S : Type) where
  check : P → Hash → PayloadCheck
  /-- Fetch the payload a peer committed for a round, if it is there. -/
  payload : S → Nat → PeerId → Option P × S

/-- One verified payload. -/
structure CommittedItem (P : Type) where
  peer : PeerId
  hash : Hash
  bytes : P
  deriving DecidableEq

/-- Why a set was not minted. -/
inductive MintError
  | missing (peer : PeerId)
  | hashMismatch (peer : PeerId)
  deriving DecidableEq

/-- Evidence that a record carried sufficient authority. -/
structure Authorized where
  channel : Nat
  deriving DecidableEq, Repr

def defaultRecordsChannel : Nat := 0

/-- A verified set of payloads in record order. -/
structure Committed (P : Type) where
  items : List (CommittedItem P)
  channel : Nat
  deriving DecidableEq

namespace Committed

variable {P S : Type}

/-- Fetch and check the listed payloads in order. -/
def mintItems (access : PayloadAccess P S) (round : Nat) :
    List RecordEntry → S → Except MintError (List (CommittedItem P)) × S
  | [], source => (.ok [], source)
  | entry :: entries, source =>
    match access.payload source round entry.peer with
    | (none, source) => (.error (.missing entry.peer), source)
    | (some bytes, source) =>
      if access.check bytes entry.hash = .mismatch then (.error (.hashMismatch entry.peer), source)
      else
        match mintItems access round entries source with
        | (.error refused, source) => (.error refused, source)
        | (.ok items, source) => (.ok (⟨entry.peer, entry.hash, bytes⟩ :: items), source)

/-- Mint the committed set of an authorized record. -/
def mint (access : PayloadAccess P S) (authorized : Authorized) (round : Nat)
    (entries : List RecordEntry) (source : S) : Except MintError (Committed P) × S :=
  match mintItems access round entries source with
  | (.error refused, source) => (.error refused, source)
  | (.ok items, source) => (.ok ⟨items, authorized.channel⟩, source)

/-- The items of a set follow the entries of a record and none of them fails the
check. -/
structure Follows (access : PayloadAccess P S) (entries : List RecordEntry)
    (items : List (CommittedItem P)) : Prop where
  listed : items.map (fun item => (item.peer, item.hash)) =
    entries.map fun entry => (entry.peer, entry.hash)
  checked : ∀ item ∈ items, access.check item.bytes item.hash ≠ .mismatch

theorem mintItems_follows {access : PayloadAccess P S} {round : Nat} {entries : List RecordEntry}
    {source rest : S} {items : List (CommittedItem P)}
    (minted : mintItems access round entries source = (.ok items, rest)) :
    Follows access entries items := by
  induction entries generalizing source rest items with
  | nil =>
    simp only [mintItems, Prod.mk.injEq, Except.ok.injEq] at minted
    obtain ⟨rfl, _⟩ := minted
    exact ⟨rfl, fun item member => absurd member List.not_mem_nil⟩
  | cons entry entries ih =>
    rw [mintItems] at minted
    split at minted
    · simp at minted
    split at minted
    · simp at minted
    rename_i bytes fetched _ matching
    split at minted
    · simp at minted
    rename_i later final laterMinted
    simp only [Prod.mk.injEq, Except.ok.injEq] at minted
    obtain ⟨rfl, _⟩ := minted
    obtain ⟨listed, checked⟩ := ih laterMinted
    refine ⟨by rw [List.map_cons, List.map_cons, listed], ?_⟩
    intro item member
    rcases List.mem_cons.mp member with rfl | member
    · exact matching
    · exact checked item member

end Committed
end DaemonNode
