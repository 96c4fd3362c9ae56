import Mathlib.Algebra.GroupWithZero.Nat
import Mathlib.Data.List.Lex
import Mathlib.Order.Fin.Basic

/-!
# Fixed-width byte newtypes

The identifiers of the wire contract are byte arrays of a fixed length,
compared and ordered byte by byte. Each newtype of the source is the same
construction at its own length.
-/

namespace DaemonNode

abbrev Byte := Fin 256

instance Byte.instNeZero : NeZero 256 := Nat.instNeZeroSucc

/-- A byte array of exactly `length` bytes. -/
def Bytes (length : Nat) : Type :=
  {bytes : List Byte // bytes.length = length}

namespace Bytes

/-- Byte arrays are ordered lexicographically. -/
instance (length : Nat) : LinearOrder (Bytes length) :=
  inferInstanceAs (LinearOrder {bytes : List Byte // bytes.length = length})

def asBytes (identifier : Bytes length) : List Byte := identifier.1

/-- The identifier whose bytes are all equal. -/
def fill (length : Nat) (byte : Byte) : Bytes length :=
  ⟨List.replicate length byte, List.length_replicate⟩

end Bytes

/-- A node's public-key identity. -/
abbrev PeerId := Bytes 32

/-- A blake3 content hash. -/
abbrev Hash := Bytes 32

/-- A merkle root committing to a set. -/
abbrev Root := Bytes 32

/-- A round seed. -/
abbrev Seed := Bytes 32

/-- An ed25519 signature. -/
abbrev Signature := Bytes 64

/-- A peer's iroh node identity. -/
abbrev IrohId := Bytes 32

/-- An xxh3-128 round state digest. -/
abbrev StateDigest := Bytes 16

/-- The little-endian bytes of a word, lowest byte first. -/
def toLeBytes (count word : Nat) : List Byte :=
  (List.range count).map fun index => Fin.ofNat 256 (word / 256 ^ index)

@[simp] theorem length_toLeBytes (count word : Nat) : (toLeBytes count word).length = count := by
  rw [toLeBytes, List.length_map, List.length_range]

/-- The word spelled by little-endian bytes. -/
def fromLeBytes (bytes : List Byte) : Nat :=
  bytes.foldr (fun byte high => byte.val + 256 * high) 0

theorem toLeBytes_succ (count word : Nat) :
    toLeBytes (count + 1) word = Fin.ofNat 256 word :: toLeBytes count (word / 256) := by
  rw [toLeBytes, List.range_succ_eq_map, List.map_cons, List.map_map, Nat.pow_zero,
    Nat.div_one, toLeBytes]
  congr 1
  apply List.map_congr_left
  intro index _
  rw [Nat.div_div_eq_div_mul, Function.comp_apply, Nat.pow_succ']

theorem fromLeBytes_toLeBytes (count word : Nat) :
    fromLeBytes (toLeBytes count word) = word % 256 ^ count := by
  induction count generalizing word with
  | zero => rw [Nat.pow_zero, Nat.mod_one]; rfl
  | succ count ih =>
    rw [toLeBytes_succ, Nat.pow_succ', Nat.mod_mul, ← ih]
    rfl

theorem toLeBytes_fromLeBytes (bytes : List Byte) :
    toLeBytes bytes.length (fromLeBytes bytes) = bytes := by
  induction bytes with
  | nil => rfl
  | cons byte bytes ih =>
    have spelled : fromLeBytes (byte :: bytes) = byte.val + 256 * fromLeBytes bytes := rfl
    have high : (byte.val + 256 * fromLeBytes bytes) / 256 = fromLeBytes bytes := by omega
    rw [List.length_cons, toLeBytes_succ, spelled, high, ih]
    congr 1
    apply Fin.ext
    rw [Fin.val_ofNat]
    omega

/-- A word of as many bytes as are read from spells them again. -/
theorem toLeBytes_fromLeBytes_mod (length : bytes.length = count) :
    toLeBytes count (fromLeBytes bytes % 256 ^ count) = bytes := by
  subst length
  rw [← fromLeBytes_toLeBytes, toLeBytes_fromLeBytes, toLeBytes_fromLeBytes]

/-- Little-endian bytes spell one word. -/
theorem toLeBytes_inj (firstFits : first < 256 ^ count) (secondFits : second < 256 ^ count)
    (same : toLeBytes count first = toLeBytes count second) :
    first = second := by
  have words := congrArg fromLeBytes same
  rwa [fromLeBytes_toLeBytes, fromLeBytes_toLeBytes, Nat.mod_eq_of_lt firstFits,
    Nat.mod_eq_of_lt secondFits] at words

/-- The big-endian bytes of a word, highest byte first. -/
def toBeBytes (count word : Nat) : List Byte := (toLeBytes count word).reverse

@[simp] theorem length_toBeBytes (count word : Nat) : (toBeBytes count word).length = count := by
  rw [toBeBytes, List.length_reverse, length_toLeBytes]

/-- Big-endian bytes spell one word, and end where they end. -/
theorem toBeBytes_append_inj (firstFits : first < 256 ^ count) (secondFits : second < 256 ^ count)
    (same : toBeBytes count first ++ rest = toBeBytes count second ++ otherRest) :
    first = second ∧ rest = otherRest := by
  have long : (toBeBytes count first).length = (toBeBytes count second).length := by
    rw [length_toBeBytes, length_toBeBytes]
  obtain ⟨words, ended⟩ := List.append_inj same long
  exact ⟨toLeBytes_inj firstFits secondFits (List.reverse_injective words), ended⟩

def labelBytes (label : String) : List Byte :=
  label.toList.map fun character => Fin.ofNat 256 character.toNat

/-- Errors of the wire contract, each with its detail. -/
inductive VhcProtoError
  | validation (detail : String)
  | codec (detail : String)
  | signature (detail : String)
  | merkle (detail : String)
  | capability (detail : String)
  | version (detail : String)
  deriving DecidableEq, Repr

end DaemonNode
