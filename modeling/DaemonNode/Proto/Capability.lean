import Mathlib.Data.Prod.Lex
import Mathlib.Data.String.Basic

/-!
# Capability sets and subset admission

A run pins the capabilities it requires, a peer advertises the ones it has.
The admission check compares exact `name@version` capabilities and lists the
required ones that are missing, in order.
-/

namespace DaemonNode

/-- A single `name@version` capability. -/
structure Capability where
  name : String
  version : Nat
  deriving DecidableEq, Repr

/-- The ordered pair a capability is compared by. -/
def Capability.key (capability : Capability) : String ×ₗ Nat :=
  toLex (capability.name, capability.version)

theorem Capability.key_injective : Function.Injective Capability.key := by
  rintro ⟨name, version⟩ ⟨name', version'⟩ equal
  simpa [Capability.key] using equal

/-- Capabilities are ordered by name, then by version. -/
instance : LinearOrder Capability :=
  LinearOrder.lift' Capability.key Capability.key_injective

/-- A set of capabilities: no duplicates, kept in ascending order. -/
structure CapabilitySet where
  members : List Capability
  ascending : members.Pairwise (· < ·)
  deriving DecidableEq

namespace CapabilitySet

/-- The empty set. -/
def new : CapabilitySet := ⟨[], List.Pairwise.nil⟩

def missing (advertised required : CapabilitySet) : List Capability :=
  required.members.filter fun capability =>
    !advertised.members.contains capability

end CapabilitySet

end DaemonNode
