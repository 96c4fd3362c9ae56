import Mathlib.Data.List.Perm.Subperm
import Mathlib.Data.List.Range

/-!
# Maps keyed by numbers

How many entries a map has, from where its keys lie, and the updates that leave
a map as it is.
-/

namespace Maps

open Std.ExtTreeMap (mem_keys ext_getElem? nodup_keys length_keys)

variable {entries : Std.ExtTreeMap Nat α}

/-- A map whose keys lie in an interval has at most as many entries as it. -/
theorem size_le_of_keys (inside : ∀ key ∈ entries, low ≤ key ∧ key < high) :
    entries.size ≤ high - low := by
  have subset : entries.keys ⊆ List.range' low (high - low) := by
    intro key member
    have bounds := inside key (mem_keys.mp member)
    rw [List.mem_range'_1]
    omega
  have counted := (List.subperm_of_subset nodup_keys subset).length_le
  rwa [length_keys, List.length_range'] at counted

/-- A map whose keys lie below a bound has an entry for each number below it
exactly when it has as many entries. -/
theorem size_eq_iff_of_keys (below : ∀ key ∈ entries, key < bound) :
    entries.size = bound ↔ ∀ key < bound, key ∈ entries := by
  have subset : entries.keys ⊆ List.range bound := by
    intro key member
    exact List.mem_range.mpr (below key (mem_keys.mp member))
  have subperm := List.subperm_of_subset nodup_keys subset
  rw [← length_keys]
  constructor
  · intro full key less
    have same := subperm.perm_of_length_le (by rw [full, List.length_range])
    exact mem_keys.mp (same.mem_iff.mpr (List.mem_range.mpr less))
  · intro every
    apply le_antisymm
    · simpa using subperm.length_le
    · have covered : List.range bound ⊆ entries.keys := by
        intro key member
        exact mem_keys.mpr (every key (List.mem_range.mp member))
      simpa using (List.subperm_of_subset List.nodup_range covered).length_le

/-- Inserting what is there changes nothing. -/
theorem insert_eq_self (found : entries[key]? = some value) :
    entries.insert key value = entries := by
  apply ext_getElem?
  intro other
  rw [Std.ExtTreeMap.getElem?_insert]
  split
  · rename_i same
    rw [← Nat.compare_eq_eq.mp same, found]
  · rfl

/-- The later of two inserts at a key wins. -/
theorem insert_insert (key : Nat) (old new : α) :
    (entries.insert key old).insert key new = entries.insert key new := by
  apply ext_getElem?
  intro other
  simp only [Std.ExtTreeMap.getElem?_insert]
  split
  · rfl
  · rfl

theorem forall_getElem?_insert {holds : α → Prop}
    (old : ∀ (key : Nat) (value : α), entries[key]? = some value → holds value)
    (new : holds value) :
    ∀ (other : Nat) (stored : α),
      (entries.insert key value)[other]? = some stored → holds stored := by
  intro other stored found
  rw [Std.ExtTreeMap.getElem?_insert] at found
  split at found
  · cases found
    exact new
  · exact old other stored found

/-- Erasing a key leaves the others. -/
theorem getElem?_erase_of_ne (different : other ≠ key) :
    (entries.erase key)[other]? = entries[other]? := by
  rw [Std.ExtTreeMap.getElem?_erase, if_neg]
  rw [Nat.compare_eq_eq]
  exact Ne.symm different

/-- Erasing a key that is not there changes nothing. -/
theorem erase_eq_self (absent : entries[key]? = none) : entries.erase key = entries := by
  apply ext_getElem?
  intro other
  rw [Std.ExtTreeMap.getElem?_erase]
  split
  · rename_i same
    rw [← Nat.compare_eq_eq.mp same, absent]
  · rfl

end Maps
