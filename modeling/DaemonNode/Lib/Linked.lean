import DaemonNode.Lib.Lists

/-!
# Linked lists of addressed items

Each item of a chain names the address of its predecessor, and the first names
where the chain starts. The head of a chain is the address of its last item.
When addresses do not collide on the items at hand, and none of them is the
start, the head determines the whole chain.
-/

namespace Linked

universe u v

variable {Item : Type u} {Address : Type v}

/-- `Chained address previous start items head`: the items are linked from
`start`, oldest first, and the last has the address `head`. -/
inductive Chained (address : Item → Option Address) (previous : Item → Address)
    (start : Address) : List Item → Address → Prop
  | nil : Chained address previous start [] start
  | snoc {items head item next} :
      Chained address previous start items head →
      previous item = head →
      address item = some next →
      Chained address previous start (items ++ [item]) next

namespace Chained

/-- The head is the address of the last item, or the start of an empty chain. -/
theorem head_eq (chained : Chained address previous start items head) :
    (items = [] ∧ head = start) ∨ ∃ item ∈ items.getLast?, address item = some head := by
  cases chained with
  | nil => exact .inl ⟨rfl, rfl⟩
  | @snoc earlier _ item _ _ _ addressed => exact .inr ⟨item, List.getLast?_concat, addressed⟩

/-- What the items name, followed by the head, is the start followed by their addresses. -/
theorem map_previous (chained : Chained address previous start items head) :
    (items.map previous ++ [head]).map some = some start :: items.map address := by
  induction chained with
  | nil => rfl
  | @snoc items head item _ _ names addressed ih =>
    have named : (items ++ [item]).map previous = items.map previous ++ [head] := by
      rw [List.map_append, List.map_singleton, names]
    rw [named, List.map_append, ih]
    simp [addressed]

/-- Neighbours are linked: an item names the address of the one before it. -/
theorem linked (chained : Chained address previous start items head)
    (parted : items = earlier ++ first :: second :: later) :
    address first = some (previous second) := by
  have moved := congrArg (·[earlier.length + 1]?) chained.map_previous
  simpa [parted] using moved.symm

/-- Addresses that do not collide make the head determine the chain. -/
theorem eq_of_head_eq (chained : Chained address previous start items head)
    (otherChained : Chained address previous start others head)
    (injective : ∀ item ∈ items, ∀ other ∈ others, ∀ shared,
      address item = some shared → address other = some shared → item = other)
    (fresh : ∀ item ∈ items ++ others, address item ≠ some start) :
    items = others := by
  induction chained generalizing others with
  | nil =>
    rcases otherChained.head_eq with ⟨empty, -⟩ | ⟨last, isLast, addressed⟩
    · exact empty.symm
    · exact absurd addressed (fresh last (List.mem_of_getLast? isLast))
  | @snoc earlier _ item _ tail names addressed ih =>
    cases otherChained with
    | nil => exact absurd addressed (fresh item (by simp))
    | @snoc otherEarlier _ other _ otherTail otherNames otherAddressed =>
      obtain rfl : item = other :=
        injective item (by simp) other (by simp) _ addressed otherAddressed
      obtain rfl := names.symm.trans otherNames
      congr 1
      apply ih otherTail
      · intro older olderMember otherOlder otherMember
        exact injective older (List.mem_append_left _ olderMember) otherOlder
          (List.mem_append_left _ otherMember)
      · intro older member
        apply fresh older
        rcases List.mem_append.mp member with mine | theirs
        · exact List.mem_append_left _ (List.mem_append_left _ mine)
        · exact List.mem_append_right _ (List.mem_append_left _ theirs)

end Chained

end Linked
