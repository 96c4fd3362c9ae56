import Mathlib.Data.Nat.Bitwise

/-!
# Hash trees over levels

A hash tree is built level by level: the nodes of a level are coupled from left
to right, an odd last node with itself, and each couple is hashed into a node of
the next level. A membership proof is the list of siblings on the way up, and a
verifier climbs it from the leaf.

The verifier is given any siblings, also too few or too many. What makes it
sound is that the leaves of a tree all lie equally deep, and that no node is a
leaf: a climb of another length ends elsewhere. Hashes are assumed injective
only on what is hashed.
-/

namespace HashTree

open Function (uncurry)

variable {Item : Type u} {Digest : Type v}

/-- The neighbours of a level, an odd last node coupled with itself. -/
def couples : List Digest → List (Digest × Digest)
  | [] => []
  | [last] => [(last, last)]
  | left :: right :: rest => (left, right) :: couples rest

def above (node : Digest → Digest → Digest) (level : List Digest) : List Digest :=
  (couples level).map (uncurry node)

/-- A digest and its sibling in order: an even index stands left. -/
def ordered (index : Nat) (own sibling : Digest) : Digest × Digest :=
  if index % 2 = 0 then (own, sibling) else (sibling, own)

/-- The sibling of an index, the node itself at the end of an odd level. -/
def partner (level : List Digest) (index : Nat) : Option Digest :=
  if index ^^^ 1 < level.length then level[index ^^^ 1]? else level[index]?

theorem xor_one_add_two (index : Nat) : (index + 2) ^^^ 1 = (index ^^^ 1) + 2 := by
  have half : (index ^^^ 1) / 2 = index / 2 := by
    rw [Nat.xor_div_two, Nat.xor_zero]
  have halfNext : ((index + 2) ^^^ 1) / 2 = (index + 2) / 2 := by
    rw [Nat.xor_div_two, Nat.xor_zero]
  have odd : (index ^^^ 1) % 2 = (index + 1) % 2 := Nat.xor_mod_two_eq
  have oddNext : ((index + 2) ^^^ 1) % 2 = (index + 2 + 1) % 2 := Nat.xor_mod_two_eq
  omega

variable {level : List Digest} {index : Nat} {below : List (List Digest)} {root : Digest}

theorem couples_getElem? (found : level[index]? = some own) :
    ∃ sibling, partner level index = some sibling ∧
      (couples level)[index / 2]? = some (ordered index own sibling) := by
  induction level using couples.induct generalizing index with
  | case1 => simp at found
  | case2 last =>
    obtain ⟨rfl, rfl⟩ : index = 0 ∧ last = own := by
      simpa [List.getElem?_singleton] using found
    exact ⟨last, rfl, rfl⟩
  | case3 left right rest ih =>
    match index with
    | 0 =>
      cases found
      exact ⟨right, rfl, rfl⟩
    | 1 =>
      cases found
      exact ⟨left, rfl, rfl⟩
    | index + 2 =>
      obtain ⟨sibling, paired, coupled⟩ := ih (by simpa using found)
      refine ⟨sibling, ?_, ?_⟩
      · rw [← paired, partner, partner, xor_one_add_two]
        simp
      · rw [show (index + 2) / 2 = index / 2 + 1 by omega, couples,
          List.getElem?_cons_succ, coupled, ordered, ordered, Nat.add_mod_right]

/-- The nodes of a level are those of its couples. -/
theorem mem_iff_couples (level : List Digest) (digest : Digest) :
    digest ∈ level ↔ ∃ couple ∈ couples level, digest = couple.1 ∨ digest = couple.2 := by
  induction level using couples.induct with
  | case1 | case2 => simp [couples]
  | case3 left right rest ih => simp [couples, ih, or_assoc]

theorem length_couples (level : List Digest) : (couples level).length = (level.length + 1) / 2 := by
  induction level using couples.induct with
  | case1 | case2 => simp [couples]
  | case3 left right rest ih =>
    simp only [couples, List.length_cons, ih]
    omega

/-- `Tower node level below root`: building on from `level` gives the levels
`below`, of two nodes or more, and then the single node `root`. -/
inductive Tower (node : Digest → Digest → Digest) :
    List Digest → List (List Digest) → Digest → Prop
  | root (root : Digest) : Tower node [root] [] root
  | level {level : List Digest} {below : List (List Digest)} {root : Digest} :
      1 < level.length →
      Tower node (above node level) below root →
      Tower node level (level :: below) root

section Climb

variable (node : Digest → Digest → Digest)

/-- The digest a verifier ends with. -/
def climb : Nat → Digest → List Digest → Digest
  | _, current, [] => current
  | index, current, sibling :: siblings =>
    climb (index / 2) (uncurry node (ordered index current sibling)) siblings

/-- The couples a verifier hashes. -/
def climbed : Nat → Digest → List Digest → List (Digest × Digest)
  | _, _, [] => []
  | index, current, sibling :: siblings =>
    ordered index current sibling ::
      climbed (index / 2) (uncurry node (ordered index current sibling)) siblings

/-- The siblings of an index, from a level up. -/
def siblings : Nat → List (List Digest) → Option (List Digest)
  | _, [] => some []
  | index, level :: levels => do
    let sibling ← partner level index
    let rest ← siblings (index / 2) levels
    some (sibling :: rest)

variable {node}

/-- Every node has its siblings, and climbing them reaches the root. -/
theorem Tower.climb_siblings (tower : Tower node level below root)
    (found : level[index]? = some own) :
    ∃ path, siblings index below = some path ∧ climb node index own path = root := by
  induction tower generalizing index own with
  | root root =>
    obtain ⟨rfl, rfl⟩ : index = 0 ∧ root = own := by
      simpa [List.getElem?_singleton] using found
    exact ⟨[], rfl, rfl⟩
  | @level level below root _ _ ih =>
    obtain ⟨sibling, paired, coupled⟩ := couples_getElem? found
    have next : (above node level)[index / 2]? =
        some (uncurry node (ordered index own sibling)) := by
      rw [above, List.getElem?_map, coupled]
      rfl
    obtain ⟨path, listed, reached⟩ := ih next
    refine ⟨sibling :: path, ?_, reached⟩
    rw [siblings, paired, listed]
    rfl

end Climb

/-- The hashes tell apart what is hashed: items, couples, and one from the
other. -/
structure Separated (leaf : Item → Digest) (node : Digest → Digest → Digest)
    (items : Set Item) (hashed : Set (Digest × Digest)) : Prop where
  leaf_injOn : Set.InjOn leaf items
  node_injOn : Set.InjOn (uncurry node) hashed
  apart : ∀ item ∈ items, ∀ couple ∈ hashed, leaf item ≠ uncurry node couple

/-- A digest whose leaves all lie `height` below it. -/
inductive Full (leaf : Item → Digest) (node : Digest → Digest → Digest)
    (items : Set Item) (hashed : Set (Digest × Digest)) : Nat → Digest → Prop
  | leaf {item : Item} : item ∈ items → Full leaf node items hashed 0 (leaf item)
  | node {height : Nat} {couple : Digest × Digest} :
      couple ∈ hashed →
      Full leaf node items hashed height couple.1 →
      Full leaf node items hashed height couple.2 →
      Full leaf node items hashed (height + 1) (uncurry node couple)

/-- A digest with some leaf `depth` below it. -/
inductive Deep (leaf : Item → Digest) (node : Digest → Digest → Digest)
    (items : Set Item) (hashed : Set (Digest × Digest)) : Nat → Digest → Prop
  | leaf {item : Item} : item ∈ items → Deep leaf node items hashed 0 (leaf item)
  | node {depth : Nat} {couple : Digest × Digest} {digest : Digest} :
      couple ∈ hashed →
      digest = couple.1 ∨ digest = couple.2 →
      Deep leaf node items hashed depth digest →
      Deep leaf node items hashed (depth + 1) (uncurry node couple)

section Sound

variable {leaf : Item → Digest} {node : Digest → Digest → Digest}

variable {listed : List Item}

theorem Full.deep (full : Full leaf node items hashed height digest) :
    Deep leaf node items hashed height digest := by
  induction full with
  | leaf member => exact .leaf member
  | node member _ _ left _ => exact .node member (.inl rfl) left

/-- A leaf below a full digest lies as deep as all of them. -/
theorem Separated.depth_eq (separated : Separated leaf node items hashed)
    (deep : Deep leaf node items hashed depth digest)
    (full : Full leaf node items hashed height digest) :
    depth = height := by
  induction deep generalizing height with
  | @leaf item member =>
    generalize same : leaf item = digest at full
    cases full with
    | leaf => rfl
    | node coupled => exact absurd same (separated.apart item member _ coupled)
  | @node depth couple digest coupled side _ ih =>
    generalize same : uncurry node couple = parent at full
    cases full with
    | leaf member => exact absurd same.symm (separated.apart _ member _ coupled)
    | @node height other otherCoupled left right =>
      obtain rfl := separated.node_injOn coupled otherCoupled same
      rcases side with rfl | rfl
      · rw [ih left]
      · rw [ih right]

/-- A climb takes its leaf as deep as it has siblings. -/
theorem Deep.climb (deep : Deep leaf node items hashed depth digest)
    (hashes : ∀ couple ∈ climbed node index digest path, couple ∈ hashed) :
    Deep leaf node items hashed (depth + path.length) (climb node index digest path) := by
  induction path generalizing depth index digest with
  | nil => exact deep
  | cons sibling path ih =>
    rw [climbed, List.forall_mem_cons] at hashes
    have side : digest = (ordered index digest sibling).1 ∨
        digest = (ordered index digest sibling).2 := by
      unfold ordered
      split
      · exact .inl rfl
      · exact .inr rfl
    have higher := ih (.node hashes.1 side deep) hashes.2
    rwa [Nat.add_assoc, Nat.add_comm 1] at higher

theorem Tower.full (tower : Tower node level below root)
    (hashes : ∀ couple ∈ below.flatMap couples, couple ∈ hashed)
    (full : ∀ digest ∈ level, Full leaf node items hashed height digest) :
    Full leaf node items hashed (height + below.length) root := by
  induction tower generalizing height with
  | root root => exact full root List.mem_cons_self
  | @level level below root _ _ ih =>
    rw [List.flatMap_cons, List.forall_mem_append] at hashes
    have next : ∀ digest ∈ above node level, Full leaf node items hashed (height + 1) digest := by
      intro digest member
      obtain ⟨couple, coupled, rfl⟩ := List.mem_map.mp member
      apply Full.node (hashes.1 couple coupled)
      · exact full _ ((mem_iff_couples level _).mpr ⟨couple, coupled, .inl rfl⟩)
      · exact full _ ((mem_iff_couples level _).mpr ⟨couple, coupled, .inr rfl⟩)
    have higher := ih hashes.2 next
    rwa [Nat.add_assoc, Nat.add_comm 1] at higher

/-- A climb as long as the tower is high starts from the node at its index. -/
theorem Tower.getElem?_of_climb (separated : Separated leaf node items hashed)
    (tower : Tower node level below root)
    (hashes : ∀ couple ∈ below.flatMap couples, couple ∈ hashed)
    (climbs : ∀ couple ∈ climbed node index digest path, couple ∈ hashed)
    (long : path.length = below.length) (inside : index < level.length)
    (reached : climb node index digest path = root) :
    level[index]? = some digest := by
  induction tower generalizing index digest path with
  | root root =>
    obtain rfl := List.length_eq_zero_iff.mp long
    obtain rfl : index = 0 := by simpa using inside
    obtain rfl : digest = root := reached
    rfl
  | @level level below root _ _ ih =>
    cases path with
    | nil => simp at long
    | cons sibling path =>
      rw [List.flatMap_cons, List.forall_mem_append] at hashes
      rw [climbed, List.forall_mem_cons] at climbs
      have shorter : index / 2 < (above node level).length := by
        rw [above, List.length_map, length_couples]
        omega
      have next := ih hashes.2 climbs.2 (by simpa using long) shorter reached
      have own : level[index]? = some (level.get ⟨index, inside⟩) := List.getElem?_eq_getElem inside
      obtain ⟨other, _, coupled⟩ := couples_getElem? own
      rw [above, List.getElem?_map, coupled] at next
      have same := separated.node_injOn
        (hashes.1 _ (List.mem_of_getElem? coupled)) climbs.1 (Option.some.inj next)
      rw [own]
      unfold ordered at same
      split at same
      · rw [(Prod.mk.inj same).1]
      · rw [(Prod.mk.inj same).2]

theorem Tower.full_root
    (tower : Tower node (listed.map leaf) below root) (members : ∀ item ∈ listed, item ∈ items)
    (hashes : ∀ couple ∈ below.flatMap couples, couple ∈ hashed) :
    Full leaf node items hashed below.length root := by
  have leaves : ∀ digest ∈ listed.map leaf, Full leaf node items hashed 0 digest := by
    intro digest listedLeaf
    obtain ⟨item, member, rfl⟩ := List.mem_map.mp listedLeaf
    exact .leaf (members item member)
  have full := tower.full hashes leaves
  rwa [Nat.zero_add] at full

/-- Whatever the siblings, a climb to the root of a tower starts from the item at
its index. -/
theorem Tower.item_of_climb (separated : Separated leaf node items hashed)
    (tower : Tower node (listed.map leaf) below root) (members : ∀ item ∈ listed, item ∈ items)
    (hashes : ∀ couple ∈ below.flatMap couples, couple ∈ hashed) (member : item ∈ items)
    (climbs : ∀ couple ∈ climbed node index (leaf item) path, couple ∈ hashed)
    (inside : index < listed.length) (reached : climb node index (leaf item) path = root) :
    listed[index]? = some item := by
  have start : Deep leaf node items hashed 0 (leaf item) := .leaf member
  have deep := start.climb climbs
  rw [reached, Nat.zero_add] at deep
  have long := separated.depth_eq deep (tower.full_root members hashes)
  have found := tower.getElem?_of_climb separated hashes climbs long
    (by rwa [List.length_map]) reached
  rw [List.getElem?_map, Option.map_eq_some_iff] at found
  obtain ⟨other, otherFound, same⟩ := found
  rw [otherFound, separated.leaf_injOn (members other (List.mem_of_getElem? otherFound))
    member same]

/-- Where a function is injective, lists with the same images have the same
members. -/
theorem mem_iff_of_map (injective : Set.InjOn image items) {others : List Item}
    (members : ∀ item ∈ listed, item ∈ items) (otherMembers : ∀ item ∈ others, item ∈ items)
    (same : ∀ digest, digest ∈ listed.map image ↔ digest ∈ others.map image) (item : Item) :
    item ∈ listed ↔ item ∈ others := by
  constructor
  · intro member
    obtain ⟨found, foundMember, equal⟩ := List.mem_map.mp
      ((same (image item)).mp (List.mem_map_of_mem member))
    rwa [← injective (otherMembers found foundMember) (members item member) equal]
  · intro member
    obtain ⟨found, foundMember, equal⟩ := List.mem_map.mp
      ((same (image item)).mpr (List.mem_map_of_mem member))
    rwa [← injective (members found foundMember) (otherMembers item member) equal]

/-- Towers of one height with one root stand on the same nodes. -/
theorem Tower.mem_iff_of_root (injective : Set.InjOn (uncurry node) hashed)
    {otherBelow : List (List Digest)} (tower : Tower node level below root)
    (otherTower : Tower node other otherBelow root)
    (hashes : ∀ couple ∈ below.flatMap couples, couple ∈ hashed)
    (otherHashes : ∀ couple ∈ otherBelow.flatMap couples, couple ∈ hashed)
    (high : below.length = otherBelow.length) (digest : Digest) :
    digest ∈ level ↔ digest ∈ other := by
  induction tower generalizing other otherBelow digest with
  | root root =>
    cases otherTower with
    | root => rfl
    | level => simp at high
  | @level level below root _ _ ih =>
    cases otherTower with
    | root => simp at high
    | @level _ otherBelow _ _ otherTower =>
      rw [List.flatMap_cons, List.forall_mem_append] at hashes otherHashes
      have same := ih otherTower hashes.2 otherHashes.2 (by simpa using high)
      have coupled := mem_iff_of_map injective hashes.1 otherHashes.1 same
      rw [mem_iff_couples, mem_iff_couples]
      simp only [coupled]

theorem Tower.mem_items_iff (separated : Separated leaf node items hashed) {others : List Item}
    {otherBelow : List (List Digest)} (tower : Tower node (listed.map leaf) below root)
    (otherTower : Tower node (others.map leaf) otherBelow root)
    (members : ∀ item ∈ listed, item ∈ items) (otherMembers : ∀ item ∈ others, item ∈ items)
    (hashes : ∀ couple ∈ below.flatMap couples, couple ∈ hashed)
    (otherHashes : ∀ couple ∈ otherBelow.flatMap couples, couple ∈ hashed) (item : Item) :
    item ∈ listed ↔ item ∈ others := by
  have high := separated.depth_eq (tower.full_root members hashes).deep
    (otherTower.full_root otherMembers otherHashes)
  have same := tower.mem_iff_of_root separated.node_injOn otherTower hashes otherHashes high
  exact mem_iff_of_map separated.leaf_injOn members otherMembers same item

end Sound

end HashTree
