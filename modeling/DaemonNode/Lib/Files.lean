import Mathlib.Data.List.Basic

/-!
# Trees of files

A directory lists nodes under names: files, directories, links and other nodes. What
a tree contains is what can be found under its paths; links are not followed. The
order in which a directory lists its names does not matter for that.
-/

namespace Files

universe u v

/-- What a directory can hold under a name. -/
inductive Node (ν : Type u) (κ : Type v)
  | file (content : κ)
  | dir (entries : List (ν × Node ν κ))
  | link (target : κ)
  | special

/-- The nodes of a directory, under their names. -/
abbrev Directory (ν : Type u) (κ : Type v) : Type (max u v) :=
  List (ν × Node ν κ)

/-- What is found under a path; of a directory only that it is one. -/
inductive Item (κ : Type v)
  | file (content : κ)
  | dir
  | link (target : κ)
  | special
  deriving DecidableEq, Repr

section Trees

variable {ν : Type u} {κ : Type v}

def Node.item : Node ν κ → Item κ
  | .file content => .file content
  | .dir _ => .dir
  | .link target => .link target
  | .special => .special

variable [DecidableEq ν]

def find (name : ν) : Directory ν κ → Option (Node ν κ)
  | [] => none
  | (other, node) :: rest => if other = name then some node else find name rest

/-- What is under a path below a directory. -/
def look (entries : Directory ν κ) : List ν → Option (Item κ)
  | [] => some .dir
  | name :: rest =>
    match find name entries with
    | none => none
    | some (.dir inner) => look inner rest
    | some node => if rest.isEmpty then some node.item else none

/-- A directory with a node put under a name, in the place of one that is there. -/
def place (name : ν) (node : Node ν κ) : Directory ν κ → Directory ν κ
  | [] => [(name, node)]
  | (other, old) :: rest =>
    if other = name then (name, node) :: rest else (other, old) :: place name node rest

/-- No directory of a tree lists a name twice. -/
inductive Distinct : Directory ν κ → Prop
  | nil : Distinct []
  | cons {name : ν} {node : Node ν κ} {rest : Directory ν κ} :
      find name rest = none → (∀ inner, node = .dir inner → Distinct inner) → Distinct rest →
      Distinct ((name, node) :: rest)

variable {entries rest : Directory ν κ}

@[simp] theorem find_nil : find name ([] : Directory ν κ) = none := rfl

@[simp] theorem find_cons_self : find name ((name, node) :: rest) = some node :=
  if_pos rfl

theorem find_cons_of_ne (differs : other ≠ name) :
    find name ((other, node) :: rest) = find name rest :=
  if_neg differs

theorem find_place :
    find other (place name node entries) =
      if name = other then some node else find other entries := by
  induction entries with
  | nil => rfl
  | cons first rest found =>
    obtain ⟨label, old⟩ := first
    rw [place]
    by_cases same : label = name
    · subst same
      rw [if_pos rfl, find, find]
      split
      · rfl
      · rfl
    · rw [if_neg same, find, find, found]
      by_cases hit : label = other
      · rw [if_pos hit, if_pos hit, if_neg (fun again => same (hit.trans again.symm))]
      · rw [if_neg hit, if_neg hit]

theorem look_of_find_eq_none (absent : find name entries = none) :
    look entries (name :: path) = none := by
  rw [look, absent]

/-- What is under a path depends on what its first name stands for. -/
theorem look_congr (same : find name entries = find name others) :
    look entries (name :: path) = look others (name :: path) := by
  rw [look, look, same]

theorem look_dir {inner : Directory ν κ} (found : find name entries = some (.dir inner)) :
    look entries (name :: path) = look inner path := by
  rw [look, found]

theorem look_leaf (found : find name entries = some node) (leaf : node.item ≠ .dir) :
    look entries (name :: path) = if path.isEmpty then some node.item else none := by
  rw [look, found]
  cases node with
  | dir inner => exact absurd rfl leaf
  | file | link | special => rfl

theorem Distinct.leaf (apart : find name rest = none) (leaf : node.item ≠ .dir)
    (distinct : Distinct rest) : Distinct ((name, node) :: rest) := by
  refine .cons apart ?_ distinct
  rintro inner rfl
  exact absurd rfl leaf

theorem Distinct.dir {inner : Directory ν κ} (apart : find name rest = none)
    (inside : Distinct inner) (distinct : Distinct rest) :
    Distinct ((name, .dir inner) :: rest) := by
  refine .cons apart ?_ distinct
  rintro _ ⟨⟩
  exact inside

/-- A node put under a new name keeps the names of a directory apart. -/
theorem Distinct.place (distinct : Distinct entries)
    (inside : ∀ inner, node = .dir inner → Distinct inner) (fresh : find name entries = none) :
    Distinct (place name node entries) := by
  induction distinct with
  | nil => exact .cons rfl inside .nil
  | @cons label old rest apart below _ _ placed =>
    have differs : label ≠ name := by
      rintro rfl
      rw [find_cons_self] at fresh
      cases fresh
    rw [find_cons_of_ne differs] at fresh
    rw [Files.place, if_neg differs]
    refine .cons ?_ below (placed fresh)
    rw [find_place, if_neg (Ne.symm differs)]
    exact apart

/-- The entries of a directory under one name. -/
theorem find_filter :
    find other (entries.filter fun entry => entry.1 = name) =
      if other = name then find other entries else none := by
  induction entries with
  | nil => simp
  | cons first rest found =>
    obtain ⟨label, node⟩ := first
    by_cases same : label = name
    · rw [List.filter_cons_of_pos (by simpa using same), find, found, find]
      by_cases hit : label = other
      · rw [if_pos hit, if_pos hit, if_pos (hit.symm.trans same)]
      · rw [if_neg hit, if_neg hit]
    · rw [List.filter_cons_of_neg (by simpa using same), found]
      by_cases hit : other = name
      · rw [if_pos hit, if_pos hit, find_cons_of_ne (fun again => same (again.trans hit))]
      · rw [if_neg hit, if_neg hit]

end Trees

end Files
