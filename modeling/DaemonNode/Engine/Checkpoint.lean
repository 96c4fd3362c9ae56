import DaemonNode.Lib.Files

/-!
# Checkpoints of a workspace

Before a tool changes files, the engine records the workspace: by a commit of git
where the workspace is a repository, otherwise by a copy of its files. A rewind to
such a copy empties the workspace and copies the files back.

The copy leaves out links, special files and everything named `.git`, at every depth,
while emptying the workspace keeps a `.git` at the top only.
-/

namespace DaemonNode.Engine.Checkpoint

open Files

/-- The files below a directory, with names and contents. -/
abbrev Tree := Directory String (List UInt8)

/-- How a checkpoint recorded the workspace; a snapshot is the directory it was copied to. -/
inductive CheckpointKind
  | git (reference : String)
  | snapshot (dir : Tree)

/--
Copies the files of one directory into another, in the order they are read. An entry
that is in the way of one of another kind is an error.
-/
def copyTree : Tree → Tree → Option Tree
  | [], dst => some dst
  | (name, node) :: rest, dst =>
    if name = ".git" then copyTree rest dst
    else
      match node with
      | .dir inner =>
        match find name dst with
        | none => (copyTree inner []).bind fun made => copyTree rest (place name (.dir made) dst)
        | some (.dir existing) =>
          (copyTree inner existing).bind fun made => copyTree rest (place name (.dir made) dst)
        | some _ => none
      | .file content =>
        match find name dst with
        | none => copyTree rest (place name (.file content) dst)
        | some (.file _) => copyTree rest (place name (.file content) dst)
        | some _ => none
      | .link _ => copyTree rest dst
      | .special => copyTree rest dst
termination_by src => sizeOf src
decreasing_by
  all_goals
    simp only [List.cons.sizeOf_spec, Prod.mk.sizeOf_spec, Node.dir.sizeOf_spec]
    omega

def clearDirExceptGit (workspace : Option Tree) : Option Tree :=
  workspace.map fun entries => entries.filter fun entry => entry.1 = ".git"

/-- Whether there is something under a name; a link counts if its target is there. -/
def pathExists (resolves : List UInt8 → Bool) (name : String) (entries : Tree) : Bool :=
  match find name entries with
  | none => false
  | some (.link target) => resolves target
  | some _ => true

def captureBlocking (resolves : List UInt8 → Bool) (gitStashCreate : Tree → Option String)
    (workspace : Tree) : Option CheckpointKind :=
  match if pathExists resolves ".git" workspace then gitStashCreate workspace else none with
  | some reference => some (.git reference)
  | none => (copyTree workspace []).map .snapshot

def restoreBlocking (gitCheckout : String → Tree → Option Tree) (kind : CheckpointKind)
    (workspace : Option Tree) : Option Tree :=
  match kind with
  | .git reference => workspace.bind (gitCheckout reference)
  | .snapshot dir => copyTree dir ((clearDirExceptGit workspace).getD [])

/-- Files and directories are copied, links and special files are not. -/
def isCopied : Item (List UInt8) → Bool
  | .file _ => true
  | .dir => true
  | .link _ => false
  | .special => false

/-- What a tree holds under a path once everything that is not copied is gone. -/
def kept (entries : Tree) (path : List String) : Option (Item (List UInt8)) :=
  if ".git" ∈ path then none else (look entries path).filter isCopied

theorem kept_git : kept entries (".git" :: path) = none :=
  if_pos List.mem_cons_self

theorem kept_congr (same : find name entries = find name others) :
    kept entries (name :: path) = kept others (name :: path) := by
  rw [kept, kept, look_congr same]

theorem kept_of_find_eq_none (absent : find name entries = none) :
    kept entries (name :: path) = none := by
  rw [kept, look_of_find_eq_none absent]
  split
  · rfl
  · rfl

theorem kept_dir {inner : Tree} (plain : name ≠ ".git")
    (found : find name entries = some (.dir inner)) :
    kept entries (name :: path) = kept inner path := by
  have same : ".git" ∈ name :: path ↔ ".git" ∈ path := by
    rw [List.mem_cons, or_iff_right (Ne.symm plain)]
  rw [kept, kept, look_dir found]
  simp only [same]

theorem kept_leaf (plain : name ≠ ".git") (found : find name entries = some node)
    (leaf : node.item ≠ .dir) :
    kept entries (name :: path) =
      if path.isEmpty then (some node.item).filter isCopied else none := by
  rw [kept, look_leaf found leaf]
  cases path with
  | nil => rw [if_neg (by simpa using Ne.symm plain), List.isEmpty_nil, if_pos rfl, if_pos rfl]
  | cons first rest =>
    simp only [List.isEmpty_cons, Bool.false_eq_true, if_false, Option.filter_none, ite_self]

/-- A copy has what is copied of the source, and otherwise what the target had. -/
structure Copied (src dst made : Tree) : Prop where
  look_eq : ∀ path, look made path = (kept src path).or (look dst path)
  distinct : Distinct dst → Distinct made

namespace Copied

/-- An entry that is left out. -/
theorem skip (copied : Copied rest dst made) (apart : find name rest = none)
    (left : ∀ path, kept ((name, node) :: rest) (name :: path) = none) :
    Copied ((name, node) :: rest) dst made where
  look_eq := by
    intro path
    rw [copied.look_eq]
    cases path with
    | nil => rfl
    | cons first path =>
      by_cases same : name = first
      · subst same
        rw [left, kept_of_find_eq_none apart]
      · rw [kept_congr (find_cons_of_ne same)]
  distinct := copied.distinct

/-- An entry that is put into the target under a new name. -/
theorem put (copied : Copied rest (place name placed dst) made) (apart : find name rest = none)
    (fresh : find name dst = none)
    (given : ∀ path, look (place name placed dst) (name :: path) =
      kept ((name, node) :: rest) (name :: path))
    (inside : ∀ inner, placed = .dir inner → Distinct inner) :
    Copied ((name, node) :: rest) dst made where
  look_eq := by
    intro path
    rw [copied.look_eq]
    cases path with
    | nil => rfl
    | cons first path =>
      by_cases same : name = first
      · subst same
        rw [kept_of_find_eq_none apart, given, look_of_find_eq_none fresh, Option.none_or,
          Option.or_none]
      · have elsewhere : find first (place name placed dst) = find first dst := by
          rw [find_place, if_neg same]
        rw [kept_congr (find_cons_of_ne same), look_congr elsewhere]
  distinct := fun separate => copied.distinct (separate.place inside fresh)

end Copied

theorem copyTree_git : copyTree ((".git", node) :: rest) dst = copyTree rest dst := by
  cases node with
  | dir | file | link | special => rw [copyTree, if_pos rfl]

/-- A copy into a directory without any of the copied names succeeds. -/
theorem copyTree_fresh {src dst : Tree} (distinct : Distinct src)
    (fresh : ∀ name, name ≠ ".git" → find name src ≠ none → find name dst = none) :
    ∃ made, copyTree src dst = some made ∧ Copied src dst made := by
  induction distinct generalizing dst with
  | nil =>
    refine ⟨dst, by rw [copyTree], fun path => ?_, id⟩
    cases path with
    | nil => rfl
    | cons first path => rw [kept_of_find_eq_none rfl, Option.none_or]
  | @cons name node rest apart _ _ copyInner copyRest =>
    have others : ∀ {target : Tree}, (∀ other, name ≠ other → find other target = find other dst) →
        ∀ other, other ≠ ".git" → find other rest ≠ none → find other target = none := by
      intro target unchanged other plain listed
      have differs : name ≠ other := by
        rintro rfl
        exact listed apart
      rw [unchanged other differs]
      exact fresh other plain (by rwa [find_cons_of_ne differs])
    have placed : ∀ placed other, name ≠ other →
        find other (place name placed dst) = find other dst := by
      intro placed other differs
      rw [find_place, if_neg differs]
    by_cases git : name = ".git"
    · subst git
      obtain ⟨made, copied, result⟩ := copyRest (others fun _ _ => rfl)
      exact ⟨made, copyTree_git.trans copied, result.skip apart fun path => kept_git⟩
    have absent := fresh name git (by rw [find_cons_self]; exact Option.some_ne_none node)
    cases node with
    | dir inner =>
      obtain ⟨innerMade, innerCopied, innerResult⟩ := @copyInner inner rfl [] (fun _ _ _ => rfl)
      obtain ⟨made, copied, result⟩ := copyRest (others (placed (.dir innerMade)))
      refine ⟨made, ?_, result.put apart absent (fun path => ?_) ?_⟩
      · rw [copyTree, if_neg git]
        simp only [absent, innerCopied, Option.bind_some, copied]
      · rw [look_dir (by rw [find_place, if_pos rfl]), kept_dir git find_cons_self,
          innerResult.look_eq]
        cases path with
        | nil => rfl
        | cons first path => rw [look_of_find_eq_none rfl, Option.or_none]
      · rintro _ ⟨⟩
        exact innerResult.distinct .nil
    | file content =>
      obtain ⟨made, copied, result⟩ := copyRest (others (placed (.file content)))
      refine ⟨made, ?_, result.put apart absent (fun path => ?_) ?_⟩
      · rw [copyTree, if_neg git]
        simp only [absent, copied]
      · rw [look_leaf (by rw [find_place, if_pos rfl]) (by rintro ⟨⟩),
          kept_leaf git find_cons_self (by rintro ⟨⟩)]
        rfl
      · rintro _ ⟨⟩
    | link | special =>
      obtain ⟨made, copied, result⟩ := copyRest (others fun _ _ => rfl)
      refine ⟨made, by rw [copyTree, if_neg git]; exact copied, result.skip apart ?_⟩
      intro path
      rw [kept_leaf git find_cons_self (by rintro ⟨⟩)]
      exact ite_self none

section Rewind

variable {resolves : List UInt8 → Bool} {gitStashCreate : Tree → Option String}
   {gitCheckout : String → Tree → Option Tree} {captured snapshot : Tree}

theorem captureBlocking_snapshot (distinct : Distinct captured)
    (noGit : find ".git" captured = none) :
    ∃ made, captureBlocking resolves gitStashCreate captured = some (.snapshot made) ∧
      Distinct made ∧ ∀ path, look made path = kept captured path := by
  obtain ⟨made, copied, result⟩ : ∃ made, copyTree captured [] = some made ∧
      Copied captured [] made := copyTree_fresh distinct fun _ _ _ => rfl
  refine ⟨made, ?_, result.distinct .nil, fun path => ?_⟩
  · simp [captureBlocking, pathExists, noGit, copied]
  · rw [result.look_eq]
    cases path with
    | nil => rfl
    | cons first path => rw [look_of_find_eq_none rfl, Option.or_none]

/-- A cleared workspace has nothing but what is under its own `.git`. -/
theorem find_cleared (name : String) :
    find name ((clearDirExceptGit later).getD []) =
      if name = ".git" then find name (later.getD []) else none := by
  cases later with
  | none => simp [clearDirExceptGit]
  | some entries => exact find_filter

theorem restoreBlocking_snapshot (distinct : Distinct snapshot) :
    ∃ restored, restoreBlocking gitCheckout (.snapshot snapshot) later = some restored ∧
      ∀ path, look restored path =
        if path.head? = some ".git" then look (later.getD []) path else kept snapshot path := by
  have emptied : ∀ name, name ≠ ".git" → find name snapshot ≠ none →
      find name ((clearDirExceptGit later).getD []) = none := by
    intro name plain _
    rw [find_cleared, if_neg plain]
  obtain ⟨restored, copied, result⟩ := copyTree_fresh distinct emptied
  refine ⟨restored, copied, fun path => ?_⟩
  rw [result.look_eq]
  cases path with
  | nil => rfl
  | cons name path =>
    by_cases git : name = ".git"
    · subst git
      have own : find ".git" ((clearDirExceptGit later).getD []) = find ".git" (later.getD []) := by
        rw [find_cleared, if_pos rfl]
      rw [kept_git, Option.none_or, look_congr own]
      exact (if_pos rfl).symm
    · have gone : find name ((clearDirExceptGit later).getD []) = none := by
        rw [find_cleared, if_neg git]
      rw [look_of_find_eq_none gone, Option.or_none, List.head?_cons,
        if_neg (fun same => git (Option.some.inj same))]

/--
A rewind to a snapshot leaves the files and directories that were captured, as far as
no part of their path is named `.git`, and nothing else, apart from a `.git` at the top
that the workspace has at that time. So a tree of files and directories without any
`.git` comes back as it was. The snapshot may list its names in any order.
-/
theorem rewind_restores_files (distinct : Distinct captured) (noGit : find ".git" captured = none) :
    ∃ made, captureBlocking resolves gitStashCreate captured = some (.snapshot made) ∧
      Distinct made ∧
      ∀ snapshot, Distinct snapshot → (∀ path, look snapshot path = look made path) →
        ∀ later, ∃ restored,
          restoreBlocking gitCheckout (.snapshot snapshot) later = some restored ∧
          (∀ path, look restored path =
            if path.head? = some ".git" then look (later.getD []) path
            else kept captured path) ∧
          ((∀ path, kept captured path = look captured path) →
            find ".git" (later.getD []) = none →
            ∀ path, look restored path = look captured path) := by
  obtain ⟨made, captures, separate, holds⟩ :=
    @captureBlocking_snapshot resolves gitStashCreate captured distinct noGit
  refine ⟨made, captures, separate, fun snapshot listed same later => ?_⟩
  obtain ⟨restored, restores, found⟩ := @restoreBlocking_snapshot gitCheckout snapshot later listed
  have result : ∀ path, look restored path =
      if path.head? = some ".git" then look (later.getD []) path else kept captured path := by
    intro path
    have left : kept snapshot path = kept captured path := by
      rw [kept, same, holds, kept]
      split
      · rfl
      · simp [Option.filter_filter]
    rw [found, left]
  refine ⟨restored, restores, result, fun plain unset path => ?_⟩
  rw [result]
  split
  case isTrue git =>
    obtain ⟨rest, rfl⟩ : ∃ rest, path = ".git" :: rest := List.head?_eq_some_iff.mp git
    rw [look_of_find_eq_none unset, look_of_find_eq_none noGit]
  case isFalse => exact plain path

end Rewind

/-- A file and a directory with a file in it. -/
def plainTree : Tree :=
  [("a", .file [1]), ("sub", .dir [("b", .file [2])])]

theorem plainTree_distinct : Distinct plainTree := by
  have inner : Distinct ([("b", .file [2])] : Tree) := .leaf rfl nofun .nil
  exact .leaf (by decide) nofun (.dir rfl inner .nil)

theorem plainTree_restored :
    ∃ made, captureBlocking (fun _ => true) (fun _ => none) plainTree = some (.snapshot made) ∧
      ∃ restored,
        restoreBlocking (fun _ _ => none) (.snapshot made) (some [("c", .file [3])]) =
          some restored ∧
        look restored ["sub", "b"] = some (.file [2]) ∧ look restored ["c"] = none := by
  obtain ⟨made, captures, separate, rewinds⟩ :=
    @rewind_restores_files (fun _ => true) (fun _ => none) (fun _ _ => none) plainTree
      plainTree_distinct (by simp [plainTree, find])
  obtain ⟨restored, restores, result, _⟩ :=
    rewinds made separate (fun _ => rfl) (some [("c", .file [3])])
  refine ⟨made, captures, restored, restores, ?_, ?_⟩
  · rw [result]
    decide
  · rw [result]
    decide

/-- A link, and a repository below the top. -/
def linkedTree : Tree :=
  [("a", .link [98]), ("sub", .dir [(".git", .file [1])])]

theorem linkedTree_distinct : Distinct linkedTree := by
  have inner : Distinct ([(".git", .file [1])] : Tree) := .leaf rfl nofun .nil
  exact .leaf (by decide) nofun (.dir rfl inner .nil)

/--
A rewind of a workspace that has not changed loses a link and a `.git` below the top,
and it keeps a `.git` that came to the top after the capture.
-/
theorem linkedTree_not_restored :
    Distinct linkedTree ∧ find ".git" linkedTree = none ∧
      ∃ made, captureBlocking (fun _ => true) (fun _ => none) linkedTree = some (.snapshot made) ∧
        (∃ restored,
          restoreBlocking (fun _ _ => none) (.snapshot made) (some linkedTree) = some restored ∧
          look linkedTree ["a"] = some (.link [98]) ∧ look restored ["a"] = none ∧
          look linkedTree ["sub", ".git"] = some (.file [1]) ∧
          look restored ["sub", ".git"] = none) ∧
        ∃ restored,
          restoreBlocking (fun _ _ => none) (.snapshot made) (some [(".git", .file [2])]) =
            some restored ∧
          look linkedTree [".git"] = none ∧ look restored [".git"] = some (.file [2]) := by
  refine ⟨linkedTree_distinct, by decide, [("sub", .dir [])], ?_, ⟨[("sub", .dir [])], ?_⟩,
    [(".git", .file [2]), ("sub", .dir [])], ?_⟩
  · simp [captureBlocking, pathExists, linkedTree, copyTree, find, place]
  · simp [restoreBlocking, clearDirExceptGit, linkedTree, copyTree, find, place]
    decide
  · simp [restoreBlocking, clearDirExceptGit, copyTree, find, place]
    decide

end DaemonNode.Engine.Checkpoint
