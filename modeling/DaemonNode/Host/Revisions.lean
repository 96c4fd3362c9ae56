import DaemonNode.Lib.Lists

/-!
# Histories of profiles and skills

Each artifact has a directory with an index, one line for a revision, and the contents under
their hashes. The directory is named after the kind and the id, with characters that a file
name should not have replaced, so that ids which differ in them share a history. A name that
is empty or made of dots leads to another directory.
-/

namespace DaemonNode.Revisions

inductive RevisionKind
  | profile
  | skill
  deriving DecidableEq, Repr

def RevisionKind.asStr : RevisionKind → String
  | .profile => "profile"
  | .skill => "skill"

def sanitize (id : String) : String :=
  String.ofList (id.toList.map fun c =>
    if c.isAlphanum || c = '-' || c = '_' || c = '.' then c else '_')

/-- The place that a name leads to from a directory under the root. -/
def enter (place : List String) (name : String) : List String :=
  if name = "" ∨ name = "." then place
  else if name = ".." then place.dropLast
  else place ++ [name]

/-- The place that a path leads to, if there is a directory at each place on the way. -/
def resolve (isDir : List String → Bool) : List String → List String → Option (List String)
  | place, [] => if isDir place then some place else none
  | place, name :: rest => if isDir place then resolve isDir (enter place name) rest else none

def artifactDir (kind : RevisionKind) (id : String) : List String :=
  [kind.asStr, sanitize id]

/-- Where the directory of an artifact is, once it is made. -/
def artifactPlace (kind : RevisionKind) (id : String) : List String :=
  (artifactDir kind id).foldl enter []

def indexName : String := "index.jsonl"

/-- A line of an index, which is what a history shows of a revision. -/
structure IndexLine (Hash Author : Type) where
  seq : Nat
  parent : Option Nat
  hash : Hash
  author : Author
  reason : String
  tsMs : Nat
  deriving DecidableEq, Repr

/-- What `append` is called with, and the time it reads. -/
structure Append (Author : Type) where
  kind : RevisionKind
  id : String
  blob : List (Fin 256)
  author : Author
  reason : String
  tsMs : Nat
  deriving DecidableEq, Repr

inductive RevisionError
  | io
  | notFound (kind id : String) (seq : Nat)
  deriving DecidableEq, Repr

/-- What is on disk: the directories of the kinds and of artifacts, and in them the lines of an
index, if there is one, and contents. -/
structure FileRevisionLog (Hash Author : Type) where
  dirs : List String → Bool
  index : List String → List (IndexLine Hash Author)
  blobs : List String → Hash → Option (List (Fin 256))

namespace FileRevisionLog

variable {Hash Author : Type} [DecidableEq Hash] (sha256 : List (Fin 256) → Hash)

/-- A new log has its root. -/
def openLog : FileRevisionLog Hash Author := ⟨fun place => place = [], fun _ => [], fun _ _ => none⟩

variable (log : FileRevisionLog Hash Author) (kind : RevisionKind) (id : String)

/-- Whether an index stands at a place, where no directory can be made. -/
def isFile (place : List String) : Bool :=
  place.getLast? = some indexName && !(log.index place.dropLast).isEmpty

def readIndex : Except RevisionError (List (IndexLine Hash Author)) :=
  match resolve log.dirs [] (artifactDir kind id) with
  | none => .ok []
  | some place => if log.dirs (place ++ [indexName]) then .error .io else .ok (log.index place)

/-- The disk after the directories are made and a content and a line are written. -/
def record (call : Append Author) (parent : Option Nat) : FileRevisionLog Hash Author :=
  let place := artifactPlace call.kind call.id
  let hash := sha256 call.blob
  { dirs := fun other => log.dirs other || other = [call.kind.asStr] || other = place
    index := Function.update log.index place (log.index place ++
      [⟨parent.getD 0 + 1, parent, hash, call.author, call.reason, call.tsMs⟩])
    blobs := Function.update log.blobs place (Function.update (log.blobs place) hash
      ((log.blobs place hash).or (some call.blob))) }

/-- A directory that cannot be made, as an index stands in its place, has its parents already, so
a failure leaves the disk as it is. -/
def append (call : Append Author) : Except RevisionError (FileRevisionLog Hash Author) := do
  let existing ← log.readIndex call.kind call.id
  let place := artifactPlace call.kind call.id
  if log.isFile place || log.dirs (place ++ [indexName]) then .error .io
  else .ok (log.record sha256 call (existing.getLast?.map IndexLine.seq))

def history : Except RevisionError (List (IndexLine Hash Author)) :=
  log.readIndex kind id

def head : Except RevisionError (Option (IndexLine Hash Author)) :=
  (log.readIndex kind id).map List.getLast?

def getAt (seq : Nat) : Except RevisionError (List (Fin 256)) := do
  let index ← log.readIndex kind id
  match index.find? fun line => line.seq = seq with
  | none => .error (.notFound kind.asStr id seq)
  | some line =>
    let place := resolve log.dirs [] (artifactDir kind id)
    match place.bind fun place => log.blobs place line.hash with
    | none => .error .io
    | some blob => .ok blob

/-- A log after a call that may fail. -/
def after (call : Append Author) : FileRevisionLog Hash Author :=
  match log.append sha256 call with
  | .ok appended => appended
  | .error _ => log

end FileRevisionLog

open FileRevisionLog

/-- The revision that an append makes as the one with a number. -/
def revision (sha256 : List (Fin 256) → Hash) (number : Nat) (call : Append Author) :
    IndexLine Hash Author :=
  ⟨number + 1, if number = 0 then none else some number, sha256 call.blob, call.author,
    call.reason, call.tsMs⟩

/-- The revisions of an artifact, from the appends that were made for it. -/
def revisions (sha256 : List (Fin 256) → Hash) (own : List (Append Author)) :
    List (IndexLine Hash Author) :=
  own.mapIdx (revision sha256)

/-- The revisions that some appends made stand in the directory of an artifact. -/
structure Records
    (sha256 : List (Fin 256) → Hash)
    (own : List (Append Author))
    (kind : RevisionKind)
    (id : String)
    (log : FileRevisionLog Hash Author) : Prop where
  root : log.dirs [] = true
  made : own ≠ [] → log.dirs [kind.asStr] = true ∧ log.dirs (artifactPlace kind id) = true
  free : log.isFile (artifactPlace kind id) = false ∧
    log.dirs (artifactPlace kind id ++ [indexName]) = false
  lines : log.index (artifactPlace kind id) = revisions sha256 own
  hashed : ∀ hash blob, log.blobs (artifactPlace kind id) hash = some blob →
    ∃ call ∈ own, call.blob = blob ∧ sha256 blob = hash
  stored : ∀ call ∈ own, log.blobs (artifactPlace kind id) (sha256 call.blob) = some call.blob

/-- Two artifacts have different directories, and neither has its directory where the other has
its index. -/
def Apart (kind other : RevisionKind) (id name : String) : Prop :=
  artifactPlace other name ≠ artifactPlace kind id ∧
    artifactPlace other name ≠ artifactPlace kind id ++ [indexName] ∧
    artifactPlace kind id ≠ artifactPlace other name ++ [indexName]

section Histories

variable {Hash Author : Type} {sha256 : List (Fin 256) → Hash}
variable {own : List (Append Author)} {call : Append Author}

theorem revisions_concat :
    revisions sha256 (own ++ [call]) = revisions sha256 own ++ [revision sha256 own.length call] :=
  List.mapIdx_concat

theorem revisions_getLast? :
    (revisions sha256 own).getLast?.map IndexLine.seq =
      if own.length = 0 then none else some own.length := by
  cases own using List.reverseRecOn with
  | nil => rfl
  | append_singleton own call =>
    rw [revisions_concat, List.getLast?_concat]
    simp [revision]

theorem revisions_find? (number : Nat) :
    (revisions sha256 own).find? (fun line => line.seq = number + 1) =
      own[number]?.map (revision sha256 number) := by
  induction own using List.reverseRecOn with
  | nil => rfl
  | append_singleton own call ih =>
    rw [revisions_concat, List.find?_append, ih]
    rcases Nat.lt_trichotomy number own.length with within | rfl | beyond
    · rw [List.getElem?_append_left within, List.getElem?_eq_getElem within]
      rfl
    · simp [revision]
    · have outside : (own ++ [call])[number]? = none := by
        rw [List.getElem?_eq_none_iff, List.length_append]
        exact beyond
      rw [outside, List.getElem?_eq_none beyond.le]
      simpa [revision] using beyond.ne

variable {log : FileRevisionLog Hash Author} {kind : RevisionKind} {id : String}

theorem enter_asStr (kind : RevisionKind) : enter [] kind.asStr = [kind.asStr] := by
  cases kind <;> decide

theorem resolve_artifactDir (isDir : List String → Bool) (kind : RevisionKind) (id : String) :
    resolve isDir [] (artifactDir kind id) =
      if isDir [] && isDir [kind.asStr] && isDir (artifactPlace kind id) then
        some (artifactPlace kind id) else none := by
  simp only [artifactDir, resolve, artifactPlace, List.foldl_cons, List.foldl_nil, enter_asStr]
  cases isDir [] <;> cases isDir [kind.asStr] <;> simp

/-- The index of an artifact is read as the revisions of its appends. -/
theorem Records.readIndex_eq (records : Records sha256 own kind id log) :
    log.readIndex kind id = .ok (revisions sha256 own) := by
  rw [readIndex, resolve_artifactDir]
  split
  · rename_i absent
    cases own with
    | nil => rfl
    | cons call own =>
      obtain ⟨parent, place⟩ := records.made (List.cons_ne_nil _ _)
      rw [records.root, parent, place] at absent
      cases absent
  · rename_i place found
    split at found
    · cases found
      rw [records.free.2, records.lines]
      rfl
    · cases found

variable [DecidableEq Hash]

section Record

variable {place : List String}

/-- A record puts an index at one place only. -/
theorem isFile_record
    (parent : Option Nat)
    (elsewhere : place ≠ artifactPlace call.kind call.id ++ [indexName]) :
    (log.record sha256 call parent).isFile place = log.isFile place := by
  unfold isFile record
  by_cases named : place.getLast? = some indexName
  · obtain ⟨front, rfl⟩ := List.getLast?_eq_some_iff.mp named
    have other : front ≠ artifactPlace call.kind call.id := fun same => elsewhere (same ▸ rfl)
    simp only [List.dropLast_concat, Function.update_of_ne other]
  · simp [named]

/-- A record makes no directory where an index can be, other than that of its artifact. -/
theorem dirs_record
    (parent : Option Nat)
    (elsewhere : artifactPlace call.kind call.id ≠ place ++ [indexName]) :
    (log.record sha256 call parent).dirs (place ++ [indexName]) =
      log.dirs (place ++ [indexName]) := by
  have kinds : place ++ [indexName] ≠ [call.kind.asStr] := by
    intro same
    have named : indexName = call.kind.asStr := by
      simpa using congrArg List.getLast? same
    cases kind : call.kind <;> rw [kind] at named <;> exact absurd named (by decide)
  simp [record, kinds, Ne.symm elsewhere]

theorem after_cases :
    log.after sha256 call = log ∨
      ∃ parent, log.after sha256 call = log.record sha256 call parent := by
  unfold FileRevisionLog.after FileRevisionLog.append
  cases log.readIndex call.kind call.id with
  | error => exact .inl rfl
  | ok existing =>
    by_cases blocked : (log.isFile (artifactPlace call.kind call.id) ||
        log.dirs (artifactPlace call.kind call.id ++ [indexName])) = true
    · exact .inl (by simp only [bind, Except.bind, blocked, if_true])
    · exact .inr ⟨_, by simp only [bind, Except.bind, blocked]; rfl⟩

end Record

theorem Records.append
    (records : Records sha256 own call.kind call.id log)
    (injective : ∀ other ∈ own, sha256 other.blob = sha256 call.blob → other.blob = call.blob) :
    Records sha256 (own ++ [call]) call.kind call.id (log.after sha256 call) := by
  have appended : log.after sha256 call = log.record sha256 call
      (if own.length = 0 then none else some own.length) := by
    rw [FileRevisionLog.after, FileRevisionLog.append, records.readIndex_eq]
    simp only [bind, Except.bind, records.free, Bool.or_self, Bool.false_eq_true, if_false,
      revisions_getLast?]
  rw [appended]
  refine ⟨?_, fun _ => ?_, ?_, ?_, ?_, ?_⟩
  · simp [record, records.root]
  · simp [record]
  · have deeper : artifactPlace call.kind call.id ≠
        artifactPlace call.kind call.id ++ [indexName] :=
      fun same => by simpa using congrArg List.length same
    rw [isFile_record _ deeper, dirs_record _ deeper]
    exact records.free
  · simp only [record, Function.update_self, records.lines, revisions_concat, revision]
    by_cases first : own.length = 0 <;> simp [first]
  · intro hash blob found
    simp only [record, Function.update_self] at found
    by_cases same : hash = sha256 call.blob
    · subst same
      rw [Function.update_self] at found
      rcases Option.or_eq_some_iff.mp found with old | ⟨_, new⟩
      · obtain ⟨other, member, rest⟩ := records.hashed _ blob old
        exact ⟨other, List.mem_append_left _ member, rest⟩
      · cases new
        exact ⟨call, by simp, rfl, rfl⟩
    · rw [Function.update_of_ne same] at found
      obtain ⟨other, member, rest⟩ := records.hashed _ blob found
      exact ⟨other, List.mem_append_left _ member, rest⟩
  · intro other member
    simp only [record, Function.update_self]
    by_cases same : sha256 other.blob = sha256 call.blob
    · have content : other.blob = call.blob := by
        rcases List.mem_append.mp member with earlier | last
        · exact injective other earlier same
        · exact congrArg Append.blob (List.mem_singleton.mp last)
      rw [content, Function.update_self]
      cases old : log.blobs _ (sha256 call.blob) with
      | none => rfl
      | some blob =>
        obtain ⟨first, earlier, rfl, hashed⟩ := records.hashed _ blob old
        exact congrArg some (injective first earlier hashed)
    · rw [Function.update_of_ne same]
      rcases List.mem_append.mp member with earlier | last
      · exact records.stored other earlier
      · exact absurd (congrArg (sha256 ∘ Append.blob) (List.mem_singleton.mp last)) same

theorem Records.elsewhere
    (records : Records sha256 own kind id log)
    (apart : Apart kind call.kind id call.id) :
    Records sha256 own kind id (log.after sha256 call) := by
  rcases @after_cases Hash Author sha256 call log _ with same | ⟨parent, written⟩
  · rwa [same]
  rw [written]
  have blobs : (log.record sha256 call parent).blobs (artifactPlace kind id) =
      log.blobs (artifactPlace kind id) := Function.update_of_ne (Ne.symm apart.1) _ _
  have lines : (log.record sha256 call parent).index (artifactPlace kind id) =
      log.index (artifactPlace kind id) := Function.update_of_ne (Ne.symm apart.1) _ _
  refine ⟨?_, fun some => ?_, ?_, lines.trans records.lines, blobs ▸ records.hashed,
    blobs ▸ records.stored⟩
  · simp [record, records.root]
  · simp [record, records.made some]
  · rw [isFile_record parent apart.2.2, dirs_record parent apart.2.1]
    exact records.free

/-- Appends to the log, where no other artifact has the directory of this one, or a directory
where an index is. -/
theorem histories_isolated
    {calls : List (Append Author)}
    {kind : RevisionKind}
    {id : String}
    (injective : ∀ first ∈ calls, ∀ second ∈ calls,
      sha256 first.blob = sha256 second.blob → first.blob = second.blob)
    (apart : ∀ call ∈ calls, (call.kind = kind ∧ call.id = id) ∨ Apart kind call.kind id call.id) :
    let own := calls.filter fun call => call.kind = kind ∧ call.id = id
    let log := calls.foldl (FileRevisionLog.after sha256) openLog
    log.history kind id = .ok (revisions sha256 own) ∧
      log.head kind id = .ok (revisions sha256 own).getLast? ∧
      ∀ number, log.getAt kind id (number + 1) =
        match own[number]? with
        | some call => .ok call.blob
        | none => .error (.notFound kind.asStr id (number + 1)) := by
  intro own log
  have records : Records sha256 own kind id log := by
    induction calls using List.reverseRecOn with
    | nil =>
      refine ⟨rfl, fun some => absurd rfl some, ?_, rfl, nofun,
        fun _ member => absurd member List.not_mem_nil⟩
      simp [log, openLog, isFile]
    | append_singleton calls call ih =>
      obtain ⟨earlier, last⟩ := Lists.forall_mem_concat.mp apart
      have before := ih (fun first member second also => injective first
        (List.mem_append_left _ member) second (List.mem_append_left _ also)) earlier
      simp only [own, log, List.filter_append, List.foldl_append]
      by_cases mine : call.kind = kind ∧ call.id = id
      · obtain ⟨rfl, rfl⟩ := mine
        have recorded := before.append fun other member =>
          injective other (List.mem_append_left _ (List.mem_of_mem_filter member)) call (by simp)
        simpa using recorded
      · simpa [mine] using before.elsewhere (last.resolve_left mine)
  have read := records.readIndex_eq
  refine ⟨read, by rw [head, read]; rfl, fun number => ?_⟩
  rw [getAt, read]
  simp only [bind, Except.bind, revisions_find?]
  cases found : own[number]? with
  | none => rfl
  | some call =>
    have member := List.mem_of_getElem? found
    obtain ⟨parent, place⟩ := records.made (List.ne_nil_of_mem member)
    simp only [Option.map_some, resolve_artifactDir, records.root, parent, place, Bool.and_self,
      if_true, Option.bind_some, revision, records.stored call member]

end Histories

def sampleAppend (kind : RevisionKind) (id : String) (byte : Fin 256) : Append Unit :=
  ⟨kind, id, [byte], (), "", 0⟩

def sampleLog (calls : List (Append Unit)) : FileRevisionLog (List (Fin 256)) Unit :=
  calls.foldl (FileRevisionLog.after id) openLog

theorem histories_isolated_main :
    (sampleLog [sampleAppend .profile "main" 1, sampleAppend .skill "main" 2,
      sampleAppend .profile "main" 3]).getAt .profile "main" 2 = .ok [3] :=
  ((histories_isolated (by decide +kernel) (by unfold Apart; decide +kernel)).2.2 1).trans
    (by decide +kernel)

/-- Ids that differ in a character which is replaced share a history. The empty id has its index
where another id has its directory, and an id that leads back out of the directory of its kind
shares a history with the other kind once that has a directory. -/
theorem histories_shared :
    (sampleLog [sampleAppend .profile "a/b" 1]).getAt .profile "a_b" 1 = .ok [1] ∧
      (sampleLog [sampleAppend .profile "index.jsonl" 1]).history .profile "" = .error .io ∧
      (sampleLog [sampleAppend .profile ".." 1, sampleAppend .skill "a" 2]).getAt .skill ".." 1 =
        .ok [1] := by
  decide +kernel

end DaemonNode.Revisions
