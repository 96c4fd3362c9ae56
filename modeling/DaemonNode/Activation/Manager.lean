import DaemonNode.Activation.Recovery
import DaemonNode.Lib.Slots

/-!
# The activation manager and its tasks

A process keeps a directory of the sessions it is running. `wake` and `activate`
reserve a session in it and run an activation cycle under the reservation; the
cycle owns a guard that gives the reservation back when the cycle ends, whichever
way it ends. The guard carries the generation of its reservation, so that it
cannot remove a newer one. `passivate` removes the entry of a session and looks
at no generation.

Calls run concurrently. Each is a task that proceeds from one shared access or
one await to the next; the steps of all tasks interleave. The store, the engine
and the clock answer as they like.
-/

namespace DaemonNode.Activation

open SessionStore

/-- Where a task stands. From `leasing` on it owns a guard. -/
inductive Phase
  /-- A wake reads the status. -/
  | asking
  /-- The next generation is drawn. -/
  | minting
  /-- The directory is asked for the slot. -/
  | entering (generation : UInt64)
  | leasing (guard : UInt64)
  | turning (guard : UInt64) (fence : Nat)
  /-- The cycle has put up its mailbox and reads the status. -/
  | registered (guard : UInt64) (mailbox : Nat)
  | waiting (guard : UInt64) (mailbox : Nat)
  /-- The cycle was woken and reads the status. -/
  | rechecking (guard : UInt64)
  | renewing (guard : UInt64)
  | ended
  deriving DecidableEq, Repr

/-- The generation of the guard that a task owns. -/
def Phase.guard : Phase → Option UInt64
  | .asking => none
  | .minting => none
  | .entering _ => none
  | .leasing guard => some guard
  | .turning guard _ => some guard
  | .registered guard _ => some guard
  | .waiting guard _ => some guard
  | .rechecking guard => some guard
  | .renewing guard => some guard
  | .ended => none

/-- A call of `wake` or `activate`, and the cycle that it runs. -/
structure Task where
  id : SessionId
  /-- The fence that the caller of `activate` brings; a wake has none. -/
  fence : Option Nat
  phase : Phase
  reported : Bool
  deriving DecidableEq, Repr

inductive CallErr
  | substrate (error : SubErr)
  | busy (id : SessionId)
  | join (id : SessionId)
  deriving DecidableEq, Repr

abbrev CallResult := Except CallErr Unit

/-- The shared state and the tasks. -/
structure Manager where
  directory : SessionId → Option UInt64
  generations : UInt64
  lingers : SessionId → Option Nat
  /-- The mailboxes ever made, with whether each was notified. -/
  mailboxes : List Bool
  tasks : List Task

def Manager.new : Manager where
  directory := fun _ => none
  generations := 0
  lingers := fun _ => none
  mailboxes := []
  tasks := []

/-- What a task is answered by the store, the engine or the clock. -/
inductive Answer
  | nothing
  | status (status : Option SessionStatus)
  | lease (outcome : Except StoreError Nat)
  /-- A turn's outcome: the status of a turn commit, or none for another commit. -/
  | turn (outcome : Except SubErr (Option SessionStatus))
  | notified
  | expired

inductive Event
  | wake (id : SessionId)
  | activate (id : SessionId) (fence : Nat)
  | passivate (id : SessionId)
  | advance (task : Nat) (answer : Answer)
  | abort (task : Nat)

namespace Manager

/-- What a step of a task does: to the shared state, to the task, and what the
caller is told. -/
abbrev Progress := Manager × Task × Option CallResult

def dropGuard (id : SessionId) (guard : UInt64) (manager : Manager) : Manager :=
  { manager with directory := Slots.release manager.directory id guard }

/-- The result of a cycle for the caller: a wake that was fenced out is content. -/
def callResult (task : Task) : Except SubErr Unit → CallResult
  | .ok () => .ok ()
  | .error (.store (.fenced presented current)) =>
    match task.fence with
    | none => .ok ()
    | some _ => .error (.substrate (.store (.fenced presented current)))
  | .error error => .error (.substrate error)

/-- Tell the caller, unless it was told before. -/
def report (task : Task) (result : CallResult) : Option CallResult :=
  if task.reported then none else some result

/-- Go on without a word to the caller. -/
def proceed (phase : Phase) (manager : Manager) (task : Task) : Progress :=
  (manager, { task with phase := phase }, none)

/-- Release the caller and go on. -/
def resume (phase : Phase) (manager : Manager) (task : Task) : Progress :=
  (manager, { task with phase := phase, reported := true }, report task (.ok ()))

/-- End without a guard. -/
def leave (result : CallResult) (manager : Manager) (task : Task) : Progress :=
  (manager, { task with phase := .ended, reported := true }, report task result)

/-- Drop the guard, then tell the caller. -/
def finish (guard : UInt64) (result : CallResult) (manager : Manager) (task : Task) : Progress :=
  leave result (manager.dropGuard task.id guard) task

/-- Hand a wake to the mailbox of a session, if it has put one up. -/
def notify (id : SessionId) (manager : Manager) : Manager :=
  match manager.lingers id with
  | none => manager
  | some mailbox => { manager with mailboxes := manager.mailboxes.set mailbox true }

/-- Draw a generation; the counter wraps around. -/
def mint (manager : Manager) (task : Task) : Progress :=
  proceed (.entering manager.generations)
    { manager with generations := manager.generations + 1 } task

/-- Reserve the slot if it is vacant. Otherwise a wake hands over its hint and an
activation is refused. -/
def enter (generation : UInt64) (manager : Manager) (task : Task) : Progress :=
  match manager.directory task.id with
  | some _ =>
    match task.fence with
    | none => leave (.ok ()) (manager.notify task.id) task
    | some _ => leave (.error (.busy task.id)) manager task
  | none =>
    proceed
      (match task.fence with
       | none => .leasing generation
       | some fence => .turning generation fence)
      { manager with directory := Function.update manager.directory task.id (some generation) }
      task

/-- After a turn the cycle ends, goes on at once, or puts up a mailbox. -/
def afterTurn (linger : Bool) (guard : UInt64) (outcome : Except SubErr (Option SessionStatus))
    (manager : Manager) (task : Task) : Progress :=
  match outcome with
  | .error error => finish guard (callResult task (.error error)) manager task
  | .ok none => finish guard (.ok ()) manager task
  | .ok (some status) =>
    if linger then
      match status with
      | .ready => resume (.renewing guard) manager task
      | .idle =>
        resume (.registered guard manager.mailboxes.length)
          { manager with
            mailboxes := manager.mailboxes ++ [false]
            lingers := Function.update manager.lingers task.id (some manager.mailboxes.length) }
          task
      | _ => finish guard (.ok ()) manager task
    else finish guard (.ok ()) manager task

def takeDown (id : SessionId) (manager : Manager) : Manager :=
  { manager with lingers := Function.update manager.lingers id none }

/-- The next step of a task; none if it waits for another answer. -/
def advance (linger : Bool) (answer : Answer) (manager : Manager) (task : Task) :
    Option Progress :=
  match task.phase, answer with
  | .asking, .status (some .completed) => some (leave (.ok ()) manager task)
  | .asking, .status (some .idle) => some (leave (.ok ()) manager task)
  | .asking, .status none => some (leave (.ok ()) manager task)
  | .asking, .status (some _) => some (proceed .minting manager task)
  | .minting, .nothing => some (manager.mint task)
  | .entering generation, .nothing => some (manager.enter generation task)
  | .leasing guard, .lease (.ok fence) => some (proceed (.turning guard fence) manager task)
  | .leasing guard, .lease (.error error) =>
    some (finish guard (.error (.substrate (.store error))) manager task)
  | .turning guard _, .turn outcome => some (manager.afterTurn linger guard outcome task)
  | .registered guard _, .status (some .ready) =>
    some (proceed (.rechecking guard) (manager.takeDown task.id) task)
  | .registered guard mailbox, .status _ => some (proceed (.waiting guard mailbox) manager task)
  | .waiting guard mailbox, .notified =>
    if manager.mailboxes[mailbox]? = some true then
      some (proceed (.rechecking guard) (manager.takeDown task.id) task)
    else none
  | .waiting guard _, .expired => some (finish guard (.ok ()) (manager.takeDown task.id) task)
  | .rechecking guard, .status (some .ready) => some (proceed (.renewing guard) manager task)
  | .rechecking guard, .status _ => some (finish guard (.ok ()) manager task)
  | .renewing guard, .lease (.ok fence) => some (proceed (.turning guard fence) manager task)
  | .renewing guard, .lease (.error error) =>
    some (finish guard (callResult task (.error (.store error))) manager task)
  | _, _ => none

/-- A task that is cancelled or panics drops its guard. The caller of a cycle is
told that it was not joined; before that there is nobody to tell. -/
def abort (manager : Manager) (task : Task) : Option Progress :=
  match task.phase with
  | .ended => none
  | .asking => some (proceed .ended manager task)
  | .minting => some (proceed .ended manager task)
  | .entering _ => some (proceed .ended manager task)
  | .leasing guard => some (proceed .ended (manager.dropGuard task.id guard) task)
  | .turning guard _ => some (finish guard (.error (.join task.id)) manager task)
  | .registered guard _ => some (finish guard (.error (.join task.id)) manager task)
  | .waiting guard _ => some (finish guard (.error (.join task.id)) manager task)
  | .rechecking guard => some (finish guard (.error (.join task.id)) manager task)
  | .renewing guard => some (finish guard (.error (.join task.id)) manager task)

/-- Let a task make a step. -/
def runTask (index : Nat) (manager : Manager) (move : Manager → Task → Option Progress) :
    Option (Manager × List (Nat × CallResult)) :=
  match manager.tasks[index]? with
  | none => none
  | some task =>
    (move manager task).map fun (shared, moved, result) =>
      ({ shared with tasks := manager.tasks.set index moved },
        result.toList.map fun told => (index, told))

/-- Start a call. -/
def start (task : Task) (manager : Manager) : Manager :=
  { manager with tasks := manager.tasks ++ [task] }

/-- The manager as a machine; `linger` says whether cycles linger. -/
def step (linger : Bool) : Machine.StepFunction Manager Event (Nat × CallResult) :=
  fun manager event =>
    match event with
    | .wake id => some (manager.start ⟨id, none, .asking, false⟩, [])
    | .activate id fence => some (manager.start ⟨id, some fence, .minting, false⟩, [])
    | .passivate id =>
      some ({ manager with directory := Function.update manager.directory id none }, [])
    | .advance index answer => manager.runTask index (advance linger answer)
    | .abort index => manager.runTask index abort

end Manager

/-- What a task holds in the directory. -/
def Task.held (task : Task) : Option (SessionId × UInt64) :=
  task.phase.guard.map fun guard => (task.id, guard)

theorem Task.held_eq_some_iff {task : Task} {id : SessionId} {guard : UInt64} :
    task.held = some (id, guard) ↔ task.phase.guard = some guard ∧ task.id = id := by
  simp [held, and_comm]

namespace Manager

/-- The directory and the guards. -/
def slots (manager : Manager) : Slots.State SessionId UInt64 where
  directory := manager.directory
  holds := fun index => manager.tasks[index]?.bind Task.held

theorem holds_of_found {manager : Manager} (found : manager.tasks[index]? = some task) :
    manager.slots.holds index = task.held :=
  congrArg (Option.bind · Task.held) found

def Live (id : SessionId) (manager : Manager) : Prop :=
  ∃ task ∈ manager.tasks, task.id = id ∧ task.phase.guard.isSome

instance (id : SessionId) (manager : Manager) : Decidable (manager.Live id) :=
  inferInstanceAs (Decidable (∃ task ∈ manager.tasks, _))

def liveCycles (id : SessionId) (manager : Manager) : Nat :=
  manager.tasks.countP fun task => task.id = id ∧ task.phase.guard.isSome

/-- What a step of a task does to reservations. -/
inductive Stepped (manager : Manager) (task : Task) (shared : Manager) (moved : Task) : Prop
  | keep (directory : shared.directory = manager.directory) (held : moved.held = task.held)
  | claim (generation : UInt64)
      (vacant : manager.directory task.id = none)
      (free : task.held = none)
      (directory : shared.directory = Function.update manager.directory task.id (some generation))
      (held : moved.held = some (task.id, generation))
  | drop (guard : UInt64)
      (holding : task.held = some (task.id, guard))
      (directory : shared.directory = Slots.release manager.directory task.id guard)
      (held : moved.held = none)

section Steps

variable {guard : UInt64}

theorem proceed_stepped (same : phase.guard = task.phase.guard)
    (directory : shared.directory = manager.directory) :
    Stepped manager task (proceed phase shared task).1 (proceed phase shared task).2.1 := by
  refine .keep directory ?_
  rw [Task.held, Task.held, ← same]
  rfl

theorem resume_stepped (same : phase.guard = task.phase.guard)
    (directory : shared.directory = manager.directory) :
    Stepped manager task (resume phase shared task).1 (resume phase shared task).2.1 := by
  refine .keep directory ?_
  rw [Task.held, Task.held, ← same]
  rfl

theorem leave_stepped (free : task.phase.guard = none)
    (directory : shared.directory = manager.directory) :
    Stepped manager task (leave result shared task).1 (leave result shared task).2.1 := by
  refine .keep directory ?_
  rw [Task.held, Task.held, free]
  rfl

theorem finish_stepped (owned : task.phase.guard = some guard)
    (directory : shared.directory = manager.directory) :
    Stepped manager task (finish guard result shared task).1
      (finish guard result shared task).2.1 := by
  refine .drop guard (Task.held_eq_some_iff.mpr ⟨owned, rfl⟩) ?_ rfl
  rw [← directory]
  rfl

theorem enter_stepped (entering : task.phase = .entering generation) :
    Stepped manager task (manager.enter generation task).1 (manager.enter generation task).2.1 := by
  have free : task.phase.guard = none := by rw [entering]; rfl
  rw [enter]
  split
  · split
    · refine leave_stepped free ?_
      rw [notify]
      split <;> rfl
    · exact leave_stepped free rfl
  · rename_i vacant
    refine .claim generation vacant ?_ rfl ?_
    · rw [Task.held, free]
      rfl
    · rw [proceed, Task.held]
      split <;> rfl

theorem afterTurn_stepped (owned : task.phase.guard = some guard) :
    Stepped manager task (manager.afterTurn linger guard outcome task).1
      (manager.afterTurn linger guard outcome task).2.1 := by
  unfold afterTurn
  split
  · exact finish_stepped owned rfl
  · exact finish_stepped owned rfl
  · split
    · split
      · exact resume_stepped owned.symm rfl
      · exact resume_stepped owned.symm rfl
      · exact finish_stepped owned rfl
    · exact finish_stepped owned rfl

theorem advance_stepped (advanced : manager.advance linger answer task = some progress) :
    Stepped manager task progress.1 progress.2.1 := by
  obtain ⟨id, fence, phase, reported⟩ := task
  unfold advance at advanced
  dsimp only at advanced
  split at advanced
  case h_12 =>
    split at advanced
    · cases advanced
      exact proceed_stepped rfl rfl
    · cases advanced
  all_goals cases advanced
  any_goals exact proceed_stepped rfl rfl
  any_goals exact leave_stepped rfl rfl
  any_goals exact finish_stepped rfl rfl
  · exact enter_stepped rfl
  · exact afterTurn_stepped rfl

theorem abort_stepped {progress : Progress} (aborted : manager.abort task = some progress) :
    Stepped manager task progress.1 progress.2.1 := by
  obtain ⟨id, fence, phase, reported⟩ := task
  cases phase with
  | ended => cases aborted
  | asking | minting | entering =>
    cases aborted
    exact proceed_stepped rfl rfl
  | leasing =>
    cases aborted
    exact .drop _ (Task.held_eq_some_iff.mpr ⟨rfl, rfl⟩) rfl rfl
  | turning | registered | waiting | rechecking | renewing =>
    cases aborted
    exact finish_stepped rfl rfl

end Steps

section Moves

variable {manager after : Manager}

theorem slots_set (found : manager.tasks[index]? = some task) (shared : Manager) (moved : Task) :
    ({ shared with tasks := manager.tasks.set index moved } : Manager).slots =
      { directory := shared.directory
        holds := Function.update manager.slots.holds index moved.held } := by
  have bound : index < manager.tasks.length := (List.getElem?_eq_some_iff.mp found).1
  have holds : (fun other => (manager.tasks.set index moved)[other]?.bind Task.held) =
      Function.update manager.slots.holds index moved.held := by
    funext other
    by_cases same : other = index
    · rw [same, Function.update_self, List.getElem?_set_self bound]
      rfl
    · rw [Function.update_of_ne same, List.getElem?_set_ne (Ne.symm same)]
      rfl
  rw [← holds]
  rfl

theorem slots_start (free : task.held = none) : (manager.start task).slots = manager.slots := by
  have holds : (fun index => (manager.tasks ++ [task])[index]?.bind Task.held) =
      manager.slots.holds := by
    funext index
    rcases Nat.lt_trichotomy index manager.tasks.length with inside | rfl | outside
    · rw [List.getElem?_append_left inside]
      rfl
    · rw [List.getElem?_concat_length]
      change task.held = manager.tasks[manager.tasks.length]?.bind Task.held
      rw [free, List.getElem?_eq_none (Nat.le_refl _)]
      rfl
    · change _ = manager.tasks[index]?.bind Task.held
      rw [List.getElem?_eq_none (Nat.le_of_lt outside), List.getElem?_eq_none]
      rw [List.length_append]
      exact outside
  exact congrArg (Slots.State.mk manager.directory) holds

theorem runTask_move {index : Nat}
    (stepped : ∀ task progress, move manager task = some progress →
      Stepped manager task progress.1 progress.2.1)
    (ran : manager.runTask index move = some (after, told)) :
    Slots.Move manager.slots none after.slots := by
  unfold runTask at ran
  split at ran
  · cases ran
  rename_i task found
  obtain ⟨⟨shared, moved, result⟩, made, built⟩ := Option.map_eq_some_iff.mp ran
  cases built
  have holding := holds_of_found found
  rw [slots_set found]
  cases stepped task _ made with
  | keep directory held =>
    dsimp only at directory held
    rw [directory, held, ← holding, Function.update_eq_self]
    exact .stay _
  | claim generation vacant free directory held =>
    dsimp only at directory held
    rw [directory, held]
    exact .claim _ _ _ _ vacant (holding.trans free)
  | drop guard owned directory held =>
    dsimp only at directory held
    rw [directory, held]
    exact .release _ _ _ _ (holding.trans owned)

end Moves

end Manager

/-- The session whose entry an event removes unasked. -/
def Event.evicts : Event → Option SessionId
  | .passivate id => some id
  | _ => none

namespace Manager

theorem step_move (stepped : step linger manager event = some (after, told)) :
    Slots.Move manager.slots event.evicts after.slots := by
  cases event with
  | wake | activate =>
    cases stepped
    rw [slots_start rfl]
    exact .stay _
  | passivate id =>
    cases stepped
    exact .evict manager.slots id
  | advance index answer => exact runTask_move (fun _ _ => advance_stepped) stepped
  | abort index => exact runTask_move (fun _ _ => abort_stepped) stepped

theorem live_iff {manager : Manager} {id : SessionId} :
    manager.Live id ↔ ∃ index guard, manager.slots.holds index = some (id, guard) := by
  constructor
  · rintro ⟨task, member, rfl, owned⟩
    obtain ⟨index, found⟩ := List.mem_iff_getElem?.mp member
    obtain ⟨guard, guarded⟩ := Option.isSome_iff_exists.mp owned
    refine ⟨index, guard, ?_⟩
    rw [holds_of_found found]
    exact Task.held_eq_some_iff.mpr ⟨guarded, rfl⟩
  · rintro ⟨index, guard, holding⟩
    obtain ⟨task, found, held⟩ := Option.bind_eq_some_iff.mp holding
    obtain ⟨guarded, named⟩ := Task.held_eq_some_iff.mp held
    exact ⟨task, List.mem_of_getElem? found, named, by rw [guarded]; rfl⟩

/-- The events of a run that passivate a session do it between its cycles. -/
def Settled (trace : List (Machine.Step Manager Event (Nat × CallResult))) : Prop :=
  ∀ recorded ∈ trace, ∀ id ∈ recorded.input.evicts, ¬recorded.before.Live id

instance (trace : List (Machine.Step Manager Event (Nat × CallResult))) :
    Decidable (Settled trace) :=
  inferInstanceAs (Decidable (∀ recorded ∈ trace, ∀ id ∈ recorded.input.evicts,
    ¬recorded.before.Live id))

theorem exclusive_of_run {linger : Bool} {manager : Manager}
    (run : Machine.Run (Machine.graph (step linger)) Manager.new trace manager)
    (settled : Settled trace) :
    Slots.Exclusive manager.slots := by
  induction run with
  | nil => exact ⟨nofun, nofun, nofun⟩
  | snoc earlier stepped ih =>
    obtain ⟨sooner, last⟩ := Lists.forall_mem_concat.mp settled
    refine (ih sooner).move (step_move stepped) fun id evicted index guard holding => ?_
    exact last id evicted (live_iff.mpr ⟨index, guard, holding⟩)

theorem liveCycles_le_one {manager : Manager} (exclusive : Slots.Exclusive manager.slots)
    (id : SessionId) :
    manager.liveCycles id ≤ 1 := by
  refine Lists.countP_le_one fun first second task other atFirst atSecond firstLive secondLive => ?_
  obtain ⟨rfl, firstOwns⟩ := of_decide_eq_true firstLive
  obtain ⟨same, secondOwns⟩ := of_decide_eq_true secondLive
  obtain ⟨firstGuard, firstGuarded⟩ := Option.isSome_iff_exists.mp firstOwns
  obtain ⟨secondGuard, secondGuarded⟩ := Option.isSome_iff_exists.mp secondOwns
  refine exclusive.alone first second task.id firstGuard secondGuard ?_ ?_
  · rw [holds_of_found atFirst]
    exact Task.held_eq_some_iff.mpr ⟨firstGuarded, rfl⟩
  · rw [holds_of_found atSecond]
    exact Task.held_eq_some_iff.mpr ⟨secondGuarded, same⟩

theorem directory_iff_live {manager : Manager} (exclusive : Slots.Exclusive manager.slots)
    (id : SessionId) :
    (manager.directory id).isSome ↔ manager.Live id := by
  rw [live_iff, Option.isSome_iff_exists]
  constructor
  · rintro ⟨guard, listed⟩
    obtain ⟨index, holding⟩ := exclusive.held id guard listed
    exact ⟨index, guard, holding⟩
  · rintro ⟨index, guard, holding⟩
    exact ⟨guard, exclusive.listed index id guard holding⟩

/-- In every interleaving in which sessions are passivated between their cycles
only, a session has at most one live cycle, the directory lists exactly the
sessions with one, and a cycle that ends leaves the reservations of all others. -/
theorem single_activation {linger : Bool} {manager : Manager}
    {trace : List (Machine.Step Manager Event (Nat × CallResult))}
    (run : Machine.Run (Machine.graph (step linger)) Manager.new trace manager)
    (settled : Settled trace) :
    (∀ id, manager.liveCycles id ≤ 1) ∧
    (∀ id, (manager.directory id).isSome ↔ manager.Live id) ∧
    ∀ recorded ∈ trace, ∀ index,
      recorded.before.slots.holds index ≠ none → recorded.after.slots.holds index = none →
      ∀ other id guard, other ≠ index → recorded.before.slots.holds other = some (id, guard) →
        recorded.after.slots.holds other = some (id, guard) ∧
          recorded.after.directory id = some guard := by
  have exclusive := exclusive_of_run run settled
  refine ⟨liveCycles_le_one exclusive, directory_iff_live exclusive, ?_⟩
  intro recorded member index held given other id guard different holding
  obtain ⟨earlier, later, rfl⟩ := List.append_of_mem member
  obtain ⟨before, stepped⟩ := run.split rfl
  have moved := step_move stepped
  have kept := (moved.holds_of_release held given different).trans holding
  have exclusiveBefore := exclusive_of_run before fun past inPast =>
    settled past (List.mem_append_left _ inPast)
  have exclusiveAfter := exclusiveBefore.move moved fun evicted named worker tag holds =>
    settled recorded member evicted named (live_iff.mpr ⟨worker, tag, holds⟩)
  exact ⟨kept, exclusiveAfter.listed other id guard kept⟩

/-- The steps of a wake up to its first turn. -/
def wakes (task : Nat) (fence : Nat) : List Event :=
  [.advance task (.status (some .ready)), .advance task .nothing, .advance task .nothing,
    .advance task (.lease (.ok fence))]

/-- A cycle lingers, is woken by a second wake, refuses an activation and ends; the
session is passivated and woken once more. -/
def lingeringCycle : List Event :=
  [.wake "s"] ++ wakes 0 1 ++
  [.advance 0 (.turn (.ok (some .idle))), .advance 0 (.status (some .idle)),
    .wake "s", .advance 1 (.status (some .ready)), .advance 1 .nothing, .advance 1 .nothing,
    .advance 0 .notified, .advance 0 (.status (some .ready)), .advance 0 (.lease (.ok 2)),
    .activate "s" 7, .advance 2 .nothing, .advance 2 .nothing,
    .advance 0 (.turn (.ok none)), .passivate "s", .wake "s"] ++ wakes 3 3

theorem lingeringCycle_single :
    ∃ trace manager, Machine.Run (Machine.graph (step true)) Manager.new trace manager ∧
      Settled trace ∧
      Machine.emitted trace = [(0, .ok ()), (1, .ok ()), (2, .error (.busy "s"))] ∧
      (manager.directory "s").isSome ∧ manager.Live "s" ∧ manager.liveCycles "s" ≤ 1 := by
  obtain ⟨trace, manager, run, settled, told, listed⟩ := Machine.Run.of_checked_exec (step true)
    Manager.new lingeringCycle (fun trace manager => Settled trace ∧
      Machine.emitted trace = [(0, .ok ()), (1, .ok ()), (2, .error (.busy "s"))] ∧
      (manager.directory "s").isSome) (by decide +kernel)
  have single := single_activation run settled
  exact ⟨trace, manager, run, settled, told, listed, (single.2.1 "s").mp listed, single.1 "s"⟩

/-- A session is passivated while its cycle runs, and woken again. -/
def passivatedWhileRunning : List Event :=
  [.wake "s"] ++ wakes 0 1 ++ [.passivate "s", .wake "s"] ++ wakes 1 2

theorem passivatedWhileRunning_twice_live :
    ∃ trace manager, Machine.Run (Machine.graph (step false)) Manager.new trace manager ∧
      (∃ recorded ∈ trace, recorded.input.evicts = some "s" ∧
        recorded.after.Live "s" ∧ recorded.after.directory "s" = none) ∧
      manager.liveCycles "s" = 2 := by
  exact Machine.Run.of_checked_exec _ _ passivatedWhileRunning _ (by decide +kernel)

end Manager
end DaemonNode.Activation
