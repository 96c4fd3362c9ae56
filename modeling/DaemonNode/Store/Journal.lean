import DaemonNode.Store.Turns

/-!
# The verifiable journal

Beside the sessions the store keeps journals: for each stream entries gathered in
segments, and for a sealed segment the signed root over its entries. A session's
journal is the stream of its name; a turn writes the segment of its number and
`commitTurn` seals it with the turn. Other streams are written and sealed without
a fence.

A root speaks for the entries it was computed from, so a sealed segment must not
change. No operation looks for a root before it writes. What protects a
session's journal is the way activations use it: an activation writes into the
turn it has loaded and stops at its commit, a stale one is refused by its fence,
and a turn that is sealed is over. A stream that is opened again at a segment
already sealed has no such protection.
-/

namespace DaemonNode.SessionStore

open Machine
open Function (update update_of_ne)

/-- One entry of a journal segment. -/
structure TraceEntry where
  seq : Nat
  bytes : Blob
  contentHash : Hash
  deriving DecidableEq

/-- An entry with its place in the stream. -/
structure JournalEntry where
  (cursor segment : Nat)
  entry : TraceEntry

/-- A segment as it is read back. -/
structure TraceSegment where
  stream : JournalStreamId
  segment : Nat
  entries : List TraceEntry
  committed : Option CommittedRoot

/-- The session store with its journals; the roots are kept with the store. -/
structure Journaled where
  store : Store
  entries : JournalStreamId → List JournalEntry
  cursor : Nat

namespace Journaled

def empty : Journaled := ⟨Store.empty, fun _ => [], 0⟩

variable (stream : JournalStreamId) (segment : Nat)

/-- Why a write under a fence is refused; a write without one is not. -/
def refusal (fence : Option Nat) (state : Journaled) : Option StoreError :=
  match fence with
  | none => none
  | some fence =>
    match (state.store.cell stream).record with
    | none => some (.notFound stream)
    | some record =>
      if fence < record.fence then some (.fenced fence record.fence) else none

/-- Whether an entry with this number is there. -/
def holds (segment seq : Nat) (state : Journaled) : Bool :=
  (state.entries stream).any fun row => row.segment = segment && row.entry.seq = seq

/-- Append an entry to a segment, once. -/
def appendTrace (entry : TraceEntry) (fence : Option Nat) (state : Journaled) :
    Except StoreError Unit × Journaled :=
  match state.refusal stream fence with
  | some error => (.error error, state)
  | none =>
    if state.holds stream segment entry.seq then (.ok (), state)
    else
      (.ok (),
        { state with
          entries := update state.entries stream
            (state.entries stream ++ [⟨state.cursor + 1, segment, entry⟩])
          cursor := state.cursor + 1 })

/-- Store the root of a segment, in place of any older one. -/
def commitTraceSegment (root : Root) (signature : Blob) (fence : Option Nat) (state : Journaled) :
    Except StoreError Unit × Journaled :=
  match state.refusal stream fence with
  | some error => (.error error, state)
  | none =>
    (.ok (),
      { state with
        store :=
          { state.store with
            journalRoots := update state.store.journalRoots (stream, segment)
              (some ⟨root, signature⟩) } })

/-- The entries of a segment in the order of their arrival. -/
def entriesOf (state : Journaled) : List TraceEntry :=
  ((state.entries stream).filter fun row => row.segment = segment).map JournalEntry.entry

/-- Read a segment back, in the order of the sequence numbers. -/
def loadTraceSegment (state : Journaled) : Option TraceSegment :=
  let entries := (state.entriesOf stream segment).mergeSort fun first second =>
    first.seq ≤ second.seq
  let committed := state.store.journalRoots (stream, segment)
  if entries.isEmpty && committed.isNone then none
  else some ⟨stream, segment, entries, committed⟩

end Journaled

/-- The operations of the store with its journals. -/
inductive JournalOp
  | session (op : Op)
  | appendTrace (stream : JournalStreamId) (segment : Nat) (entry : TraceEntry) (fence : Option Nat)
  | commitTraceSegment (stream : JournalStreamId) (segment : Nat) (root : Root)
      (signature : Blob) (fence : Option Nat)

/-- Run an operation. -/
def serveJournal (backend : Backend) (state : Journaled) : JournalOp → Reply × Journaled
  | .session op =>
    let (reply, store) := serve backend state.store op
    (reply, { state with store := store })
  | .appendTrace stream segment entry fence =>
    let (answer, after) := state.appendTrace stream segment entry fence
    (answer.map fun _ => .done, after)
  | .commitTraceSegment stream segment root signature fence =>
    let (answer, after) := state.commitTraceSegment stream segment root signature fence
    (answer.map fun _ => .done, after)

/-- The journaled store as a machine that answers every operation. -/
def journalMachine (backend : Backend) : StepFunction Journaled JournalOp Reply :=
  fun state op =>
    let (reply, after) := serveJournal backend state op
    some (after, [reply])

/-- The record of one operation on the journaled store. -/
abbrev Journalled := Step Journaled JournalOp Reply

/-- The session operations of a run. -/
def sessionStep (recorded : Journalled) : Option Recorded :=
  match recorded.input with
  | .session op => some ⟨recorded.before.store, op, recorded.after.store, recorded.output⟩
  | .appendTrace _ _ _ _ => none
  | .commitTraceSegment _ _ _ _ _ => none

def sessionTrace (trace : List Journalled) : List Recorded := trace.filterMap sessionStep

@[simp] theorem sessionTrace_append (earlier later : List Journalled) :
    sessionTrace (earlier ++ later) = sessionTrace earlier ++ sessionTrace later :=
  List.filterMap_append

/-- A step of the machine serves its operation. -/
theorem serveJournal_of_step (stepped : graph (journalMachine backend) state op output after) :
    ∃ reply, output = [reply] ∧ serveJournal backend state op = (reply, after) := by
  obtain ⟨same, answered⟩ := Prod.mk.inj (Option.some.inj stepped)
  exact ⟨_, answered.symm, Prod.ext rfl same⟩

theorem same_appendTrace (stream : JournalStreamId) (segment : Nat) (entry : TraceEntry)
    (fence : Option Nat) (state : Journaled) :
    (state.appendTrace stream segment entry fence).2.store = state.store := by
  unfold Journaled.appendTrace
  split
  · rfl
  · split
    · rfl
    · rfl

theorem same_commitTraceSegment (stream : JournalStreamId) (segment : Nat) (root : Root)
    (signature : Blob) (fence : Option Nat) (state : Journaled) :
    Store.Same (state.commitTraceSegment stream segment root signature fence).2.store
      state.store := by
  unfold Journaled.commitTraceSegment
  split
  · exact ⟨rfl, rfl⟩
  · exact ⟨rfl, rfl⟩

variable {trace : List Journalled} {op : Op} {entry : TraceEntry}

theorem served_of_journal_run
    (run : Run (graph (journalMachine backend)) Journaled.empty trace state) :
    Served backend (sessionTrace trace) state.store := by
  induction run with
  | nil => exact .nil
  | @snoc trace state op after output _ stepped served =>
    obtain ⟨reply, rfl, step⟩ := serveJournal_of_step stepped
    rw [sessionTrace_append]
    cases op with
    | session op =>
      cases step
      exact .serve served rfl
    | appendTrace stream segment entry fence =>
      obtain rfl : (state.appendTrace stream segment entry fence).2 = after :=
        congrArg Prod.snd step
      rw [show sessionTrace [_] = [] from rfl, List.append_nil, same_appendTrace]
      exact served
    | commitTraceSegment stream segment root signature fence =>
      obtain rfl : (state.commitTraceSegment stream segment root signature fence).2 = after :=
        congrArg Prod.snd step
      rw [show sessionTrace [_] = [] from rfl, List.append_nil]
      exact served.touch (same_commitTraceSegment stream segment root signature fence state)

theorem Store.wakeIfReady_roots (id : SessionId) (status : SessionStatus) (store : Store) :
    (store.wakeIfReady id status).journalRoots = store.journalRoots := by
  unfold wakeIfReady
  split <;> rfl

/-- A turn is sealed as the turn in flight, and its root is stored with it. -/
theorem Store.commitTurn_roots {store after : Store}
    (served : store.commitTurn checkpoint turnSeal fence = (answer, after)) :
    (after.journalRoots = store.journalRoots ∧ ∀ commit, answer = .ok commit → turnSeal = none) ∨
      ∃ sealed commit, turnSeal = some sealed ∧ answer = .ok commit ∧
        sealed.segment = (store.cell checkpoint.sessionId).turn ∧
        after.journalRoots = update store.journalRoots
          (checkpoint.sessionId, sealed.segment) (some ⟨sealed.root, sealed.signature⟩) := by
  have refused (error : StoreError) (commit : TurnCommit) :
      Except.error error = .ok commit → turnSeal = none := nofun
  simp only [commitTurn, checkFence, withRecord, takeFault] at served
  split at served
  · cases served
    exact .inl ⟨rfl, refused _⟩
  rename_i record present
  split at served
  · cases served
    exact .inl ⟨rfl, refused _⟩
  split at served
  · cases served
    exact .inl ⟨rfl, refused _⟩
  rename_i matching
  split at served
  · cases served
    exact .inl ⟨rfl, refused _⟩
  cases served
  cases turnSeal with
  | none => exact .inl ⟨wakeIfReady_roots _ _ _, fun _ _ => rfl⟩
  | some sealed =>
    refine .inr ⟨sealed, _, rfl, rfl, ?_, wakeIfReady_roots _ _ _⟩
    rw [Cell.turn_of_present present]
    by_contra other
    simp [sealsOther, other] at matching

/-- The operation that stores a root is a turn that is sealed. -/
def sealsTurn : Op → Option (SessionId × TurnSeal)
  | .commitTurn checkpoint (some sealed) _ => some (checkpoint.sessionId, sealed)
  | _ => none

/-- Only a turn that is sealed stores a root, that of the turn in flight. -/
theorem serve_roots {backend : Backend} (served : serve backend store op = (reply, after)) :
    (after.journalRoots = store.journalRoots ∧
        ∀ target ∈ sealsTurn op, ∀ answer, reply ≠ .ok answer) ∨
      ∃ checkpoint sealed fence commit, op = .commitTurn checkpoint (some sealed) fence ∧
        reply = .ok (.turn commit) ∧
        sealed.segment = (store.cell checkpoint.sessionId).turn ∧
        after.journalRoots = update store.journalRoots
          (checkpoint.sessionId, sealed.segment) (some ⟨sealed.root, sealed.signature⟩) := by
  by_cases turn : ∃ checkpoint turnSeal fence, op = .commitTurn checkpoint turnSeal fence
  · obtain ⟨checkpoint, turnSeal, fence, rfl⟩ := turn
    cases outcome : store.commitTurn checkpoint turnSeal fence with
    | mk answer final =>
      rw [serve, outcome] at served
      cases served
      rcases Store.commitTurn_roots outcome with
        ⟨kept, unsealed⟩ | ⟨sealed, commit, rfl, rfl, segment, stored⟩
      · refine .inl ⟨kept, fun target seals given success => ?_⟩
        cases answer with
        | error refused => cases success
        | ok commit =>
          rw [unsealed commit rfl] at seals
          cases seals
      · exact .inr ⟨checkpoint, sealed, fence, commit, rfl, rfl, segment, stored⟩
  · obtain rfl : (serve backend store op).2 = after := congrArg Prod.snd served
    simp only [not_exists] at turn
    refine .inl ⟨(serve_done rfl).roots turn, fun target seals => ?_⟩
    unfold sealsTurn at seals
    split at seals
    · exact absurd rfl (turn _ _ _)
    · cases seals

/-- The segment that an operation writes to if it succeeds; an entry that is there
already is not written again. -/
def Journaled.writes (state : Journaled) : JournalOp → Option (JournalStreamId × Nat)
  | .appendTrace stream segment entry _ =>
    if state.holds stream segment entry.seq then none else some (stream, segment)
  | .commitTraceSegment stream segment _ _ _ => some (stream, segment)
  | .session op => (sealsTurn op).map fun turn => (turn.1, turn.2.segment)

/-- Whether an operation has succeeded. -/
def succeeded : Reply → Bool
  | .ok _ => true
  | .error _ => false

/-- Whether a recorded operation has written to a segment. -/
def Wrote (stream : JournalStreamId) (segment : Nat) (recorded : Journalled) : Prop :=
  recorded.before.writes recorded.input = some (stream, segment) ∧
    recorded.output.all succeeded = true

namespace Journaled

variable {state after : Journaled} {stream : JournalStreamId} {segment : Nat}

/-- The entries of a segment and its root are unchanged. -/
structure Keeps (stream : JournalStreamId) (segment : Nat) (state after : Journaled) : Prop where
  entries : after.entriesOf stream segment = state.entriesOf stream segment
  root : after.store.journalRoots (stream, segment) = state.store.journalRoots (stream, segment)

theorem Keeps.refl (state : Journaled) : Keeps stream segment state state := ⟨rfl, rfl⟩

theorem Keeps.trans (first : Keeps stream segment state after)
    (second : Keeps stream segment after last) :
    Keeps stream segment state last :=
  ⟨second.entries.trans first.entries, second.root.trans first.root⟩

/-- Such a segment is read back unchanged. -/
theorem Keeps.loadTraceSegment (keeps : Keeps stream segment state after) :
    after.loadTraceSegment stream segment = state.loadTraceSegment stream segment := by
  rw [Journaled.loadTraceSegment, Journaled.loadTraceSegment, keeps.entries, keeps.root]

theorem appendTrace_keeps
    (unwritten : ¬(state.writes (.appendTrace target number entry fence) =
      some (stream, segment) ∧ state.refusal target fence = none)) :
    Keeps stream segment state (state.appendTrace target number entry fence).2 := by
  unfold appendTrace
  split
  · exact .refl state
  · rename_i admitted
    split
    · exact .refl state
    · rename_i absent
      have other : (target, number) ≠ (stream, segment) := fun same =>
        unwritten ⟨by rw [writes, if_neg absent, same], admitted⟩
      refine ⟨?_, rfl⟩
      unfold entriesOf
      by_cases same : stream = target
      · subst same
        have elsewhere : number ≠ segment := fun equal => other (by rw [equal])
        simp [elsewhere]
      · simp only
        rw [update_of_ne same]

theorem commitTraceSegment_roots
    (unwritten : ¬((target, number) = (stream, segment) ∧ state.refusal target fence = none)) :
    (state.commitTraceSegment target number root signature fence).2.store.journalRoots
      (stream, segment) = state.store.journalRoots (stream, segment) := by
  unfold commitTraceSegment
  split
  · rfl
  · rename_i admitted
    exact update_of_ne (fun same => unwritten ⟨same.symm, admitted⟩) _ _

theorem succeeded_commitTraceSegment (admitted : state.refusal target fence = none) :
    succeeded ((state.commitTraceSegment target number root signature fence).1.map
      fun _ => .done) = true := by
  simp only [commitTraceSegment, admitted]
  rfl

end Journaled

/-- A session operation is served by the store and leaves the entries alone. -/
theorem serve_of_serveJournal (served : serveJournal backend state (.session op) = (reply, after)) :
    serve backend state.store op = (reply, after.store) ∧ after.entries = state.entries := by
  cases served
  exact ⟨rfl, rfl⟩

/-- A segment that an operation does not write to is unchanged. -/
theorem keeps_of_not_wrote {op : JournalOp}
    (served : serveJournal backend state op = (reply, after)) {segment : Nat}
    (unwritten : ¬Wrote stream segment ⟨state, op, after, [reply]⟩) :
    Journaled.Keeps stream segment state after := by
  cases op with
  | session op =>
    obtain ⟨step, logs⟩ := serve_of_serveJournal served
    have entries : after.entriesOf stream segment = state.entriesOf stream segment := by
      rw [Journaled.entriesOf, logs]
      rfl
    rcases serve_roots step with
      ⟨kept, _⟩ | ⟨checkpoint, sealed, fence, commit, rfl, rfl, _, stored⟩
    · exact ⟨entries, congrFun kept _⟩
    · refine ⟨entries, ?_⟩
      rw [stored]
      exact update_of_ne (fun same => unwritten ⟨congrArg some same.symm, rfl⟩) _ _
  | appendTrace target number entry fence =>
    obtain rfl : (state.appendTrace target number entry fence).2 = after := congrArg Prod.snd served
    apply Journaled.appendTrace_keeps
    rintro ⟨wrote, admitted⟩
    obtain rfl : (state.appendTrace target number entry fence).1.map (fun _ => .done) = reply :=
      congrArg Prod.fst served
    refine unwritten ⟨wrote, ?_⟩
    simp only [Journaled.appendTrace, admitted]
    split <;> rfl
  | commitTraceSegment target number root signature fence =>
    obtain rfl : (state.commitTraceSegment target number root signature fence).2 = after :=
      congrArg Prod.snd served
    refine ⟨?_, Journaled.commitTraceSegment_roots ?_⟩
    · rw [Journaled.entriesOf, Journaled.commitTraceSegment]
      split <;> rfl
    rintro ⟨wrote, admitted⟩
    obtain rfl : (state.commitTraceSegment target number root signature fence).1.map
      (fun _ => .done) = reply := congrArg Prod.fst served
    refine unwritten ⟨congrArg some wrote, ?_⟩
    rw [List.all_cons, Journaled.succeeded_commitTraceSegment admitted]
    rfl

/-- An operation that writes to a stream writes to a segment without a root. -/
def WritesOpen (stream : JournalStreamId) (recorded : Journalled) : Prop :=
  ∀ target ∈ recorded.before.writes recorded.input, target.1 = stream →
    recorded.output.all succeeded = true → (recorded.before.store.journalRoots target).isNone = true

def Deed.turnLoaded (fence : Nat) : Deed → Option Nat
  | .loaded activation => if activation.fence = fence then some activation.turnSeq else none
  | .opened => none
  | .granted _ => none
  | .claimed _ _ => none
  | .committed _ _ _ => none

def turnsLoaded (fence : Nat) (done : List Deed) : List Nat :=
  done.filterMap (Deed.turnLoaded fence)

/-- An operation on a session's journal that an activation may make: it appends,
under its fence and before its commit, to the turn it has loaded, and leaves the
root to the commit. -/
def WritesDurable (backend : Backend) (stream : JournalStreamId) (earlier : List Journalled) :
    Journalled → Prop
  | ⟨_, .session _, _, _⟩ => True
  | ⟨_, .appendTrace target _ _ none, _, output⟩ => target = stream → output.all succeeded = false
  | ⟨_, .appendTrace target segment _ (some fence), _, output⟩ =>
    target = stream → output.all succeeded = true →
      fence ∉ Register.commits (registerEvents backend stream (sessionTrace earlier)) ∧
        segment ∈ turnsLoaded fence (deeds stream (sessionTrace earlier))
  | ⟨_, .commitTraceSegment target _ _ _ _, _, output⟩ =>
    target = stream → output.all succeeded = false

instance (backend : Backend) (stream : JournalStreamId) (earlier : List Journalled) :
    (recorded : Journalled) → Decidable (WritesDurable backend stream earlier recorded)
  | ⟨_, .session _, _, _⟩ => isTrue trivial
  | ⟨_, .appendTrace target _ _ none, _, output⟩ =>
    inferInstanceAs (Decidable (target = stream → output.all succeeded = false))
  | ⟨_, .appendTrace target segment _ (some fence), _, output⟩ =>
    inferInstanceAs (Decidable (target = stream → output.all succeeded = true →
      fence ∉ Register.commits (registerEvents backend stream (sessionTrace earlier)) ∧
        segment ∈ turnsLoaded fence (deeds stream (sessionTrace earlier))))
  | ⟨_, .commitTraceSegment target _ _ _ _, _, output⟩ =>
    inferInstanceAs (Decidable (target = stream → output.all succeeded = false))

/-- A journal that is written by the activations of its session only. -/
structure Durable (backend : Backend) (stream : JournalStreamId) (trace : List Journalled) :
    Prop where
  fenced : Fenced backend stream (sessionTrace trace)
  writes : ∀ earlier recorded later, trace = earlier ++ recorded :: later →
    WritesDurable backend stream earlier recorded

instance (backend : Backend) (stream : JournalStreamId) (trace : List Journalled) :
    Decidable (Durable backend stream trace) :=
  decidable_of_iff (Fenced backend stream (sessionTrace trace) ∧
      ∀ position : Fin trace.length,
        WritesDurable backend stream (trace.take position) (trace.get position))
    ⟨fun holds => ⟨holds.1, (Lists.forall_split_iff _).mpr holds.2⟩,
      fun durable => ⟨durable.fenced, (Lists.forall_split_iff _).mp durable.writes⟩⟩

theorem Durable.of_append (durable : Durable backend stream (trace ++ rest)) :
    Durable backend stream trace where
  fenced := by
    have fenced := durable.fenced
    rw [sessionTrace_append] at fenced
    exact fenced.of_append
  writes := by
    intro earlier recorded later parted
    exact durable.writes earlier recorded (later ++ rest)
      (by rw [parted, List.append_assoc, List.cons_append])

theorem mem_turnsLoaded :
    turn ∈ turnsLoaded fence done ↔ ∃ activation, .loaded activation ∈ done ∧
      activation.fence = fence ∧ activation.turnSeq = turn := by
  unfold turnsLoaded
  rw [List.mem_filterMap]
  constructor
  · rintro ⟨deed, member, shown⟩
    cases deed with
    | loaded activation =>
      obtain ⟨same, shown⟩ := Option.ite_none_right_eq_some.mp shown
      exact ⟨activation, member, same, Option.some.inj shown⟩
    | opened | granted | claimed | committed => cases shown
  · rintro ⟨activation, member, same, rfl⟩
    exact ⟨_, member, if_pos same⟩

section

variable (run : Run (graph (journalMachine backend)) Journaled.empty trace state)

include run

section

variable (durable : Durable backend stream trace)

include durable

/-- The roots of a session's journal are of turns that are over. -/
theorem Durable.root_lt_turn {segment : Nat} {root : CommittedRoot}
    (stored : state.store.journalRoots (stream, segment) = some root) :
    segment < (state.store.cell stream).turn := by
  induction run generalizing root with
  | nil => cases stored
  | @snoc trace state op after output _ stepped ih =>
    obtain ⟨reply, rfl, served⟩ := serveJournal_of_step stepped
    have before {root : CommittedRoot} := @ih durable.of_append root
    have write := durable.writes trace _ [] rfl
    cases op with
    | session op =>
      obtain ⟨step, _⟩ := serve_of_serveJournal served
      have turned := serve_turn step stream
      rcases serve_roots step with
        ⟨kept, _⟩ | ⟨checkpoint, sealed, fence, commit, rfl, rfl, turn, written⟩
      · rw [kept] at stored
        have bound := before stored
        omega
      · rw [written] at stored
        by_cases same : (stream, segment) = (checkpoint.sessionId, sealed.segment)
        · cases same
          have shown : deedOf checkpoint.sessionId
              (.commitTurn checkpoint (some sealed) fence) (.ok (.turn commit)) =
            some (.committed .turn checkpoint fence) := concerning_self _ _
          rw [shown, show turns (Option.toList (some _)) = 1 from rfl] at turned
          omega
        · rw [update_of_ne same] at stored
          have bound := before stored
          omega
    | appendTrace target number entry fence =>
      obtain rfl : (state.appendTrace target number entry fence).2 = after :=
        congrArg Prod.snd served
      rw [same_appendTrace] at stored ⊢
      exact before stored
    | commitTraceSegment target number root signature fence =>
      obtain rfl : (state.commitTraceSegment target number root signature fence).2 = after :=
        congrArg Prod.snd served
      obtain rfl : (state.commitTraceSegment target number root signature fence).1.map
        (fun _ => .done) = reply := congrArg Prod.fst served
      rw [Journaled.commitTraceSegment_roots] at stored
      · rw [(same_commitTraceSegment target number root signature fence state).cell]
        exact before stored
      · rintro ⟨same, admitted⟩
        have failed := write (Prod.mk.inj same).1
        rw [List.all_cons, Journaled.succeeded_commitTraceSegment admitted] at failed
        cases failed

/-- An append under a fence that is let through and has loaded its turn goes into
the turn in flight. -/
theorem Durable.segment_eq_turn {fence segment : Nat}
    (admitted : state.refusal stream (some fence) = none)
    (running : fence ∉ Register.commits (registerEvents backend stream (sessionTrace trace)))
    (loaded : segment ∈ turnsLoaded fence (deeds stream (sessionTrace trace))) :
    segment = (state.store.cell stream).turn := by
  have served := served_of_journal_run run
  have law := served.law durable.fenced
  obtain ⟨activation, delivered, rfl, rfl⟩ := mem_turnsLoaded.mp loaded
  have current : (state.store.cell stream).register.fence ≤ activation.fence := by
    unfold Journaled.refusal at admitted
    simp only at admitted
    split at admitted
    · cases admitted
    rename_i record present
    split at admitted
    · cases admitted
    · rename_i newer
      rw [Cell.register_of_present present]
      exact Nat.le_of_not_lt newer
  have event : .loaded activation.fence activation.snapshot ∈
      registerEvents backend stream (sessionTrace trace) :=
    loaded_mem_registerEvents_iff.mpr ⟨activation, delivered, rfl, rfl⟩
  have newest := law.orderly.fence_eq (law.orderly.loaded_granted _ _ event) current
  exact served.turn_in_flight durable.fenced delivered newest running

/-- An activation writes to segments without a root. -/
theorem Durable.writesOpen (member : recorded ∈ trace) : WritesOpen stream recorded := by
  obtain ⟨earlier, later, parted⟩ := List.append_of_mem member
  obtain ⟨before, stepped⟩ := run.split parted
  obtain ⟨reply, answered, served⟩ := serveJournal_of_step stepped
  have write := durable.writes earlier recorded later parted
  rw [parted] at durable
  have past := durable.of_append
  rintro ⟨target, segment⟩ wrote rfl success
  rw [Option.isNone_iff_eq_none, ← Option.not_isSome_iff_eq_none]
  intro sealed
  obtain ⟨root, stored⟩ := Option.isSome_iff_exists.mp sealed
  have passed := past.root_lt_turn before stored
  obtain ⟨state, op, after, output⟩ := recorded
  subst answered
  cases op with
  | session op =>
    obtain ⟨step, _⟩ := serve_of_serveJournal served
    obtain ⟨⟨session, sealed⟩, seals, same⟩ := Option.map_eq_some_iff.mp wrote
    rcases serve_roots step with
      ⟨_, refused⟩ | ⟨checkpoint, written, fence, commit, rfl, rfl, turn, _⟩
    · cases reply with
      | ok answer => exact refused _ seals answer rfl
      | error error => cases success
    · cases same
      cases seals
      exact absurd turn (Nat.ne_of_lt passed)
  | appendTrace stream number entry fence =>
    have wrote : (if state.holds stream number entry.seq then none else some (stream, number)) =
      some (target, segment) := wrote
    split at wrote
    · cases wrote
    obtain ⟨rfl, rfl⟩ := Prod.mk.inj (Option.some.inj wrote)
    obtain rfl : (state.appendTrace stream number entry fence).1.map (fun _ => .done) =
      reply := congrArg Prod.fst served
    cases fence with
    | none =>
      rw [write rfl] at success
      cases success
    | some fence =>
      obtain ⟨running, loaded⟩ := write rfl success
      have admitted : state.refusal stream (some fence) = none := by
        by_contra refused
        obtain ⟨error, refusal⟩ := Option.ne_none_iff_exists'.mp refused
        simp [Journaled.appendTrace, refusal, succeeded, Except.map] at success
      exact absurd (past.segment_eq_turn before admitted running loaded) (Nat.ne_of_lt passed)
  | commitTraceSegment stream number root signature fence =>
    cases wrote
    have failed : [reply].all succeeded = false := write rfl
    rw [failed] at success
    cases success

end

/-- Nothing changes a segment with a root when all writes go to open segments. -/
theorem keeps_of_writesOpen (writes : ∀ recorded ∈ trace, WritesOpen stream recorded)
    (parted : trace = earlier ++ recorded :: later) {segment : Nat}
    (sealed : recorded.before.store.journalRoots (stream, segment) = some root) :
    Journaled.Keeps stream segment recorded.before state := by
  induction run generalizing later with
  | nil => simp at parted
  | @snoc trace state op after output _ stepped ih =>
    obtain ⟨reply, rfl, served⟩ := serveJournal_of_step stepped
    obtain ⟨earlierWrites, last⟩ := Lists.forall_mem_concat.mp writes
    have before : Journaled.Keeps stream segment recorded.before state := by
      rcases Lists.concat_eq_append_cons_iff.mp parted with
        ⟨_, rfl, _⟩ | ⟨shorter, sooner, _⟩
      · exact .refl state
      · exact ih earlierWrites sooner
    refine before.trans (keeps_of_not_wrote served fun wrote => ?_)
    have opened := last (stream, segment) wrote.1 rfl wrote.2
    rw [before.root, sealed] at opened
    cases opened

end

/-- A segment with a root never changes, on a stream that is written by the activations
of its session. -/
theorem sealed_segment_frozen
    {backend : Backend}
    {trace earlier later : List Journalled}
    {state : Journaled}
    {recorded : Journalled}
    {stream : JournalStreamId}
    {segment : Nat}
    {root : CommittedRoot}
    (run : Run (graph (journalMachine backend)) Journaled.empty trace state)
    (durable : Durable backend stream trace)
    (parted : trace = earlier ++ recorded :: later)
    (sealed : recorded.before.store.journalRoots (stream, segment) = some root) :
    state.store.journalRoots (stream, segment) = some root ∧
      state.entriesOf stream segment = recorded.before.entriesOf stream segment ∧
      state.loadTraceSegment stream segment = recorded.before.loadTraceSegment stream segment := by
  have keeps := keeps_of_writesOpen run (fun _ => durable.writesOpen run) parted sealed
  exact ⟨keeps.root.trans sealed, keeps.entries, keeps.loadTraceSegment⟩

def sampleEntry (seq : Nat) : TraceEntry := ⟨seq, [], .fill 32 0⟩

/-- Two turns of a session; when the second is running, the activation of the
first tries to append to its own turn. -/
def twoTurns : List JournalOp :=
  [.session (.createSession "s" 0 []), .session (.acquireActivationLease "s"),
    .session (.loadForActivation "s" 1), .appendTrace "s" 0 (sampleEntry 0) (some 1),
    .session (.commitTurn ⟨"s", 0, [], none, none, []⟩ (some ⟨0, .fill 32 7, []⟩) 1),
    .session (.acquireActivationLease "s"), .session (.loadForActivation "s" 2),
    .appendTrace "s" 1 (sampleEntry 0) (some 2), .appendTrace "s" 0 (sampleEntry 1) (some 1)]

theorem twoTurns_frozen :
    ∃ trace state,
      Run (graph (journalMachine .memory)) Journaled.empty trace state ∧
      Durable .memory "s" trace ∧ trace.map Step.input = twoTurns ∧
      state.entriesOf "s" 0 = [sampleEntry 0] := by
  obtain ⟨⟨trace, state⟩, executed, durable, recorded, found, root, stored, entries⟩ :=
    show ∃ result ∈ exec (journalMachine .memory) Journaled.empty twoTurns,
      Durable .memory "s" result.1 ∧ ∃ recorded ∈ result.1[5]?,
        ∃ root ∈ recorded.before.store.journalRoots ("s", 0),
          recorded.before.entriesOf "s" 0 = [sampleEntry 0] by decide +kernel
  have run := Run.of_exec executed
  have parted := Lists.split_of_getElem? found
  have frozen := sealed_segment_frozen run durable parted stored
  exact ⟨trace, state, run, durable, exec_inputs executed, frozen.2.1.trans entries⟩

/-- A stream without a session is sealed and then opened again at the same
segment. -/
def reopenedStream : List JournalOp :=
  [.appendTrace "audit" 0 (sampleEntry 0) none,
    .commitTraceSegment "audit" 0 (.fill 32 7) [] none,
    .appendTrace "audit" 0 (sampleEntry 1) none,
    .commitTraceSegment "audit" 0 (.fill 32 8) [] none]

open CommittedRoot (root)

/-- Every operation succeeds, and the sealed segment gets an entry and another
root. -/
theorem reopenedStream_changes_sealed_segment :
    ∃ trace state,
      Run (graph (journalMachine .memory)) Journaled.empty trace state ∧
      (∀ recorded ∈ trace, recorded.output.all succeeded = true) ∧
      ∃ earlier recorded later, trace = earlier ++ recorded :: later ∧
        (recorded.before.store.journalRoots ("audit", 0)).map root = some (.fill 32 7) ∧
        recorded.before.entriesOf "audit" 0 = [sampleEntry 0] ∧
        (recorded.after.store.journalRoots ("audit", 0)).map root = some (.fill 32 7) ∧
        recorded.after.entriesOf "audit" 0 = [sampleEntry 0, sampleEntry 1] ∧
        (state.store.journalRoots ("audit", 0)).map root = some (.fill 32 8) := by
  obtain ⟨trace, state, run, success, recorded, found, changes⟩ := Run.of_checked_exec
    (journalMachine .memory) Journaled.empty reopenedStream (fun steps state =>
      (∀ recorded ∈ steps, recorded.output.all succeeded = true) ∧ ∃ recorded ∈ steps[2]?,
        (recorded.before.store.journalRoots ("audit", 0)).map root = some (.fill 32 7) ∧
        recorded.before.entriesOf "audit" 0 = [sampleEntry 0] ∧
        (recorded.after.store.journalRoots ("audit", 0)).map root = some (.fill 32 7) ∧
        recorded.after.entriesOf "audit" 0 = [sampleEntry 0, sampleEntry 1] ∧
        (state.store.journalRoots ("audit", 0)).map root = some (.fill 32 8)) (by decide +kernel)
  exact ⟨trace, state, run, success, _, recorded, _, Lists.split_of_getElem? found, changes⟩

end DaemonNode.SessionStore
