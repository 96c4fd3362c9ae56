import DaemonNode.Lib.Lists

/-!
# A fenced inbox with a consumption cursor

Entries are numbered as they arrive. A consumer is granted a fence, a number
above all fences before it; it loads the entries that are not consumed, which
claims them for its fence, works on them, and commits with a cursor: every entry
up to the cursor is consumed. A commit under a fence that is no longer the
current one is refused, but loads are not, and a consumer may die at any point.

Consumption is by prefix while claims are by entry, so it has to be shown that
no entry below a cursor was missing from the load. When each consumer commits
with the largest number it loaded, the numbers consumed over the whole history
are `1, 2, …` in this order: each once, in sequence, none skipped.
-/

namespace Inbox

open List (range' append_nil mem_map mem_filter)

universe u

/-- Who has an entry. -/
inductive Claim
  | pending
  | claimed (fence : Nat)
  | consumed (stamp : Nat)
  deriving DecidableEq, Repr

/-- Whether an entry is done with. -/
def Claim.isConsumed : Claim → Bool
  | pending => false
  | claimed _ => false
  | consumed _ => true

/-- A numbered entry. -/
structure Entry (Body : Type u) where
  seq : Nat
  body : Body
  claim : Claim
  deriving DecidableEq, Repr

variable {Body : Type u}

/-- Claim an entry for a fence, unless it is consumed or a newer fence has it. -/
def Entry.take (fence : Nat) (entry : Entry Body) : Entry Body :=
  match entry.claim with
  | .pending => { entry with claim := .claimed fence }
  | .claimed old => if old < fence then { entry with claim := .claimed fence } else entry
  | .consumed _ => entry

def Entry.consume (cursor stamp : Nat) (entry : Entry Body) : Entry Body :=
  if entry.seq ≤ cursor ∧ entry.claim.isConsumed = false then
    { entry with claim := .consumed stamp }
  else entry

/-- The entries that are not consumed. -/
def waiting (entries : List (Entry Body)) : List (Entry Body) :=
  entries.filter fun entry => !entry.claim.isConsumed

def held (fence : Nat) (entries : List (Entry Body)) : List (Entry Body) :=
  entries.filter fun entry => entry.claim = .claimed fence

def consumeUpTo (cursor : Option Nat) (stamp : Nat) (entries : List (Entry Body)) :
    List (Entry Body) :=
  match cursor with
  | none => entries
  | some cursor => entries.map (Entry.consume cursor stamp)

/-- Up to `done` everything is consumed; what waits is everything after it. -/
structure Standing (entries : List (Entry Body)) (minted done : Nat) : Prop where
  done_le : done ≤ minted
  waits : (waiting entries).map Entry.seq = range' (done + 1) (minted - done)
  settled : ∀ entry ∈ entries, entry.claim.isConsumed = true → entry.seq ≤ done

@[simp] theorem take_seq (fence : Nat) (entry : Entry Body) :
    (entry.take fence).seq = entry.seq := by
  unfold Entry.take
  split
  · rfl
  · split
    · rfl
    · rfl
  · rfl

@[simp] theorem take_isConsumed (fence : Nat) (entry : Entry Body) :
    (entry.take fence).claim.isConsumed = entry.claim.isConsumed := by
  unfold Entry.take
  split
  · rename_i pending
    rw [pending]
    rfl
  · rename_i old claimed
    split
    · rw [claimed]
      rfl
    · rfl
  · rfl

@[simp] theorem consume_seq (cursor stamp : Nat) (entry : Entry Body) :
    (entry.consume cursor stamp).seq = entry.seq := by
  unfold Entry.consume
  split
  · rfl
  · rfl

theorem consume_isConsumed (cursor stamp : Nat) (entry : Entry Body) :
    (entry.consume cursor stamp).claim.isConsumed =
      (entry.claim.isConsumed || decide (entry.seq ≤ cursor)) := by
  unfold Entry.consume
  split
  · rename_i consumes
    rw [consumes.2, decide_eq_true consumes.1]
    rfl
  · rename_i keeps
    cases consumed : entry.claim.isConsumed with
    | true => rfl
    | false =>
      rw [Bool.false_or, eq_comm, decide_eq_false_iff_not]
      intro below
      exact keeps ⟨below, consumed⟩

variable {fence holder : Nat} {entry : Entry Body} {cursor : Nat} {keep : Entry Body → Bool}
variable {seq : Nat}

theorem claim_take (claimed : (entry.take fence).claim = .claimed holder) :
    holder = fence ∨ entry.claim = .claimed holder := by
  unfold Entry.take at claimed
  split at claimed
  · exact .inl (Claim.claimed.inj claimed).symm
  · split at claimed
    · exact .inl (Claim.claimed.inj claimed).symm
    · exact .inr claimed
  · exact .inr claimed

theorem waiting_map_take (fence : Nat) (entries : List (Entry Body)) :
    (waiting (entries.map (Entry.take fence))).map Entry.seq = (waiting entries).map Entry.seq := by
  unfold waiting
  rw [List.filter_map, List.map_map]
  congr 1
  · funext entry
    exact take_seq fence entry
  · congr 1
    funext entry
    rw [Function.comp_apply, take_isConsumed]

theorem waiting_map_consume (cursor stamp : Nat) (entries : List (Entry Body)) :
    (waiting (entries.map (Entry.consume cursor stamp))).map Entry.seq =
      ((waiting entries).map Entry.seq).filter (cursor < ·) := by
  unfold waiting
  rw [List.filter_map, List.map_map, List.filter_map, List.filter_filter]
  congr 1
  · funext entry
    exact consume_seq cursor stamp entry
  · congr 1
    funext entry
    rw [Function.comp_apply, Function.comp_apply, consume_isConsumed, Bool.not_or,
      Bool.and_comm, ← decide_not]
    simp only [Nat.not_le]

theorem waiting_filter
    (only : ∀ entry ∈ entries, keep entry = false → entry.claim.isConsumed = true) :
    waiting (entries.filter keep) = waiting entries := by
  unfold waiting
  rw [List.filter_filter]
  apply List.filter_congr
  intro entry member
  cases kept : keep entry with
  | true => rw [Bool.and_true]
  | false =>
    rw [only entry member kept]
    rfl

theorem waiting_eq_nil_iff :
    waiting entries = [] ↔ ∀ entry ∈ entries, entry.claim.isConsumed = true := by
  simp [waiting]

theorem waiting_take_eq_nil (settled : waiting entries = []) (fence : Nat) :
    waiting (entries.map (Entry.take fence)) = [] := by
  have same := waiting_map_take fence entries
  rw [settled] at same
  exact List.map_eq_nil_iff.mp same

theorem waiting_consumeUpTo_eq_nil (settled : waiting entries = []) (cursor : Option Nat)
    (stamp : Nat) :
    waiting (consumeUpTo cursor stamp entries) = [] := by
  cases cursor with
  | none => exact settled
  | some cursor =>
    have fewer := waiting_map_consume cursor stamp entries
    rw [settled] at fewer
    exact List.map_eq_nil_iff.mp fewer

/-- Consecutive numbers that pass a test of bounds are consecutive. -/
theorem filter_range' {test : Nat → Bool} (bounds : ∀ seq,
      (start ≤ seq ∧ seq < start + count) ∧ test seq = true ↔ low ≤ seq ∧ seq < low + kept) :
    (range' start count).filter test = range' low kept := by
  apply ((List.pairwise_lt_range' _).filter test).eq_of_mem_iff (List.pairwise_lt_range' _)
  intro seq
  rw [List.mem_filter, List.mem_range'_1, List.mem_range'_1]
  exact bounds seq

theorem filter_le_range' (below : cursor ≤ minted) :
    (range' (done + 1) (minted - done)).filter (· ≤ cursor) =
      range' (done + 1) (cursor - done) := by
  apply filter_range'
  intro seq
  rw [decide_eq_true_iff]
  omega

namespace Standing

variable {entries : List (Entry Body)} {minted done : Nat}

theorem empty : Standing ([] : List (Entry Body)) 0 0 :=
  ⟨le_rfl, rfl, by simp⟩

section

variable (standing : Standing entries minted done)

include standing

theorem append (body : Body) :
    Standing (entries ++ [⟨minted + 1, body, .pending⟩]) (minted + 1) done := by
  have behind := standing.done_le
  refine ⟨by omega, ?_, ?_⟩
  · have last : waiting [(⟨minted + 1, body, .pending⟩ : Entry Body)] =
        [⟨minted + 1, body, .pending⟩] := rfl
    rw [waiting, List.filter_append, ← waiting, ← waiting, last, List.map_append,
      standing.waits, show minted + 1 - done = (minted - done) + 1 by omega,
      List.range'_1_concat, show done + 1 + (minted - done) = minted + 1 by omega]
    rfl
  · exact Lists.forall_mem_concat.mpr ⟨standing.settled, nofun⟩

theorem take (fence : Nat) : Standing (entries.map (Entry.take fence)) minted done := by
  refine ⟨standing.done_le, ?_, ?_⟩
  · rw [waiting_map_take, standing.waits]
  · intro entry member consumed
    obtain ⟨original, listed, rfl⟩ := mem_map.mp member
    rw [take_isConsumed] at consumed
    rw [take_seq]
    exact standing.settled original listed consumed

/-- A cursor that does not pass the last entry moves the mark up to it. -/
theorem consume (below : cursor ≤ minted) (stamp : Nat) :
    Standing (entries.map (Entry.consume cursor stamp)) minted (max done cursor) := by
  refine ⟨max_le standing.done_le below, ?_, ?_⟩
  · rw [waiting_map_consume, standing.waits]
    apply filter_range'
    intro seq
    rw [decide_eq_true_iff]
    omega
  · intro entry member consumed
    obtain ⟨original, listed, rfl⟩ := mem_map.mp member
    rw [consume_isConsumed, Bool.or_eq_true, decide_eq_true_eq] at consumed
    rw [consume_seq]
    rcases consumed with earlier | now
    · exact (standing.settled original listed earlier).trans (le_max_left _ _)
    · exact now.trans (le_max_right _ _)

/-- Dropping consumed entries leaves the standing. -/
theorem prune (only : ∀ entry ∈ entries, keep entry = false → entry.claim.isConsumed = true) :
    Standing (entries.filter keep) minted done := by
  refine ⟨standing.done_le, ?_, ?_⟩
  · rw [waiting_filter only, standing.waits]
  · intro entry member
    exact standing.settled entry (mem_filter.mp member).1

end

end Standing

/-- An inbox: the newest fence granted, the last number given out, the entries. -/
structure State (Body : Type u) where
  (fence minted : Nat)
  entries : List (Entry Body)

/-- What a consumer is seen to do. -/
inductive Event
  | granted (fence : Nat)
  | loaded (fence : Nat) (seqs : List Nat)
  | committed (fence : Nat) (cursor : Option Nat)
  deriving DecidableEq, Repr

/-- The steps of an inbox, each with the event it shows. -/
inductive Move : State Body → Option Event → State Body → Prop
  | stay (state : State Body) : Move state none state
  | append (state : State Body) (body : Body) :
      Move state none
        { state with
          minted := state.minted + 1
          entries := state.entries ++ [⟨state.minted + 1, body, .pending⟩] }
  | grant (state : State Body) :
      Move state (some (.granted (state.fence + 1))) { state with fence := state.fence + 1 }
  | load (state : State Body) (fence : Nat) :
      Move state
        (some (.loaded fence ((held fence (state.entries.map (Entry.take fence))).map Entry.seq)))
        { state with entries := state.entries.map (Entry.take fence) }
  | commit (state : State Body) (fence : Nat) (cursor : Option Nat) (stamp : Nat)
      (current : state.fence ≤ fence) :
      Move state (some (.committed fence cursor))
        { state with entries := consumeUpTo cursor stamp state.entries }
  | prune (state : State Body) (keep : Entry Body → Bool)
      (only : ∀ entry ∈ state.entries, keep entry = false → entry.claim.isConsumed = true) :
      Move state none { state with entries := state.entries.filter keep }

/-- The numbers that waited before and are consumed after. -/
def turned (before after : List (Entry Body)) : List Nat :=
  ((waiting before).map Entry.seq).filter fun seq =>
    after.any fun entry => entry.seq = seq && entry.claim.isConsumed

namespace Standing

theorem lt_of_waits (standing : Standing entries minted done)
    (waits : seq ∈ (waiting entries).map Entry.seq) :
    done < seq := by
  rw [standing.waits, List.mem_range'_1] at waits
  omega

/-- Nothing turns while the mark stays. -/
theorem turned_eq_nil (standing : Standing entries minted done)
    (standing' : Standing after minted' done) :
    turned entries after = [] := by
  rw [turned, List.filter_eq_nil_iff]
  intro seq waits turns
  obtain ⟨entry, member, consumed⟩ := List.any_eq_true.mp turns
  rw [Bool.and_eq_true, decide_eq_true_eq] at consumed
  have settled := standing'.settled entry member consumed.2
  have above := standing.lt_of_waits waits
  omega

/-- A cursor turns what it passes. -/
theorem turned_consume (standing : Standing entries minted done)
    (below : cursor ≤ minted) (stamp : Nat) :
    turned entries (entries.map (Entry.consume cursor stamp)) =
      range' (done + 1) (cursor - done) := by
  rw [← filter_le_range' below, ← standing.waits, turned]
  apply List.filter_congr
  intro seq waits
  rw [Bool.eq_iff_iff, List.any_eq_true, decide_eq_true_eq]
  constructor
  · rintro ⟨entry, member, consumed⟩
    rw [Bool.and_eq_true, decide_eq_true_eq] at consumed
    have settled := (standing.consume below stamp).settled entry member consumed.2
    have above := standing.lt_of_waits waits
    omega
  · intro passed
    obtain ⟨entry, waiting, rfl⟩ := mem_map.mp waits
    refine ⟨entry.consume cursor stamp, List.mem_map_of_mem (mem_filter.mp waiting).1, ?_⟩
    rw [consume_seq, consume_isConsumed, decide_eq_true passed, Bool.or_true, decide_eq_true rfl]
    rfl

end Standing

/-- An entry that leaves the inbox was consumed. -/
theorem Move.isConsumed_of_gone (moved : Move state event after) (member : entry ∈ state.entries)
    (gone : ∀ kept ∈ after.entries, kept.seq ≠ entry.seq) :
    entry.claim.isConsumed = true := by
  cases moved with
  | stay | grant => exact absurd rfl (gone entry member)
  | append body => exact absurd rfl (gone entry (List.mem_append_left _ member))
  | load fence => exact absurd (take_seq fence entry) (gone _ (List.mem_map_of_mem member))
  | commit fence cursor stamp current =>
    cases cursor with
    | none => exact absurd rfl (gone entry member)
    | some cursor =>
      exact absurd (consume_seq cursor stamp entry) (gone _ (List.mem_map_of_mem member))
  | prune keep only =>
    apply only entry member
    rw [← Bool.not_eq_true]
    intro kept
    exact gone entry (mem_filter.mpr ⟨member, kept⟩) rfl

def Event.delivers (fence : Nat) : Event → List Nat
  | .granted _ => []
  | .loaded holder seqs => if holder = fence then seqs else []
  | .committed _ _ => []

def loads (fence : Nat) (events : List Event) : List Nat :=
  events.flatMap (Event.delivers fence)

def Event.cursor? : Event → Option (Option Nat)
  | .granted _ => none
  | .loaded _ _ => none
  | .committed _ cursor => some cursor

/-- A cursor that a consumer may commit with: the largest number it loaded or,
when it loaded nothing, none or one committed before. -/
def Stamped (events : List Event) (fence : Nat) (cursor : Option Nat) : Prop :=
  cursor = (loads fence events).max? ∨
    (loads fence events = [] ∧ cursor ∈ events.filterMap Event.cursor?)

instance (events : List Event) (fence : Nat) (cursor : Option Nat) :
    Decidable (Stamped events fence cursor) :=
  inferInstanceAs (Decidable (_ ∨ _))

/-- An event that a consumer may cause: it uses a fence it was granted and
commits with the cursor it has reached. -/
def Allowed (events : List Event) : Event → Prop
  | .granted _ => True
  | .loaded fence _ => .granted fence ∈ events
  | .committed fence cursor => .granted fence ∈ events ∧ Stamped events fence cursor

instance (events : List Event) : (event : Event) → Decidable (Allowed events event)
  | .granted _ => inferInstanceAs (Decidable True)
  | .loaded fence _ => inferInstanceAs (Decidable (.granted fence ∈ events))
  | .committed fence cursor =>
    inferInstanceAs (Decidable (.granted fence ∈ events ∧ Stamped events fence cursor))

/-- What holds of an inbox after a history of allowed events that turned the
numbers `flips`. -/
structure Exact (events : List Event) (flips : List Nat) (state : State Body) : Prop where
  standing : Standing state.entries state.minted flips.length
  flips_eq : flips = range' 1 flips.length
  granted_le : ∀ fence, .granted fence ∈ events → fence ≤ state.fence
  loaded_le : ∀ fence seqs, .loaded fence seqs ∈ events →
    fence ≤ state.fence ∧ ∀ seq ∈ seqs, seq ≤ state.minted
  claimed_le : ∀ entry ∈ state.entries, ∀ fence, entry.claim = .claimed fence → fence ≤ state.fence
  committed_le : ∀ fence cursor, .committed fence (some cursor) ∈ events → cursor ≤ flips.length
  covered : ∀ seq ∈ loads state.fence events,
    ∀ waits ∈ (waiting state.entries).map Entry.seq, waits ≤ seq → waits ∈ loads state.fence events

@[simp] theorem loads_nil (fence : Nat) : loads fence [] = [] := rfl

@[simp] theorem loads_append (fence : Nat) (earlier later : List Event) :
    loads fence (earlier ++ later) = loads fence earlier ++ loads fence later :=
  List.flatMap_append

@[simp] theorem loads_granted (fence granted : Nat) :
    loads fence [.granted granted] = [] := rfl

@[simp] theorem loads_committed (fence holder : Nat) (cursor : Option Nat) :
    loads fence [.committed holder cursor] = [] := rfl

@[simp] theorem loads_loaded (fence : Nat) (seqs : List Nat) :
    loads fence [.loaded fence seqs] = seqs := by
  rw [loads, List.flatMap_singleton, Event.delivers, if_pos rfl]

theorem loads_loaded_of_ne (other : holder ≠ fence) (seqs : List Nat) :
    loads fence [.loaded holder seqs] = [] := by
  rw [loads, List.flatMap_singleton, Event.delivers, if_neg other]

theorem mem_loads :
    seq ∈ loads fence events ↔ ∃ seqs, .loaded fence seqs ∈ events ∧ seq ∈ seqs := by
  unfold loads
  rw [List.mem_flatMap]
  constructor
  · rintro ⟨event, member, listed⟩
    cases event with
    | granted | committed => cases listed
    | loaded holder seqs =>
      by_cases same : holder = fence
      · subst same
        rw [Event.delivers, if_pos rfl] at listed
        exact ⟨seqs, member, listed⟩
      · rw [Event.delivers, if_neg same] at listed
        cases listed
  · rintro ⟨seqs, member, listed⟩
    refine ⟨_, member, ?_⟩
    rwa [Event.delivers, if_pos rfl]

theorem mem_cursors {cursor : Option Nat} {events : List Event} :
    cursor ∈ events.filterMap Event.cursor? ↔ ∃ fence, .committed fence cursor ∈ events := by
  rw [List.mem_filterMap]
  constructor
  · rintro ⟨event, member, shown⟩
    cases event with
    | granted | loaded => cases shown
    | committed fence committed =>
      cases shown
      exact ⟨fence, member⟩
  · rintro ⟨fence, member⟩
    exact ⟨_, member, rfl⟩

theorem mem_of_mem_concat (member : event ∈ events ++ [shown]) (other : event ≠ shown) :
    event ∈ events := by
  rcases List.mem_append.mp member with older | newest
  · exact older
  · exact absurd (List.mem_singleton.mp newest) other

/-- The newest fence loads everything that waits. -/
theorem held_take {entries : List (Entry Body)}
    (newest : ∀ entry ∈ entries, ∀ holder, entry.claim = .claimed holder → holder ≤ fence) :
    (held fence (entries.map (Entry.take fence))).map Entry.seq =
      (waiting entries).map Entry.seq := by
  unfold held waiting
  rw [List.filter_map, List.map_map]
  congr 1
  · funext entry
    exact take_seq fence entry
  · apply List.filter_congr
    intro entry member
    rw [Function.comp_apply]
    unfold Entry.take
    cases claim : entry.claim with
    | pending => simp [Claim.isConsumed]
    | claimed holder =>
      have bound := newest entry member holder claim
      by_cases older : holder < fence
      · simp [older, Claim.isConsumed]
      · have same : holder = fence := by omega
        simp [claim, same, Claim.isConsumed]
    | consumed stamp => simp [claim, Claim.isConsumed]

/-- What any fence loads was waiting. -/
theorem held_take_subset
    (member : seq ∈ (held fence (entries.map (Entry.take fence))).map Entry.seq) :
    seq ∈ (waiting entries).map Entry.seq := by
  obtain ⟨taken, holds, rfl⟩ := mem_map.mp member
  obtain ⟨listed, claimed⟩ := mem_filter.mp holds
  obtain ⟨entry, original, rfl⟩ := mem_map.mp listed
  rw [take_seq]
  apply List.mem_map_of_mem
  refine mem_filter.mpr ⟨original, ?_⟩
  rw [← take_isConsumed fence, of_decide_eq_true claimed]
  rfl

namespace Exact

variable {events : List Event} {flips : List Nat} {state after : State Body}

theorem empty (fence : Nat) : Exact [] [] (⟨fence, 0, []⟩ : State Body) where
  standing := Standing.empty
  flips_eq := rfl
  granted_le := by simp
  loaded_le := by simp
  claimed_le := by simp
  committed_le := by simp
  covered := by simp

theorem not_mem_loads_of_lt (exact : Exact events flips state) (future : state.fence < fence) :
    loads fence events = [] := by
  apply List.eq_nil_iff_forall_not_mem.mpr
  intro seq loaded
  obtain ⟨seqs, member, _⟩ := mem_loads.mp loaded
  have bound := (exact.loaded_le fence seqs member).1
  omega

/-- The cursor of a commit does not pass the last number, and what it turns was
loaded under its fence. -/
theorem stamped (exact : Exact events flips state)
    (stamped : Stamped events state.fence (some cursor)) :
    cursor ≤ state.minted ∧
      ∀ seq ∈ range' (flips.length + 1) (cursor - flips.length),
        seq ∈ loads state.fence events := by
  rcases stamped with largest | ⟨_, repeated⟩
  · have loaded := List.max?_mem largest.symm
    obtain ⟨seqs, member, listed⟩ := mem_loads.mp loaded
    have bounded := (exact.loaded_le _ _ member).2 cursor listed
    refine ⟨bounded, ?_⟩
    intro seq turned
    rw [List.mem_range'_1] at turned
    apply exact.covered cursor loaded seq
    · rw [exact.standing.waits, List.mem_range'_1]
      omega
    · omega
  · obtain ⟨holder, committed⟩ := mem_cursors.mp repeated
    have settled := exact.committed_le holder cursor committed
    refine ⟨settled.trans exact.standing.done_le, ?_⟩
    intro seq turned
    rw [List.mem_range'_1] at turned
    omega

theorem length_flips_append (flips : List Nat) (cursor : Nat) :
    (flips ++ range' (flips.length + 1) (cursor - flips.length)).length =
      max flips.length cursor := by
  rw [List.length_append, List.length_range']
  omega

section

variable (exact : Exact events flips state)

include exact

theorem append (body : Body) :
    Exact events flips
      { state with
        minted := state.minted + 1
        entries := state.entries ++ [⟨state.minted + 1, body, .pending⟩] } := by
  refine { exact with
    standing := exact.standing.append body
    claimed_le := Lists.forall_mem_concat.mpr ⟨exact.claimed_le, nofun⟩
    loaded_le := ?_
    covered := ?_ }
  · intro fence seqs member
    obtain ⟨newest, bounded⟩ := exact.loaded_le fence seqs member
    exact ⟨newest, fun seq listed => (bounded seq listed).trans (Nat.le_succ _)⟩
  · intro seq loaded waits waiting below
    -- the new number is above everything loaded
    obtain ⟨seqs, member, listed⟩ := mem_loads.mp loaded
    have bounded := (exact.loaded_le _ _ member).2 seq listed
    rw [(exact.standing.append body).waits, List.mem_range'_1] at waiting
    apply exact.covered seq loaded waits _ below
    rw [exact.standing.waits, List.mem_range'_1]
    omega

theorem grant :
    Exact (events ++ [.granted (state.fence + 1)]) flips
      { state with fence := state.fence + 1 } where
  standing := exact.standing
  flips_eq := exact.flips_eq
  granted_le := by
    intro fence member
    rcases List.mem_append.mp member with older | newest
    · exact (exact.granted_le fence older).trans (Nat.le_succ _)
    · cases List.mem_singleton.mp newest
      exact le_rfl
  loaded_le := by
    intro fence seqs member
    obtain ⟨bound, bounded⟩ := exact.loaded_le fence seqs (mem_of_mem_concat member nofun)
    exact ⟨bound.trans (Nat.le_succ _), bounded⟩
  claimed_le := fun entry member fence claimed =>
    (exact.claimed_le entry member fence claimed).trans (Nat.le_succ _)
  committed_le := by
    intro fence cursor member
    exact exact.committed_le fence cursor (mem_of_mem_concat member nofun)
  covered := by
    intro seq loaded
    rw [loads_append, loads_granted, append_nil,
      exact.not_mem_loads_of_lt (Nat.lt_succ_self _)] at loaded
    cases loaded

theorem load (granted : .granted fence ∈ events) :
    Exact
      (events ++ [.loaded fence
        ((held fence (state.entries.map (Entry.take fence))).map Entry.seq)])
      flips
      { state with entries := state.entries.map (Entry.take fence) } where
  standing := exact.standing.take fence
  flips_eq := exact.flips_eq
  granted_le := by
    intro holder member
    exact exact.granted_le holder (mem_of_mem_concat member nofun)
  loaded_le := by
    intro holder seqs member
    rcases List.mem_append.mp member with older | newest
    · exact exact.loaded_le holder seqs older
    · cases List.mem_singleton.mp newest
      refine ⟨exact.granted_le fence granted, ?_⟩
      intro seq delivered
      have waits := held_take_subset delivered
      have behind := exact.standing.done_le
      rw [exact.standing.waits, List.mem_range'_1] at waits
      change seq ≤ state.minted
      omega
  claimed_le := by
    intro entry member holder claimed
    obtain ⟨original, listed, rfl⟩ := mem_map.mp member
    rcases claim_take claimed with rfl | kept
    · exact exact.granted_le holder granted
    · exact exact.claimed_le original listed holder kept
  committed_le := by
    intro holder cursor member
    exact exact.committed_le holder cursor (mem_of_mem_concat member nofun)
  covered := by
    intro seq loaded waits waiting below
    change waits ∈ loads state.fence _
    change seq ∈ loads state.fence _ at loaded
    rw [waiting_map_take] at waiting
    rw [loads_append] at loaded ⊢
    by_cases newest : fence = state.fence
    · -- the newest fence has just loaded whatever waits
      subst newest
      apply List.mem_append_right
      rw [loads_loaded, held_take exact.claimed_le]
      exact waiting
    · rw [loads_loaded_of_ne newest, append_nil] at loaded ⊢
      exact exact.covered seq loaded waits waiting below

theorem prune (only : ∀ entry ∈ state.entries, keep entry = false → entry.claim.isConsumed = true) :
    Exact events flips { state with entries := state.entries.filter keep } := by
  refine { exact with
    standing := exact.standing.prune only
    claimed_le := fun entry member => exact.claimed_le entry (mem_filter.mp member).1
    covered := ?_ }
  intro seq loaded waits waiting
  rw [(exact.standing.prune only).waits, ← exact.standing.waits] at waiting
  exact exact.covered seq loaded waits waiting

/-- Consuming up to a number flips what waits below it, in order. -/
theorem consume (below : cursor ≤ state.minted) (stamp : Nat) :
    Exact events (flips ++ range' (flips.length + 1) (cursor - flips.length))
      { state with entries := state.entries.map (Entry.consume cursor stamp) } where
  standing := by
    rw [length_flips_append]
    exact exact.standing.consume below stamp
  flips_eq := by
    rw [List.length_append, List.length_range', ← List.range'_append_1, ← exact.flips_eq,
      Nat.add_comm 1]
  granted_le := exact.granted_le
  loaded_le := exact.loaded_le
  claimed_le := by
    intro entry member holder claimed
    obtain ⟨original, listed, rfl⟩ := mem_map.mp member
    refine exact.claimed_le original listed holder ?_
    unfold Entry.consume at claimed
    split at claimed
    · cases claimed
    · exact claimed
  committed_le := by
    intro holder reached member
    rw [length_flips_append]
    exact (exact.committed_le holder reached member).trans (le_max_left _ _)
  covered := by
    intro seq loaded waits waiting
    rw [waiting_map_consume] at waiting
    exact exact.covered seq loaded waits (mem_filter.mp waiting).1

/-- A commit joins the history once everything below its cursor is consumed. -/
theorem commit (fence : Nat) {cursor : Option Nat}
    (reached : ∀ number ∈ cursor, number ≤ flips.length) :
    Exact (events ++ [.committed fence cursor]) flips state where
  standing := exact.standing
  flips_eq := exact.flips_eq
  granted_le := by
    intro holder member
    exact exact.granted_le holder (mem_of_mem_concat member nofun)
  loaded_le := by
    intro holder seqs member
    exact exact.loaded_le holder seqs (mem_of_mem_concat member nofun)
  claimed_le := exact.claimed_le
  committed_le := by
    intro holder number member
    rcases List.mem_append.mp member with older | newest
    · exact exact.committed_le holder number older
    · cases List.mem_singleton.mp newest
      exact reached number rfl
  covered := by
    rw [loads_append, loads_committed, append_nil]
    exact exact.covered

/-- An allowed step keeps the history exact. -/
theorem move {event : Option Event} (moved : Move state event after)
    (allowed : ∀ shown, event = some shown → Allowed events shown) :
    Exact (events ++ event.toList) (flips ++ turned state.entries after.entries) after ∧
      ∀ seq ∈ turned state.entries after.entries,
        ∃ fence cursor, event = some (.committed fence cursor) ∧ seq ∈ loads fence events := by
  cases moved with
  | stay =>
    rw [exact.standing.turned_eq_nil exact.standing, append_nil, Option.toList_none, append_nil]
    exact ⟨exact, by simp⟩
  | append body =>
    rw [exact.standing.turned_eq_nil (exact.standing.append body), append_nil,
      Option.toList_none, append_nil]
    exact ⟨exact.append body, by simp⟩
  | grant =>
    rw [exact.standing.turned_eq_nil exact.standing, append_nil]
    exact ⟨exact.grant, by simp⟩
  | load fence =>
    rw [exact.standing.turned_eq_nil (exact.standing.take fence), append_nil]
    exact ⟨exact.load (allowed _ rfl), by simp⟩
  | prune keep only =>
    rw [exact.standing.turned_eq_nil (exact.standing.prune only), append_nil,
      Option.toList_none, append_nil]
    exact ⟨exact.prune only, by simp⟩
  | commit fence cursor stamp current =>
    obtain ⟨granted, stamps⟩ := allowed _ rfl
    obtain rfl := le_antisymm (exact.granted_le fence granted) current
    cases cursor with
    | none =>
      rw [consumeUpTo, exact.standing.turned_eq_nil exact.standing, append_nil]
      exact ⟨exact.commit state.fence nofun, by simp⟩
    | some cursor =>
      obtain ⟨below, loaded⟩ := exact.stamped stamps
      rw [consumeUpTo, exact.standing.turned_consume below]
      refine ⟨(exact.consume below stamp).commit state.fence ?_,
        fun seq turns => ⟨state.fence, some cursor, rfl, loaded seq turns⟩⟩
      rintro _ ⟨⟩
      rw [length_flips_append]
      exact le_max_right _ _

end

end Exact

end Inbox
