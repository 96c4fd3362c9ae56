import DaemonNode.Lib.Lists

/-!
# A register under fencing tokens

A holder of the register is granted a fence, loads the value, works on it and
commits a new one; a commit under a fence that is not the newest any more is
refused. Holders run concurrently and may die at any point. Besides, an editor
may replace the value when the register is dormant: a grant makes it busy, and a
commit makes it dormant again, but so may a wake that comes from elsewhere while
the holder is still at work.

Holders that load and commit under their own fences, and commit once, commit in
the order of their fences, and each has loaded what it overwrites. An edit is
overwritten unseen only by a holder that a wake has overtaken.
-/

namespace Register

open List (mem_append_left)

universe u

variable {Value : Type u}

/-- The newest fence, the value if there is one yet, and whether a holder is
thought to be at work. -/
structure State (Value : Type u) where
  fence : Nat
  value : Option Value
  busy : Bool

/-- What is seen to be done to a register. -/
inductive Event (Value : Type u)
  | granted (fence : Nat)
  | loaded (fence : Nat) (value : Value)
  | committed (fence : Nat)
  | woken
  | edited
  deriving DecidableEq

/-- The moves of a register. -/
inductive Move : State Value → Option (Event Value) → State Value → Prop
  | stay (state : State Value) : Move state none state
  | create (state : State Value) (value : Value)
      (absent : state.value = none) :
      Move state none { state with value := some value }
  | grant (state : State Value) :
      Move state (some (.granted (state.fence + 1)))
        { state with fence := state.fence + 1, busy := true }
  | load (state : State Value) (fence : Nat) (value : Value)
      (present : state.value = some value) :
      Move state (some (.loaded fence value)) state
  | commit (state : State Value) (fence : Nat) (value : Option Value) (busy : Bool)
      (current : state.fence ≤ fence) :
      Move state (some (.committed fence)) ⟨state.fence, value, busy⟩
  | wake (state : State Value) (busy : Bool) : Move state (some .woken) { state with busy := busy }
  | edit (state : State Value) (value : Value)
      (dormant : state.busy = false) :
      Move state (some .edited) { state with value := some value }

theorem Move.le_of_commit (moved : Move state (some (.committed fence)) after) :
    state.fence ≤ fence := by
  cases moved with
  | commit _ value busy current => exact current

/-- Only a grant changes the fence. -/
theorem Move.fence_eq (moved : Move state event after)
    (ungranted : ∀ fence, event ≠ some (.granted fence)) :
    after.fence = state.fence := by
  cases moved with
  | grant => exact absurd rfl (ungranted _)
  | stay | create | load | commit | wake | edit => rfl

theorem Move.fence_of_grant (moved : Move state (some (.granted fence)) after) :
    after.fence = state.fence + 1 := by
  cases moved with
  | grant => rfl

theorem Move.dormant_of_edit (moved : Move state (some .edited) after) : state.busy = false := by
  cases moved with
  | edit value dormant => exact dormant

def Event.delivers (fence : Nat) : Event Value → Option Value
  | .loaded holder value => if holder = fence then some value else none
  | .granted _ => none
  | .committed _ => none
  | .woken => none
  | .edited => none

def loads (fence : Nat) (events : List (Event Value)) : List Value :=
  events.filterMap (Event.delivers fence)

def Event.commit? : Event Value → Option Nat
  | .committed fence => some fence
  | .granted _ => none
  | .loaded _ _ => none
  | .woken => none
  | .edited => none

/-- The fences of the commits, in their order. -/
def commits (events : List (Event Value)) : List Nat :=
  events.filterMap Event.commit?

/-- An event that a holder may cause: it loads under a fence it was granted, and
commits once, after it has loaded. -/
def Allowed (events : List (Event Value)) : Event Value → Prop
  | .loaded fence _ => .granted fence ∈ events
  | .committed fence =>
    .granted fence ∈ events ∧ (loads fence events).isEmpty = false ∧ fence ∉ commits events
  | .granted _ => True
  | .woken => True
  | .edited => True

instance [DecidableEq Value] (events : List (Event Value)) :
    (event : Event Value) → Decidable (Allowed events event)
  | .loaded fence _ => inferInstanceAs (Decidable (.granted fence ∈ events))
  | .committed fence =>
    inferInstanceAs (Decidable (.granted fence ∈ events ∧
      (loads fence events).isEmpty = false ∧ fence ∉ commits events))
  | .granted _ => inferInstanceAs (Decidable True)
  | .woken => inferInstanceAs (Decidable True)
  | .edited => inferInstanceAs (Decidable True)

/-- A wake has come since a fence was granted. -/
def WokenSince (fence : Nat) (events : List (Event Value)) : Prop :=
  ∃ earlier later, events = earlier ++ .woken :: later ∧ .granted fence ∈ earlier

theorem not_wokenSince_iff {events : List (Event Value)} :
    ¬WokenSince fence events ↔ ∀ earlier event later, events = earlier ++ event :: later →
      event = .woken → .granted fence ∉ earlier := by
  constructor
  · rintro undisturbed earlier _ later parted rfl granted
    exact undisturbed ⟨earlier, later, parted, granted⟩
  · rintro undisturbed ⟨earlier, later, parted, granted⟩
    exact undisturbed earlier .woken later parted rfl granted

instance [DecidableEq Value] (fence : Nat) (events : List (Event Value)) :
    Decidable (WokenSince fence events) :=
  decidable_of_iff _ (not_iff_comm.mp (not_wokenSince_iff.trans
    (Lists.forall_split_iff fun (earlier : List (Event Value)) event =>
      event = .woken → .granted fence ∉ earlier)))

/-- What holds of a history of allowed events that granted fences up to `fence`. -/
structure Orderly (events : List (Event Value)) (fence : Nat) : Prop where
  granted_le : ∀ holder, .granted holder ∈ events → 0 < holder ∧ holder ≤ fence
  newest : fence = 0 ∨ .granted fence ∈ events
  loaded_granted : ∀ holder value, .loaded holder value ∈ events → .granted holder ∈ events
  committed_granted : ∀ holder ∈ commits events, .granted holder ∈ events
  ascending : (commits events).Pairwise (· < ·)

/-- What holds of a register after such a history. -/
structure Law (events : List (Event Value)) (state : State Value) : Prop where
  orderly : Orderly events state.fence
  dormant : state.busy = false →
    state.fence = 0 ∨ state.fence ∈ commits events ∨ WokenSince state.fence events
  current : .edited ∉ events → state.fence ∉ commits events →
    ∀ value ∈ loads state.fence events, state.value = some value
  absent : state.value = none → state.fence ∉ commits events → loads state.fence events = []

@[simp] theorem loads_append (fence : Nat) (earlier later : List (Event Value)) :
    loads fence (earlier ++ later) = loads fence earlier ++ loads fence later :=
  List.filterMap_append

@[simp] theorem commits_append (earlier later : List (Event Value)) :
    commits (earlier ++ later) = commits earlier ++ commits later :=
  List.filterMap_append

theorem delivers_eq_some_iff {event : Event Value} :
    event.delivers fence = some value ↔ event = .loaded fence value := by
  cases event <;> simp [Event.delivers]

theorem mem_loads : value ∈ loads fence events ↔ .loaded fence value ∈ events := by
  simp [loads, delivers_eq_some_iff]

theorem commit?_eq_some_iff {event : Event Value} :
    event.commit? = some fence ↔ event = .committed fence := by
  cases event <;> simp [Event.commit?]

theorem mem_commits : fence ∈ commits events ↔ .committed fence ∈ events := by
  simp [commits, commit?_eq_some_iff]

theorem WokenSince.append (woken : WokenSince fence events) (rest : List (Event Value)) :
    WokenSince fence (events ++ rest) := by
  obtain ⟨earlier, later, rfl, granted⟩ := woken
  exact ⟨earlier, later ++ rest, by rw [List.append_assoc, List.cons_append], granted⟩

namespace Orderly

variable {events : List (Event Value)} {fence : Nat}

theorem empty : Orderly ([] : List (Event Value)) 0 where
  granted_le := nofun
  newest := .inl rfl
  loaded_granted := nofun
  committed_granted := nofun
  ascending := .nil

section

variable (orderly : Orderly events fence)

include orderly

/-- A commit that is let through holds the newest fence. -/
theorem fence_eq (granted : .granted holder ∈ events) (current : fence ≤ holder) : holder = fence :=
  le_antisymm (orderly.granted_le holder granted).2 current

/-- Nothing was loaded under a fence that is not granted yet. -/
theorem loads_eq_nil_of_lt (future : fence < holder) : loads holder events = [] := by
  apply List.eq_nil_iff_forall_not_mem.mpr
  intro value loaded
  have granted := orderly.loaded_granted holder value (mem_loads.mp loaded)
  exact absurd (orderly.granted_le holder granted).2 (Nat.not_le_of_lt future)

/-- A history stays orderly when an event adds nothing it has to account for. -/
theorem concat (granted : ∀ holder, .granted holder = event → 0 < holder ∧ holder ≤ next)
    (newest : next = fence ∨ event = .granted next) (later : fence ≤ next)
    (loaded : ∀ holder value, .loaded holder value = event → .granted holder ∈ events)
    (committed : ∀ holder, .committed holder = event →
      .granted holder ∈ events ∧ ∀ older ∈ commits events, older < holder) :
    Orderly (events ++ [event]) next where
  granted_le := by
    intro holder member
    rcases List.mem_append.mp member with older | last
    · obtain ⟨positive, bound⟩ := orderly.granted_le holder older
      exact ⟨positive, bound.trans later⟩
    · exact granted holder (List.mem_singleton.mp last)
  newest := by
    rcases newest with rfl | rfl
    · exact orderly.newest.imp_right (mem_append_left _)
    · exact .inr (List.mem_append_right _ (List.mem_singleton_self _))
  loaded_granted := by
    intro holder value member
    apply mem_append_left
    rcases List.mem_append.mp member with older | last
    · exact orderly.loaded_granted holder value older
    · exact loaded holder value (List.mem_singleton.mp last)
  committed_granted := by
    intro holder member
    apply mem_append_left
    rcases List.mem_append.mp (mem_commits.mp member) with older | last
    · exact orderly.committed_granted holder (mem_commits.mpr older)
    · exact (committed holder (List.mem_singleton.mp last)).1
  ascending := by
    rw [commits_append]
    refine List.pairwise_append.mpr ⟨orderly.ascending, ?_, ?_⟩
    · cases event with
      | committed holder => exact List.pairwise_singleton _ _
      | granted | loaded | woken | edited => exact .nil
    · intro older earlier holder member
      have last := mem_commits.mp member
      exact (committed holder (List.mem_singleton.mp last)).2 older earlier

theorem grant : Orderly (events ++ [.granted (fence + 1)]) (fence + 1) := by
  apply orderly.concat
  · rintro holder ⟨⟩
    exact ⟨Nat.succ_pos _, le_rfl⟩
  · exact .inr rfl
  · exact Nat.le_succ _
  · nofun
  · nofun

theorem load (value : Value) (granted : .granted holder ∈ events) :
    Orderly (events ++ [.loaded holder value]) fence := by
  apply orderly.concat
  · nofun
  · exact .inl rfl
  · exact le_rfl
  · rintro _ _ ⟨⟩
    exact granted
  · nofun

/-- A commit comes after all others. -/
theorem commit (granted : .granted fence ∈ events) (once : fence ∉ commits events) :
    Orderly (events ++ [.committed fence]) fence := by
  apply orderly.concat
  · nofun
  · exact .inl rfl
  · exact le_rfl
  · nofun
  · rintro _ ⟨⟩
    refine ⟨granted, fun older earlier => ?_⟩
    have bound := (orderly.granted_le older (orderly.committed_granted older earlier)).2
    refine lt_of_le_of_ne bound fun same => once ?_
    rw [← same]
    exact earlier

theorem wake : Orderly (events ++ [.woken]) fence :=
  orderly.concat nofun (.inl rfl) le_rfl nofun nofun

theorem edit : Orderly (events ++ [.edited]) fence :=
  orderly.concat nofun (.inl rfl) le_rfl nofun nofun

end

end Orderly

namespace Law

variable {events : List (Event Value)} {state after : State Value}

theorem empty : Law [] (⟨0, none, false⟩ : State Value) where
  orderly := .empty
  dormant := fun _ => .inl rfl
  current := nofun
  absent := fun _ _ => rfl

section

variable (law : Law events state)

include law

theorem create (value : Value) (absent : state.value = none) :
    Law events { state with value := some value } := by
  refine { law with current := ?_, absent := nofun }
  intro _ uncommitted loaded member
  rw [law.absent absent uncommitted] at member
  cases member

theorem grant :
    Law (events ++ [.granted (state.fence + 1)])
      { state with fence := state.fence + 1, busy := true } where
  orderly := law.orderly.grant
  dormant := nofun
  current := by
    intro _ _ value member
    rw [loads_append, law.orderly.loads_eq_nil_of_lt (Nat.lt_succ_self _)] at member
    cases member
  absent := by
    intro _ _
    rw [loads_append, law.orderly.loads_eq_nil_of_lt (Nat.lt_succ_self _)]
    rfl

/-- An event leaves a dormant register with the reason it had. -/
theorem dormant_concat (event : Event Value) (dormant : state.busy = false) :
    state.fence = 0 ∨ state.fence ∈ commits (events ++ [event]) ∨
      WokenSince state.fence (events ++ [event]) := by
  rcases law.dormant dormant with unused | committed | woken
  · exact .inl unused
  · rw [commits_append]
    exact .inr (.inl (mem_append_left _ committed))
  · exact .inr (.inr (woken.append _))

theorem load (granted : .granted holder ∈ events) (present : state.value = some value) :
    Law (events ++ [.loaded holder value]) state where
  orderly := law.orderly.load value granted
  dormant := law.dormant_concat _
  current := by
    intro unedited uncommitted loaded member
    rw [commits_append] at uncommitted
    rcases List.mem_append.mp (mem_loads.mp member) with older | last
    · exact law.current (fun edited => unedited (mem_append_left _ edited))
        (fun committed => uncommitted (mem_append_left _ committed)) loaded
        (mem_loads.mpr older)
    · cases List.mem_singleton.mp last
      exact present
  absent := by
    rw [present]
    nofun

theorem commit (granted : .granted state.fence ∈ events) (once : state.fence ∉ commits events)
    (value : Option Value) (busy : Bool) :
    Law (events ++ [.committed state.fence]) ⟨state.fence, value, busy⟩ := by
  have committed : state.fence ∈ commits (events ++ [.committed state.fence]) := by
    rw [commits_append]
    exact List.mem_append_right _ (List.mem_singleton_self _)
  exact
    { orderly := law.orderly.commit granted once
      dormant := fun _ => .inr (.inl committed)
      current := fun _ uncommitted => absurd committed uncommitted
      absent := fun _ uncommitted => absurd committed uncommitted }

theorem wake (busy : Bool) :
    Law (events ++ [.woken]) { state with busy := busy } where
  orderly := law.orderly.wake
  dormant := by
    intro _
    rcases law.orderly.newest with unused | granted
    · exact .inl unused
    · exact .inr (.inr ⟨events, [], rfl, granted⟩)
  current := by
    intro unedited uncommitted value member
    rw [commits_append] at uncommitted
    rw [loads_append] at member
    refine law.current (fun edited => unedited (mem_append_left _ edited))
      (fun committed => uncommitted (mem_append_left _ committed)) value ?_
    simpa [loads, Event.delivers] using member
  absent := by
    intro absent uncommitted
    rw [commits_append] at uncommitted
    rw [loads_append, law.absent absent fun committed =>
      uncommitted (mem_append_left _ committed)]
    rfl

theorem edit (value : Value) :
    Law (events ++ [.edited]) { state with value := some value } where
  orderly := law.orderly.edit
  dormant := law.dormant_concat _
  current := by
    intro unedited
    exact absurd (List.mem_append_right _ (List.mem_singleton_self _)) unedited
  absent := nofun

theorem move (moved : Move state event after) (allowed : ∀ shown ∈ event, Allowed events shown) :
    Law (events ++ event.toList) after := by
  cases moved with
  | stay =>
    rw [Option.toList_none, List.append_nil]
    exact law
  | create value absent =>
    rw [Option.toList_none, List.append_nil]
    exact law.create value absent
  | grant => exact law.grant
  | load fence value present => exact law.load (allowed _ rfl) present
  | commit fence value busy current =>
    obtain ⟨granted, _, once⟩ := allowed _ rfl
    obtain rfl := law.orderly.fence_eq granted current
    exact law.commit granted once value busy
  | wake busy => exact law.wake busy
  | edit value dormant => exact law.edit value

/-- A holder that was at work when a dormant register was edited, and commits
after that, was overtaken by a wake. -/
theorem wokenSince_of_edit (dormant : state.busy = false) (later : Law (events ++ between) reached)
    (current : reached.fence ≤ holder) (allowed : Allowed (events ++ between) (.committed holder))
    (loaded : .loaded holder value ∈ events) :
    WokenSince holder events := by
  obtain ⟨granted, _, once⟩ := allowed
  have newest := later.orderly.fence_eq granted current
  obtain ⟨positive, bound⟩ := law.orderly.granted_le holder
    (law.orderly.loaded_granted holder value loaded)
  -- no fence was granted between the load and the commit
  have same : holder = state.fence := by
    rcases law.orderly.newest with unused | last
    · omega
    · have := (later.orderly.granted_le _ (mem_append_left between last)).2
      omega
  subst same
  rcases law.dormant dormant with unused | committed | woken
  · omega
  · rw [commits_append] at once
    exact absurd (mem_append_left _ committed) once
  · exact woken

end

end Law

end Register
