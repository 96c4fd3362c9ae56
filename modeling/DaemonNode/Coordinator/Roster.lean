import DaemonNode.Coordinator.Refinement

/-!
# Roster discipline

Seats and staged joins stay free of duplicates, nobody holds a healthy seat
and a staged one, and together they never exceed the roster ceiling. The
ceiling is checked at admission only; it survives the drain of the staged
joins because seating a staged join frees its staged place.
-/

namespace DaemonNode.Coordinator

open Word (Overflow)
open Ledger (Thins Opens Freezes upsertSeat)

/-- A seat after an upsert is the new one or an old one. -/
theorem mem_upsertSeat (member : other ∈ upsertSeat seat seats) : other = seat ∨ other ∈ seats := by
  induction seats with
  | nil => exact .inl (List.mem_singleton.mp member)
  | cons existing seats ih =>
    unfold upsertSeat at member
    split at member
    · rcases List.mem_cons.mp member with new | old
      · exact .inl new
      · exact .inr (List.mem_cons_of_mem _ old)
    · rcases List.mem_cons.mp member with same | rest
      · exact .inr (same ▸ List.mem_cons_self)
      · exact (ih rest).imp_right (List.mem_cons_of_mem _)

theorem self_mem_upsertSeat (seat : Seat) (seats : List Seat) : seat ∈ upsertSeat seat seats := by
  induction seats with
  | nil => exact List.mem_singleton_self _
  | cons existing seats ih =>
    unfold upsertSeat
    split
    · exact List.mem_cons_self
    · exact List.mem_cons_of_mem _ ih

theorem map_peer_subset_upsertSeat (seat : Seat) (seats : List Seat) :
    seats.map Seat.peer ⊆ (upsertSeat seat seats).map Seat.peer := by
  induction seats with
  | nil => simp
  | cons existing seats ih =>
    unfold upsertSeat
    split
    · rename_i same
      simp [same]
    · exact List.cons_subset_cons _ ih

/-- An upsert keeps the holders distinct. -/
theorem nodup_upsertSeat (seat : Seat) (distinct : (seats.map Seat.peer).Nodup) :
    ((upsertSeat seat seats).map Seat.peer).Nodup := by
  induction seats with
  | nil => simp [upsertSeat]
  | cons existing seats ih =>
    obtain ⟨fresh, rest⟩ := List.nodup_cons.mp distinct
    unfold upsertSeat
    split
    · rename_i same
      exact List.nodup_cons.mpr ⟨same ▸ fresh, rest⟩
    · rename_i other
      refine List.nodup_cons.mpr ⟨?_, ih rest⟩
      intro member
      obtain ⟨found, foundMember, found_eq⟩ := List.mem_map.mp member
      rcases mem_upsertSeat foundMember with rfl | old
      · exact other found_eq.symm
      · exact fresh (found_eq ▸ List.mem_map_of_mem old)

/-- An upsert adds at most one healthy seat. -/
theorem healthy_upsertSeat_le (seat : Seat) (seats : List Seat) :
    ((upsertSeat seat seats).filter Seat.healthy).length ≤
      (seats.filter Seat.healthy).length + 1 := by
  induction seats with
  | nil => exact List.length_filter_le _ _
  | cons existing seats ih =>
    unfold upsertSeat
    split
    · rw [List.filter_cons, List.filter_cons]
      split <;> split <;> grind
    · rw [List.filter_cons, List.filter_cons]
      split
      · exact Nat.succ_le_succ ih
      · exact ih

/-- Seating staged joins one by one keeps the holders distinct and adds at
most as many healthy seats as there are joins. -/
theorem drain_seats (staged : List Seat) (distinct : (seats.map Seat.peer).Nodup) :
    ((staged.foldl (fun seats seat => upsertSeat seat seats) seats).map Seat.peer).Nodup ∧
      ((staged.foldl (fun seats seat => upsertSeat seat seats) seats).filter
        Seat.healthy).length ≤ (seats.filter Seat.healthy).length + staged.length := by
  induction staged generalizing seats with
  | nil => exact ⟨distinct, le_rfl⟩
  | cons seat staged ih =>
    obtain ⟨nodup, bound⟩ := ih (nodup_upsertSeat seat distinct)
    have added := healthy_upsertSeat_le seat seats
    refine ⟨nodup, ?_⟩
    simp only [List.foldl_cons, List.length_cons]
    omega

namespace Ledger

/-- Dropping members keeps the holders. -/
theorem Thins.map_peer (thins : Thins before after) :
    after.map Seat.peer = before.map Seat.peer := by
  induction thins with
  | nil => rfl
  | cons related _ ih => rw [List.map_cons, List.map_cons, related.1, ih]

/-- A healthy seat after drops was healthy before. -/
theorem Thins.healthy_mem (thins : Thins before after) (member : ⟨peer, true⟩ ∈ after) :
    ⟨peer, true⟩ ∈ before := by
  obtain ⟨⟨old, healthy⟩, inside, same, kept⟩ := Lists.exists_of_mem_forall₂ thins member
  cases same
  obtain rfl : healthy = true := kept rfl
  exact inside

/-- Drops leave no more healthy seats than before. -/
theorem Thins.healthy_length_le (thins : Thins before after) :
    (after.filter Seat.healthy).length ≤ (before.filter Seat.healthy).length := by
  induction thins with
  | nil => exact le_rfl
  | @cons old new _ _ related _ ih =>
    rw [List.filter_cons, List.filter_cons]
    split
    · rename_i healthy
      rw [if_pos (related.2 healthy)]
      exact Nat.succ_le_succ ih
    · split
      · exact Nat.le_succ_of_le ih
      · exact ih

end Ledger

/-- The discipline of seats and staged joins. -/
structure RosterInv (ledger : Ledger) : Prop where
  seats_nodup : (ledger.seats.map Seat.peer).Nodup
  staged_nodup : (ledger.staged.map Seat.peer).Nodup
  disjoint : ∀ peer, ⟨peer, true⟩ ∈ ledger.seats → peer ∉ ledger.staged.map Seat.peer
  room : ledger.occupancy ≤ ledger.config.maxPeers.toNat

namespace RosterInv

variable {mode : Overflow} {prims : Primitives}
variable {ledger after : Ledger} {outputs : List Output}

section

variable (inv : RosterInv ledger)

include inv

/-- Dropping members keeps the discipline, whatever else changes. -/
theorem of_thins (thins : Thins ledger.seats after.seats)
    (staged_eq : after.staged = ledger.staged) (config_eq : after.config = ledger.config) :
    RosterInv after := by
  refine ⟨?_, ?_, ?_, ?_⟩
  · rw [thins.map_peer]
    exact inv.seats_nodup
  · rw [staged_eq]
    exact inv.staged_nodup
  · intro peer member
    rw [staged_eq]
    exact inv.disjoint peer (thins.healthy_mem member)
  · have fewer := thins.healthy_length_le
    have room := inv.room
    unfold Ledger.occupancy Ledger.healthySeats at *
    rw [staged_eq, config_eq]
    omega

/-- Ledgers with the same seats and staged joins share the discipline. -/
theorem of_eq (seats_eq : after.seats = ledger.seats) (staged_eq : after.staged = ledger.staged)
    (config_eq : after.config = ledger.config) :
    RosterInv after := by
  refine inv.of_thins ?_ staged_eq config_eq
  rw [seats_eq]
  exact List.forall₂_same.mpr fun _ _ => ⟨rfl, id⟩

/-- Opening a round keeps the roster. -/
theorem opens (opened : Opens mode prims ledger opening after) : RosterInv after := by
  rw [opened.after_eq]
  exact inv.of_eq rfl rfl rfl

/-- Freezing a round only drops members. -/
theorem freezes (frozen : Freezes mode prims ledger record after) : RosterInv after := by
  refine inv.of_thins frozen.thins ?_ ?_ <;> rw [frozen.after_eq]

theorem seat (fresh : ¬ledger.Occupied peer)
    (space : ledger.occupancy < ledger.config.maxPeers.toNat) :
    RosterInv { ledger with seats := upsertSeat ⟨peer, true⟩ ledger.seats } := by
  refine ⟨nodup_upsertSeat _ inv.seats_nodup, inv.staged_nodup, ?_, ?_⟩
  · intro other member
    rcases mem_upsertSeat member with new | old
    · cases new
      exact fun staged => fresh (.inr staged)
    · exact inv.disjoint other old
  · have added := healthy_upsertSeat_le ⟨peer, true⟩ ledger.seats
    unfold Ledger.occupancy Ledger.healthySeats at *
    dsimp only
    omega

theorem stage (fresh : ¬ledger.Occupied peer)
    (space : ledger.occupancy < ledger.config.maxPeers.toNat) :
    RosterInv { ledger with staged := ledger.staged ++ [⟨peer, true⟩] } := by
  refine ⟨inv.seats_nodup, ?_, ?_, ?_⟩
  · rw [List.map_append, List.nodup_append]
    refine ⟨inv.staged_nodup, by simp, ?_⟩
    intro other staged new isNew same
    have isPeer : new = peer := by simpa using isNew
    exact fresh (.inr (isPeer ▸ same ▸ staged))
  · intro other member staged
    rw [List.map_append, List.mem_append] at staged
    rcases staged with old | new
    · exact inv.disjoint other member old
    · have isPeer : other = peer := by simpa using new
      exact fresh (.inl (isPeer ▸ member))
  · unfold Ledger.occupancy Ledger.healthySeats at *
    simp only [List.length_append, List.length_singleton]
    omega

/-- The staged joins are seated. -/
theorem drain :
    RosterInv
      { ledger with
          phase := .waitingForMembers
          staged := []
          seats := ledger.staged.foldl (fun seats seat => upsertSeat seat seats)
            ledger.seats } := by
  obtain ⟨nodup, bound⟩ := drain_seats ledger.staged inv.seats_nodup
  refine ⟨nodup, List.nodup_nil, fun _ _ staged => by simp at staged, ?_⟩
  have room := inv.room
  unfold Ledger.occupancy Ledger.healthySeats at *
  simp only [List.length_nil]
  omega

/-- Every move keeps the discipline. -/
theorem move (moved : Move mode prims ledger outputs after) : RosterInv after := by
  cases moved with
  | silent | rejoin => exact inv
  | decay _ thins => exact inv.of_thins thins rfl rfl
  | enterWarmup | floorBreach | toWitness | conclude | pause => exact inv.of_eq rfl rfl rfl
  | openFirst _ _ opened => exact inv.opens opened
  | drain => exact inv.drain
  | seat _ fresh space => exact inv.seat fresh space
  | stage _ _ fresh space => exact inv.stage fresh space

/-- Closing a round keeps the discipline. -/
theorem closing (closed : Closing mode prims ledger outputs after) : RosterInv after := by
  cases closed with
  | cool frozen => exact (inv.freezes frozen).of_eq rfl rfl rfl
  | advance frozen _ _ _ opened => exact (inv.freezes frozen).opens opened

/-- Every step keeps the discipline. -/
theorem step (stepped : LedgerStep mode prims ledger input outputs after) : RosterInv after := by
  cases stepped with
  | resume => exact inv.of_eq rfl rfl rfl
  | progress progress =>
    exact progress.invariant RosterInv (fun _ _ _ => move) (fun _ _ _ => closing) inv

end

theorem initial (config : RunConfig) (seed : Seed) : RosterInv (Ledger.new config seed) :=
  ⟨List.nodup_nil, List.nodup_nil, fun _ _ => by simp [Ledger.new], Nat.zero_le _⟩

end RosterInv

theorem Move.config_eq (moved : Move mode prims ledger outputs after) :
    after.config = ledger.config := by
  cases moved with
  | openFirst _ _ opened => rw [opened.after_eq]
  | _ => rfl

/-- Closing a round keeps the configuration. -/
theorem Closing.config_eq (closed : Closing mode prims ledger outputs after) :
    after.config = ledger.config := by
  cases closed with
  | cool freezing => rw [freezing.after_eq]
  | advance freezing _ _ _ opened => rw [opened.after_eq, freezing.after_eq]

theorem Closing.phase_eq (closed : Closing mode prims ledger outputs after) :
    ledger.phase = .roundWitness := by
  cases closed with
  | cool freezing => exact freezing.phase_eq
  | advance freezing => exact freezing.phase_eq

/-- The configuration never changes. -/
theorem LedgerStep.config_eq (stepped : LedgerStep mode prims ledger input outputs after) :
    after.config = ledger.config := by
  cases stepped with
  | resume => rfl
  | progress progress =>
    exact progress.invariant (fun later => later.config = ledger.config)
      (fun _ _ _ kept moved => moved.config_eq.trans kept)
      (fun _ _ _ kept closed => closed.config_eq.trans kept) rfl

theorem TickRun.config_eq (run : TickRun mode prims config seed nowS trace state) :
    state.config = config :=
  (run_refines run).invariant (fun ledger => ledger.config = config) rfl
    fun _ _ _ _ kept stepped => stepped.config_eq.trans kept

/-- Every reachable ledger is disciplined. -/
theorem TickRun.rosterInv (run : TickRun mode prims config seed nowS trace state) :
    RosterInv state.ledger :=
  (run_refines run).invariant RosterInv (RosterInv.initial config seed)
    fun _ _ _ _ inv stepped => inv.step stepped

/-- In every reachable state the roster and the pending joins are free of
duplicates, no healthy member is pending, and healthy members and pending
joins together fit the ceiling. -/
theorem roster_discipline (run : TickRun mode prims config seed nowS trace state) :
    (state.roster.map Member.peer).Nodup ∧
      (state.pending.map Member.peer).Nodup ∧
      (∀ peer, state.isHealthyMember peer = true → peer ∉ state.pending.map Member.peer) ∧
      state.healthy.length + state.pending.length ≤ config.maxPeers.toNat := by
  have inv := run.rosterInv
  have peers : ∀ members : List Member,
      (members.map Member.seat).map Seat.peer = members.map Member.peer := by
    intro members
    rw [List.map_map]
    rfl
  refine ⟨?_, ?_, ?_, ?_⟩
  · rw [← peers]
    exact inv.seats_nodup
  · rw [← peers]
    exact inv.staged_nodup
  · intro peer healthy
    rw [← peers]
    apply inv.disjoint
    obtain ⟨member, isMember, matched⟩ := List.any_eq_true.mp healthy
    simp only [Bool.and_eq_true, decide_eq_true_eq] at matched
    exact List.mem_map.mpr ⟨member, isMember, by simp [Member.seat, matched]⟩
  · have room := inv.room
    rw [CoordinatorState.ledger_occupancy, CoordinatorState.ledger_config, run.config_eq] at room
    exact room

/-- Two members and, once a round is open, a staged third. -/
def rosterSample : List Input :=
  [sampleJoin (samplePeer 1), sampleJoin (samplePeer 2), .clock 1, .clock 20,
    sampleJoin (samplePeer 3), sampleJoin (samplePeer 4)]

theorem roster_discipline_sample :
    ∃ trace state,
      TickRun .trap samplePrimitives sampleConfig (Bytes.fill 32 7) 0 trace state ∧
        (state.healthy.length = 2 ∧ state.pending.length = 1) ∧
        (state.roster.map Member.peer).Nodup ∧
        (state.pending.map Member.peer).Nodup ∧
        (∀ peer, state.isHealthyMember peer = true → peer ∉ state.pending.map Member.peer) ∧
        state.healthy.length + state.pending.length ≤ sampleConfig.maxPeers.toNat := by
  obtain ⟨trace, state, run, seated⟩ := sampleRun_of_checked sampleConfig rosterSample
    (fun _ state => state.healthy.length = 2 ∧ state.pending.length = 1) (by decide +kernel)
  exact ⟨trace, state, run, seated, roster_discipline run⟩

end DaemonNode.Coordinator
