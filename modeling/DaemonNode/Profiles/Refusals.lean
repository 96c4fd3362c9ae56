import DaemonNode.Profiles.Residency

/-!
# Refused deliveries

A delivery that is refused should leave no trace. The ingest walk stashes a part
before it asks the schedule, so a refused delivery can have replaced one. It is
harmless when the replaced part is never folded, or is delivered again: the window
has been folded, or is not issued yet. It is not when the window is complete and
waits for an earlier one, for then it is folded with the part that was refused.

Two walks are compared that differ in their stash only. `Alike` says where they
may differ.
-/

namespace DaemonNode

open Machine
open DetState (stateElemBytes)
open Word (Overflow)
open Option (bind_eq_some_iff bind_some)

namespace WindowParts

variable {parts : WindowParts F32} {phase : IngestPhase}

/-- What is stashed of a part. -/
def content (parts : WindowParts F32) : IngestPart → Option (Arrival F32)
  | .roundBase => parts.roundBase.map .roundBase
  | .values peer => (parts.values[peer]?).map (.values peer)
  | .indices peer => (parts.indices[peer]?).map (.indices peer)

/-- Stashing what is stashed changes nothing. -/
theorem put_content (stashed : parts.content arrival.part = some arrival) :
    parts.put arrival = parts := by
  cases arrival with
  | roundBase state =>
    obtain ⟨_, found, ⟨⟩⟩ := Option.map_eq_some_iff.mp stashed
    rw [put, ← found]
  | values | indices =>
    obtain ⟨_, found, ⟨⟩⟩ := Option.map_eq_some_iff.mp stashed
    rw [put, Maps.insert_eq_self found]

/-- A part replaces an earlier delivery of it. -/
theorem put_put (same : first.part = second.part) :
    (parts.put first).put second = parts.put second := by
  cases first <;> cases second <;> simp_all [put, Arrival.part, Maps.insert_insert]

/-- Two stashes of a window that a phase folds alike. -/
def Same (phase : IngestPhase) (left right : WindowParts F32) : Prop :=
  match phase with
  | .norms => left.values = right.values
  | .fold => left = right

theorem Same.refl (phase : IngestPhase) (parts : WindowParts F32) : Same phase parts parts := by
  cases phase <;> rfl

theorem Same.put (same : Same phase left right) (arrival : Arrival F32) :
    Same phase (left.put arrival) (right.put arrival) := by
  cases phase with
  | norms =>
    have values : left.values = right.values := same
    cases arrival <;> simp [Same, WindowParts.put, values]
  | fold =>
    obtain rfl : left = right := same
    rfl

theorem Same.complete_eq (same : Same phase left right) (peers : Nat) :
    left.complete phase peers = right.complete phase peers := by
  cases phase with
  | norms =>
    have values : left.values = right.values := same
    rw [complete, complete, values]
  | fold =>
    obtain rfl : left = right := same
    rfl

/-- A part the phase does not read leaves the window as the phase folds it. -/
theorem same_put_of_unread (inRange : arrival.part.InRange peers)
    (unread : arrival.part ∉ phase.parts peers) :
    Same phase parts (parts.put arrival) := by
  cases phase with
  | norms =>
    cases arrival with
    | values peer rows => exact absurd (mem_parts_norms.mpr ⟨peer, inRange, rfl⟩) unread
    | roundBase | indices => rfl
  | fold => exact absurd (mem_parts_fold.mpr inRange) unread

end WindowParts

namespace SparseLocoIngestWalk

variable {floats : Floats F32 F64}
variable {walk after : SparseLocoIngestWalk F32 F64 Hasher}
variable {arrival : Arrival F32}
variable {parts : Std.ExtTreeMap Nat (WindowParts F32)}

/-- Two stashes that a walk folds alike: window by window both have nothing, or
the same for the phase, but for a window still to be delivered whose only part
was delivered early. -/
structure Alike (walk : SparseLocoIngestWalk F32 F64 Hasher)
    (parts : Std.ExtTreeMap Nat (WindowParts F32)) : Prop where
  present : ∀ window, walk.walk.nextFold ≤ window → ∀ own,
    walk.parts[window]? = some own →
      ∃ other, parts[window]? = some other ∧ WindowParts.Same walk.phase own other
  absent : ∀ window, walk.walk.nextFold ≤ window → walk.parts[window]? = none →
    parts[window]? = none ∨ ∃ early : Arrival F32,
      parts[window]? = some (.put .empty early) ∧ walk.phase.parts walk.peers = [early.part]

theorem Alike.refl (walk : SparseLocoIngestWalk F32 F64 Hasher) : walk.Alike walk.parts :=
  ⟨fun _ _ own found => ⟨own, found, .refl _ _⟩, fun _ _ none => .inl none⟩

/-- A walk with another stash that folds alike. -/
def Shadows (walk shadow : SparseLocoIngestWalk F32 F64 Hasher) : Prop :=
  ∃ parts, shadow = { walk with parts } ∧ walk.Alike parts

theorem foldOne_alike (found : walk.parts[ordinal]? = some own)
    (otherFound : parts[ordinal]? = some other) (same : WindowParts.Same walk.phase own other)
    (stepped : walk.foldOne floats xxh ordinal = some (folded, after)) :
    foldOne floats xxh { walk with parts } ordinal =
      some (folded, { after with parts := parts.erase ordinal }) := by
  obtain ⟨window, scheduled, stepped⟩ := bind_eq_some_iff.mp stepped
  unfold foldOne
  dsimp only
  rw [scheduled, otherFound]
  rw [found] at stepped
  dsimp only [Option.bind_eq_bind, bind_some] at stepped ⊢
  cases phase : walk.phase with
  | norms =>
    rw [phase] at stepped same
    obtain ⟨summed, added, stepped⟩ := bind_eq_some_iff.mp stepped
    obtain ⟨sumsq, squares, built⟩ := bind_eq_some_iff.mp added
    cases built
    cases stepped
    have values : own.values = other.values := same
    rw [values] at squares
    dsimp only [foldNorms]
    dsimp only at squares
    rw [squares]
    rfl
  | fold =>
    rw [phase] at stepped same
    obtain rfl : own = other := same
    obtain ⟨master, mastered, stepped⟩ := bind_eq_some_iff.mp stepped
    have alike : foldWindow floats
        { walk with parts := parts.erase ordinal, phase := .fold } window own =
        some master := mastered
    rw [alike]
    cases master with
    | error | ok =>
      cases stepped
      rfl

/-- The fold loop does the same with stashes it folds alike. -/
theorem foldWindows_alike (distinct : ordinals.Nodup)
    (alike : ∀ window ∈ ordinals, ∃ own other, walk.parts[window]? = some own ∧
      parts[window]? = some other ∧ WindowParts.Same walk.phase own other)
    (looped : walk.foldWindows floats xxh ordinals = some (folded, after)) :
    ∃ left, foldWindows floats xxh ordinals { walk with parts } =
        some (folded, { after with parts := left }) ∧
      ∀ window, window ∉ ordinals → left[window]? = parts[window]? := by
  induction ordinals generalizing walk parts folded with
  | nil =>
    cases looped
    exact ⟨parts, rfl, fun _ _ => rfl⟩
  | cons ordinal ordinals ih =>
    obtain ⟨absent, distinct⟩ := List.nodup_cons.mp distinct
    obtain ⟨⟨first, next⟩, stepped, looped⟩ := bind_eq_some_iff.mp looped
    obtain ⟨own, other, found, otherFound, same⟩ := alike ordinal List.mem_cons_self
    have stepped' := foldOne_alike found otherFound same stepped
    obtain ⟨sumsq, carry, rfl⟩ := foldOne_frame stepped
    rw [foldWindows, stepped']
    dsimp only [Option.bind_eq_bind, bind_some]
    cases first with
    | error refusal =>
      cases looped
      refine ⟨_, rfl, fun window outside => Maps.getElem?_erase_of_ne ?_⟩
      rintro rfl
      exact outside List.mem_cons_self
    | ok first =>
      obtain ⟨⟨rest, final⟩, looped, built⟩ := bind_eq_some_iff.mp looped
      cases built
      have still : ∀ window ∈ ordinals, ∃ own other,
          (walk.parts.erase ordinal)[window]? = some own ∧
          (parts.erase ordinal)[window]? = some other ∧
          WindowParts.Same walk.phase own other := by
        intro window member
        obtain ⟨own, other, found, otherFound, same⟩ := alike window (List.mem_cons_of_mem _ member)
        have different := ne_of_mem_of_not_mem member absent
        exact ⟨own, other, (Maps.getElem?_erase_of_ne different).trans found,
          (Maps.getElem?_erase_of_ne different).trans otherFound, same⟩
      obtain ⟨left, shadowed, kept⟩ := ih distinct still looped
      refine ⟨left, ?_, ?_⟩
      · dsimp only at shadowed ⊢
        rw [shadowed]
        rfl
      · intro window outside
        rw [List.mem_cons, not_or] at outside
        rw [kept window outside.2, Maps.getElem?_erase_of_ne outside.1]

theorem alike_stash_entry {phase : IngestPhase} {peers : Nat}
    (present : ∀ parts, own = some parts →
      ∃ shadow, other = some shadow ∧ WindowParts.Same phase parts shadow)
    (absent : own = none → other = none ∨ ∃ early : Arrival F32,
      other = some (.put .empty early) ∧ phase.parts peers = [early.part])
    (asked : arrival.part ∈ phase.parts peers) :
    WindowParts.Same phase ((own.getD .empty).put arrival) ((other.getD .empty).put arrival) := by
  cases own with
  | some parts =>
    obtain ⟨shadow, rfl, same⟩ := present parts rfl
    exact same.put arrival
  | none =>
    rcases absent rfl with rfl | ⟨early, rfl, only⟩
    · exact .refl _ _
    · rw [only, List.mem_singleton] at asked
      change WindowParts.Same phase _ ((WindowParts.put .empty early).put arrival)
      rw [WindowParts.put_put asked.symm]
      exact .refl _ _

/-- Stashing an expected part keeps two stashes alike, and its window the same. -/
theorem Alike.stashed (alike : walk.Alike parts)
    (asked : arrival.part ∈ walk.phase.parts walk.peers) (fresh : walk.walk.nextFold ≤ ordinal) :
    (walk.stash ordinal arrival).Alike (stash { walk with parts } ordinal arrival).parts ∧
      (stash { walk with parts } ordinal arrival).windowComplete ordinal =
        (walk.stash ordinal arrival).windowComplete ordinal := by
  have same := alike_stash_entry (alike.present ordinal fresh) (alike.absent ordinal fresh) asked
  refine ⟨⟨?_, ?_⟩, ?_⟩
  · intro window later own found
    by_cases here : window = ordinal
    · subst here
      rw [getElem?_stash_self] at found ⊢
      cases found
      exact ⟨_, rfl, same⟩
    · rw [getElem?_stash_of_ne here] at found ⊢
      exact alike.present window later own found
  · intro window later none
    by_cases here : window = ordinal
    · subst here
      rw [getElem?_stash_self] at none
      cases none
    · rw [getElem?_stash_of_ne here] at none ⊢
      exact alike.absent window later none
  · unfold windowComplete
    rw [getElem?_stash_self, getElem?_stash_self]
    exact (same.complete_eq walk.peers).symm

/-- What follows a completed window is the same with stashes that fold alike; the
stashes left are those of the other windows, or empty when the fold pass opens. -/
theorem advance_alike (walk : SparseLocoIngestWalk F32 F64 Hasher) (distinct : actions.fold.Nodup)
    (alike : ∀ window ∈ actions.fold, ∃ own other, walk.parts[window]? = some own ∧
      parts[window]? = some other ∧ WindowParts.Same walk.phase own other)
    (advanced : walk.advance floats xxh actions = some (answer, after)) :
    ∃ left, advance floats xxh { walk with parts } actions =
        some (answer, { after with parts := left }) ∧
      ((after.parts = ∅ ∧ left = ∅) ∨
        (∃ folded, walk.foldWindows floats xxh actions.fold = some (folded, after)) ∧
          ∀ window, window ∉ actions.fold → left[window]? = parts[window]?) := by
  obtain ⟨⟨folded, middle⟩, looped, advanced⟩ := bind_eq_some_iff.mp advanced
  obtain ⟨left, shadowed, kept⟩ := foldWindows_alike distinct alike looped
  unfold advance
  rw [shadowed]
  dsimp only [Option.bind_eq_bind, bind_some]
  cases folded with
  | error refusal =>
    cases advanced
    exact ⟨left, rfl, .inr ⟨⟨_, looped⟩, kept⟩⟩
  | ok emitted =>
    obtain ⟨issue, fetched, advanced⟩ := bind_eq_some_iff.mp advanced
    have fetches : fetchesFor { middle with parts := left } actions.issue = some issue := fetched
    dsimp only
    rw [fetches, bind_some]
    split at advanced
    · rename_i turns
      rw [if_pos turns]
      obtain ⟨⟨opening, opened⟩, advances, built⟩ := bind_eq_some_iff.mp advanced
      cases built
      obtain ⟨scale, issued, rfl, _, _⟩ := advanceToFold_eq advances
      have opens : advanceToFold floats { middle with parts := left } = _ := advances
      rw [opens]
      exact ⟨∅, rfl, .inl ⟨rfl, rfl⟩⟩
    · rename_i stays
      rw [if_neg stays]
      cases advanced
      exact ⟨left, rfl, .inr ⟨⟨_, looped⟩, kept⟩⟩

/-- An expected delivery is answered alike and leaves the stashes alike. -/
theorem Alike.delivered (alike : walk.Alike parts) (sound : walk.Sound)
    (expected : walk.Expects delivery.read)
    (stepped : step floats xxh walk delivery = some (after, output)) :
    ∃ left, step floats xxh { walk with parts } delivery =
        some ({ after with parts := left }, output) ∧ after.Alike left := by
  have decodes : decodePart floats { walk with parts } delivery.part delivery.ordinal
      delivery.bytes = walk.decodePart floats delivery.part delivery.ordinal delivery.bytes := by
    cases delivery.part <;> rfl
  obtain ⟨answer, rfl, delivers⟩ := step_eq_some_iff.mp stepped
  cases delivers with
  | unstarted unstarted =>
    rw [sound.started] at unstarted
    cases unstarted
  | torn started torn =>
    refine ⟨parts, step_eq_some_iff.mpr ⟨_, rfl, .torn started ?_⟩, alike⟩
    rw [decodes, torn]
  | @arriving arrival started decoded incomplete =>
    obtain ⟨same, _⟩ := sound.geometry.fits_of_decodePart decoded
    have asked : arrival.part ∈ walk.phase.parts walk.peers := same ▸ expected.1
    obtain ⟨stashed, complete⟩ := alike.stashed asked expected.2.1.1
    refine ⟨_, step_eq_some_iff.mpr ⟨_, rfl, .arriving started ?_ ?_⟩, stashed⟩
    · rw [decodes, decoded]
    · exact complete.trans incomplete
  | refused _ _ _ unasked => exact absurd unasked (sound.outstanding expected)
  | @accepted arrival actions cursor _ _ started decoded complete completed advanced =>
    obtain ⟨same, own⟩ := sound.geometry.fits_of_decodePart decoded
    have asked : arrival.part ∈ walk.phase.parts walk.peers := same ▸ expected.1
    obtain ⟨completes, _, ready, _⟩ :=
      sound.advances (inRange_of_mem_parts asked) own complete completed advanced
    obtain ⟨stashed, completeSame⟩ := alike.stashed asked expected.2.1.1
    have folds : ∀ window ∈ actions.fold, ∃ own other,
        (walk.stash delivery.ordinal arrival).parts[window]? = some own ∧
          (stash { walk with parts } delivery.ordinal arrival).parts[window]? =
            some other ∧ WindowParts.Same walk.phase own other := by
      intro window member
      obtain ⟨_, own, _, found, _⟩ := ready window member
      obtain ⟨other, otherFound, same⟩ :=
        stashed.present window (completes.mem_fold_iff.mp member).1 own found
      exact ⟨own, other, found, otherFound, same⟩
    obtain ⟨left, advances, outcome⟩ := advance_alike
      { walk.stash delivery.ordinal arrival with walk := cursor }
      completes.nodup_fold folds advanced
    refine ⟨left, step_eq_some_iff.mpr ⟨_, rfl, .accepted started ?_
      (completeSame.trans complete) completed advances⟩, ?_⟩
    · rw [decodes, decoded]
    · rcases outcome with ⟨empty, rfl⟩ | ⟨⟨folded, looped⟩, kept⟩
      · rw [← empty]
        exact .refl _
      · obtain ⟨rest, sumsq, carry, rfl, outside, _⟩ := foldWindows_frame looped
        have later : ∀ window, cursor.nextFold ≤ window →
            window ∉ actions.fold ∧ walk.walk.nextFold ≤ window := by
          intro window fresh
          have advances := completes.advances
          rw [completes.mem_fold_iff]
          omega
        refine ⟨fun window fresh own found => ?_, fun window fresh none => ?_⟩
        · obtain ⟨unfolded, fresh⟩ := later window fresh
          rw [kept window unfolded]
          exact stashed.present window fresh own ((outside window unfolded).symm.trans found)
        · obtain ⟨unfolded, fresh⟩ := later window fresh
          rw [kept window unfolded]
          exact stashed.absent window fresh ((outside window unfolded).symm.trans none)

theorem Shadows.run {inFlight peers : Nat}
    {started middle final shadow : SparseLocoIngestWalk F32 F64 Hasher}
    (opened : Opened opening started inFlight peers)
    (first : Run (graph (step floats xxh)) started before middle)
    (rest : Run (graph (step floats xxh)) middle later final)
    (orderly : Orderly opening (before ++ later)) (shadows : middle.Shadows shadow) :
    ∃ trace ended,
      Run (graph (step floats xxh)) shadow trace ended ∧
        trace.map Step.input = later.map Step.input ∧
        trace.map Step.output = later.map Step.output ∧
        final.Shadows ended := by
  refine rest.shadow ?_ shadows
  rintro earlier recorded remaining parted _ ⟨parts, rfl, alike⟩
  obtain ⟨reached, stepped⟩ := rest.split parted
  have whole : before ++ later = (before ++ earlier) ++ recorded :: remaining := by
    rw [parted, List.append_assoc]
  have tracked := tracked_of_run opened (first.append reached) (whole ▸ orderly).of_append
  have expected := tracked.expects (orderly (before ++ earlier) recorded remaining whole)
  obtain ⟨left, answered, stillAlike⟩ := alike.delivered tracked.sound expected stepped
  exact ⟨_, answered, left, rfl, stillAlike⟩

/-- A delivery that replaces a part still to be folded: of a window that has all
its parts and waits for an earlier one, read by the phase in flight, and not what
is stashed. -/
def Replaces (floats : Floats F32 F64) (walk : SparseLocoIngestWalk F32 F64 Hasher)
    (delivery : Delivery) : Prop :=
  delivery.ordinal ∈ walk.walk.pending ∧
    delivery.part ∈ walk.phase.parts walk.peers ∧
      ∃ arrival, walk.decodePart floats delivery.part delivery.ordinal delivery.bytes =
          some (.ok arrival) ∧
        (walk.entry delivery.ordinal).content delivery.part ≠ some arrival

instance [DecidableEq F32] (floats : Floats F32 F64)
    (walk : SparseLocoIngestWalk F32 F64 Hasher) (delivery : Delivery) :
    Decidable (walk.Replaces floats delivery) :=
  match decoded : walk.decodePart floats delivery.part delivery.ordinal delivery.bytes with
  | some (.ok arrival) =>
    decidable_of_iff (delivery.ordinal ∈ walk.walk.pending ∧
        delivery.part ∈ walk.phase.parts walk.peers ∧
          (walk.entry delivery.ordinal).content delivery.part ≠ some arrival)
      (by simp [Replaces, decoded])
  | some (.error _) => isFalse fun replaces => by simp [Replaces, decoded] at replaces
  | none => isFalse fun replaces => by simp [Replaces, decoded] at replaces

/-- A window with nothing stashed that one part completes has no other part. -/
theorem parts_eq_singleton (sound : walk.Sound) (inRange : arrival.part.InRange walk.peers)
    (nothing : walk.parts[ordinal]? = none)
    (complete : (walk.stash ordinal arrival).windowComplete ordinal = true) :
    walk.phase.parts walk.peers = [arrival.part] := by
  have only : ∀ part ∈ walk.phase.parts walk.peers, part = arrival.part := by
    intro part member
    have holds := (windowComplete_iff (walk.stash ordinal arrival) sound.nonempty
      fun part => sound.inRange_stash inRange).mp complete part member
    rcases held_stash.mp holds with ⟨same, _⟩ | earlier
    · exact same
    · have member := mem_parts_of_held earlier
      rw [← Std.ExtTreeMap.isSome_getElem?_iff_mem, nothing] at member
      cases member
  have repeated := List.eq_replicate_of_mem only
  have distinct := nodup_parts walk.phase walk.peers
  rw [repeated, List.nodup_replicate] at distinct
  rw [repeated, distinct.antisymm (List.length_pos_iff.mpr sound.nonempty)]
  rfl

/-- A refused delivery that replaces nothing leaves a shadow of the walk. -/
theorem shadows_of_refused (sound : walk.Sound) (inRange : delivery.part.InRange walk.peers)
    (harmless : ¬walk.Replaces floats delivery)
    (refused : walk.onPartReady floats xxh delivery.part delivery.ordinal delivery.bytes =
      some (.error refusal, after)) :
    walk.Shadows after := by
  cases onPartReady_eq_some_iff.mp refused with
  | unstarted unstarted =>
    rw [sound.started] at unstarted
    cases unstarted
  | torn => exact ⟨walk.parts, rfl, .refl walk⟩
  | @refused arrival _ decoded complete unasked =>
    refine ⟨(walk.stash delivery.ordinal arrival).parts, rfl, ?_⟩
    obtain ⟨same, _⟩ := sound.geometry.fits_of_decodePart decoded
    rw [← same] at inRange
    constructor
    · intro window fresh own found
      by_cases here : window = delivery.ordinal
      · subst here
        have member : delivery.ordinal ∈ walk.parts := by
          rw [← Std.ExtTreeMap.isSome_getElem?_iff_mem, found]
          rfl
        have issued := (sound.inside _ member).2
        have waits := (unasked.resolve_left (by omega)).resolve_left (by omega)
        refine ⟨_, getElem?_stash_self, ?_⟩
        have entry_eq : walk.entry delivery.ordinal = own := by
          rw [entry, found]
          rfl
        rw [entry_eq]
        by_cases asked : arrival.part ∈ walk.phase.parts walk.peers
        · have stashed : own.content arrival.part = some arrival := by
            by_contra different
            apply harmless
            refine ⟨waits, same ▸ asked, arrival, decoded, ?_⟩
            rwa [entry_eq, ← same]
          rw [WindowParts.put_content stashed]
          exact .refl _ _
        · exact WindowParts.same_put_of_unread inRange asked
      · rw [getElem?_stash_of_ne here]
        exact ⟨own, found, .refl _ _⟩
    · intro window fresh none
      by_cases here : window = delivery.ordinal
      · subst here
        refine .inr ⟨arrival, ?_, parts_eq_singleton sound inRange none complete⟩
        rw [getElem?_stash_self, entry, none]
        rfl
      · rw [getElem?_stash_of_ne here]
        exact .inl none
  | @accepted arrival actions cursor _ _ _ decoded complete completed advanced =>
    obtain ⟨same, own⟩ := sound.geometry.fits_of_decodePart decoded
    have asked : arrival.part.InRange walk.peers := same ▸ inRange
    obtain ⟨_, _, _, _, _, _, _, _, outcome⟩ := sound.advances asked own complete completed advanced
    rcases outcome with ⟨_, _, _, _, answered⟩ | ⟨_, _, _, answered⟩
    · cases answered
    · cases answered

/-- A checked execution with a delivery that is refused on the way. -/
theorem exists_refusal_of_check (floats : Floats F32 F64) (xxh : Xxh3 Hasher) (mode : Overflow)
    (cfg : SparseLocoCfg F64) (numels : List Nat) (windowSize inFlight peers : Nat)
    (carry : DigestCarry Hasher) (early late : List Delivery) (extra : Delivery)
    (holds : IngestSlice F32 → List (Delivered F32 F64 Hasher) →
      SparseLocoIngestWalk F32 F64 Hasher → List (Delivered F32 F64 Hasher) →
        SparseLocoIngestWalk F32 F64 Hasher → SparseLocoIngestWalk F32 F64 Hasher → Prop)
    [∀ opening before middle after final, DecidablePred (holds opening before middle after final)]
    (checked : ((new floats mode cfg numels windowSize inFlight peers carry).any
      fun result => result.toOption.any fun fresh =>
        (fresh.start floats).any fun begun => begun.1.toOption.any fun opening =>
          (exec (step floats xxh) begun.2 early).any fun halfway =>
            (exec (step floats xxh) halfway.2 late).any fun done =>
              (halfway.2.onPartReady floats xxh extra.part extra.ordinal extra.bytes).any
                fun answered => !answered.1.isOk &&
                  holds opening halfway.1 halfway.2 done.1 done.2 answered.2) = true) :
    ∃ fresh opening started before middle after final refusal disturbed,
      new floats mode cfg numels windowSize inFlight peers carry = some (.ok fresh) ∧
        fresh.start floats = some (.ok opening, started) ∧
        Run (graph (step floats xxh)) started before middle ∧
        Run (graph (step floats xxh)) middle after final ∧
        middle.onPartReady floats xxh extra.part extra.ordinal extra.bytes =
          some (.error refusal, disturbed) ∧
        holds opening before middle after final disturbed := by
  simp only [Option.any_eq_true, Bool.and_eq_true, decide_eq_true_eq] at checked
  obtain ⟨_ | fresh, built, _, ⟨⟩, ⟨_ | opening, started⟩, begun, _, ⟨⟩, halfway, first, done, rest,
    ⟨refusal | slice, disturbed⟩, answered, refused, held⟩ := checked
  · exact ⟨fresh, opening, started, halfway.1, halfway.2, done.1, done.2, refusal, disturbed,
      built, begun, .of_exec first, .of_exec rest, answered, held⟩
  · cases refused

end SparseLocoIngestWalk

open SparseLocoIngestWalk in
/-- A refused delivery that replaces no part still to be folded changes nothing
that follows: the same deliveries get the same answers, emit the same windows and
end with the same digest carry. -/
theorem refused_delivery_harmless {floats : Floats F32 F64} {xxh : Xxh3 Hasher} {mode : Overflow}
    {cfg : SparseLocoCfg F64} {numels : List Nat} {windowSize inFlight peers : Nat}
    {carry : DigestCarry Hasher} (fits : (numels.map (· * stateElemBytes)).sum < 2 ^ 64)
    {fresh started middle final disturbed : SparseLocoIngestWalk F32 F64 Hasher}
    (built : new floats mode cfg numels windowSize inFlight peers carry = some (.ok fresh))
    {opening : IngestSlice F32} (begun : fresh.start floats = some (.ok opening, started))
    {before after : List (Delivered F32 F64 Hasher)}
    (first : Run (graph (step floats xxh)) started before middle)
    (rest : Run (graph (step floats xxh)) middle after final)
    (orderly : Orderly opening (before ++ after)) {extra : Delivery} {refusal : String}
    (inRange : extra.part.InRange peers)
    (refused : middle.onPartReady floats xxh extra.part extra.ordinal extra.bytes =
      some (.error refusal, disturbed))
    (harmless : ¬middle.Replaces floats extra) :
    ∃ trace ended,
      Run (graph (step floats xxh)) disturbed trace ended ∧
        trace.map Step.input = after.map Step.input ∧
        trace.map Step.output = after.map Step.output ∧
        ended.carry = final.carry ∧
        ended.sealCarry = final.sealCarry := by
  have opened := opened_of_start (fresh_of_new fits built) begun
  have tracked := tracked_of_run opened first orderly.of_append
  have shadows := shadows_of_refused tracked.sound (tracked.peers ▸ inRange) harmless refused
  obtain ⟨trace, ended, run, inputs, outputs, parts, rfl, _⟩ :=
    Shadows.run opened first rest orderly shadows
  exact ⟨trace, _, run, inputs, outputs, rfl, rfl⟩

open SparseLocoIngestWalk in
/-- Four windows, two in flight: the second window waits for the first, and its round
base comes once more. -/
theorem duplicate_round_base_harmless :
    ∃ (middle disturbed final ended : SparseLocoIngestWalk Nat Nat (Nat × List Byte))
        (refusal : String)
        (after trace : List (Delivered Nat Nat (Nat × List Byte))),
      1 ∈ middle.walk.pending ∧
        middle.onPartReady sampleFloats sampleXxh3 .roundBase 1 [7, 0, 0, 0] =
          some (.error refusal, disturbed) ∧
        Run (graph (step sampleFloats sampleXxh3)) middle after final ∧
        final.walk.sealed = true ∧
        Run (graph (step sampleFloats sampleXxh3)) disturbed trace ended ∧
        trace.map Step.output = after.map Step.output ∧
        ended.sealCarry = final.sealCarry := by
  obtain ⟨fresh, opening, started, before, middle, after, final, refusal, disturbed, built,
    begun, first, rest, refused, waits, seals, orderly, harmless⟩ :=
    exists_refusal_of_check sampleFloats sampleXxh3 .trap sampleCfg [4] 4 2 1 sampleCarry
      (sampleWindow 1 7) ([0, 2, 3].flatMap fun ordinal => sampleWindow ordinal 7)
      ⟨.roundBase, 1, [7, 0, 0, 0]⟩
      (fun opening before middle after final _ =>
        1 ∈ middle.walk.pending ∧ final.walk.sealed = true ∧ Orderly opening (before ++ after) ∧
          ¬middle.Replaces sampleFloats ⟨.roundBase, 1, [7, 0, 0, 0]⟩)
      (by decide +kernel)
  have inRange : IngestPart.InRange 1 (Delivery.mk .roundBase 1 [7, 0, 0, 0]).part := trivial
  obtain ⟨trace, ended, run, _, outputs, _, same⟩ := refused_delivery_harmless (by decide)
    built begun first rest orderly inRange refused harmless
  exact ⟨middle, disturbed, final, ended, refusal, after, trace, waits, refused, rest,
    seals, run, outputs, same⟩

open SparseLocoIngestWalk in
/-- The same walk, with other bytes in the round base that comes once more: it is
refused, and folded. -/
theorem refused_round_base_folded :
    ∃ (fresh started middle disturbed final ended : SparseLocoIngestWalk Nat Nat (Nat × List Byte))
        (opening : IngestSlice Nat) (refusal : String)
        (before after trace : List (Delivered Nat Nat (Nat × List Byte))),
      new sampleFloats .trap sampleCfg [4] 4 2 1 sampleCarry = some (.ok fresh) ∧
        fresh.start sampleFloats = some (.ok opening, started) ∧
        Run (graph (step sampleFloats sampleXxh3)) started before middle ∧
        Run (graph (step sampleFloats sampleXxh3)) middle after final ∧
        Orderly opening (before ++ after) ∧
        middle.onPartReady sampleFloats sampleXxh3 .roundBase 1 [9, 0, 0, 0] =
          some (.error refusal, disturbed) ∧
        Run (graph (step sampleFloats sampleXxh3)) disturbed trace ended ∧
        trace.map Step.input = after.map Step.input ∧
        (slices trace).flatMap IngestSlice.emitted ≠ (slices after).flatMap IngestSlice.emitted ∧
        ended.carry.hasher ≠ final.carry.hasher := by
  obtain ⟨fresh, opening, started, before, middle, after, final, refusal, disturbed, built,
    begun, first, rest, refused, checked⟩ :=
    exists_refusal_of_check sampleFloats sampleXxh3 .trap sampleCfg [4] 4 2 1 sampleCarry
      (sampleWindow 1 7) ([0, 2, 3].flatMap fun ordinal => sampleWindow ordinal 7)
      ⟨.roundBase, 1, [9, 0, 0, 0]⟩
      (fun opening before middle after final disturbed =>
        (exec (step sampleFloats sampleXxh3) disturbed
          ([0, 2, 3].flatMap fun ordinal => sampleWindow ordinal 7)).any
            fun (trace, ended) => Orderly opening (before ++ after) ∧
              trace.map Step.input = after.map Step.input ∧
              (slices trace).flatMap IngestSlice.emitted ≠
                (slices after).flatMap IngestSlice.emitted ∧
              ended.carry.hasher ≠ final.carry.hasher)
      (by decide +kernel)
  obtain ⟨⟨trace, ended⟩, executed, checked⟩ := (Option.any_eq_true _ _).mp checked
  obtain ⟨orderly, inputs, differ⟩ := of_decide_eq_true checked
  exact ⟨fresh, started, middle, disturbed, final, ended, opening, refusal, before, after,
    trace, built, begun, first, rest, orderly, refused, .of_exec executed, inputs, differ⟩

end DaemonNode
