import DaemonNode.Host.Pairing

/-!
# What a pairing code admits

The armings and exchanges of one generation are an account of attempts: arming issues
the ticket, an admission takes it, an exchange that ends gives it back, and whatever
else takes the code out of the state retires it. Each step of the node is a move of
the account of every generation.
-/

namespace DaemonNode.Pairing

open Attempts Machine
open State (failAttempt succeed admission)

variable {Scalar : Type}

/-- What holds of a code that is not the armed one. -/
def past (installed : Bool) : Standing :=
  if installed then .retired else .unissued

/-- What holds of the code of a generation. -/
def State.standing (generation : Nat) (installed : Bool) : State Scalar → Standing
  | .armed code =>
    if code.generation = generation then .live code.attemptsRemaining code.inFlight
    else past installed
  | .disarmed => past installed
  | .locked => past installed

namespace Node

section

variable (generation : Nat) (node : Node Scalar)

/-- The code of a generation was put in place. -/
def installed : Bool :=
  node.arms.any fun arm => arm.generation = generation ∧ arm.phase = .installed

/-- The exchanges ever admitted under the code of a generation. -/
def admitted : Nat :=
  node.exchanges.countP fun exchange => exchange.generation = generation

/-- Those that have not ended. -/
def flying : Nat :=
  node.exchanges.countP fun exchange =>
    exchange.generation = generation ∧ exchange.phase.inFlight = true

/-- Those that enrolled a device. -/
def enrolled : Nat :=
  node.exchanges.countP fun exchange =>
    exchange.generation = generation ∧ exchange.phase = .enrolled

def account : Account where
  standing := node.state.standing generation (node.installed generation)
  admitted := node.admitted generation
  running := node.flying generation
  succeeded := node.enrolled generation

end

@[simp] theorem account_standing (generation : Nat) (node : Node Scalar) :
    (node.account generation).standing =
      node.state.standing generation (node.installed generation) := rfl

@[simp] theorem account_admitted (generation : Nat) (node : Node Scalar) :
    (node.account generation).admitted = node.admitted generation := rfl

@[simp] theorem account_running (generation : Nat) (node : Node Scalar) :
    (node.account generation).running = node.flying generation := rfl

@[simp] theorem account_succeeded (generation : Nat) (node : Node Scalar) :
    (node.account generation).succeeded = node.enrolled generation := rfl

/-- What the steps keep of the armings, and that every account is sound. -/
structure Regular (node : Node Scalar) : Prop where
  drawn : node.arms.length = node.generations
  numbered : ∀ (index : Nat) (arm : Arming Scalar),
    node.arms[index]? = some arm → arm.generation = index + 1
  placed : ∀ code, node.state = .armed code → node.installed code.generation = true
  sound : ∀ generation, Sound pairingAttempts (node.account generation)

end Node

variable {other : Nat}

section Standing

variable {generation now : Nat} {installed : Bool} {state : State Scalar} {code : Armed Scalar}

@[simp] theorem past_retire : (past installed).retire = past installed := by
  cases installed <;> rfl

@[simp] theorem past_spend : (past installed).spend = past installed := by
  cases installed <;> rfl

theorem standing_armed (same : code.generation = generation) :
    (State.armed code).standing generation installed = .live code.attemptsRemaining code.inFlight :=
  if_pos same

theorem standing_armed_of_ne (other : code.generation ≠ generation) :
    (State.armed code).standing generation installed = past installed :=
  if_neg other

/-- A state without the code says what holds of it otherwise. -/
theorem standing_of_absent (absent : ∀ code, state = .armed code → code.generation ≠ generation) :
    state.standing generation installed = past installed := by
  cases state with
  | disarmed | locked => rfl
  | armed code => exact standing_armed_of_ne (absent code rfl)

section Placed

variable (placed : ∀ code, state = .armed code → code.generation = generation → installed = true)

include placed

/-- Taking the armed code away retires it. -/
theorem past_eq_retire : past installed = (state.standing generation installed).retire := by
  cases state with
  | disarmed | locked => exact past_retire.symm
  | armed code =>
    by_cases same : code.generation = generation
    · rw [standing_armed same, placed code rfl same]
      rfl
    · rw [standing_armed_of_ne same, past_retire]

theorem standing_expireIfStale :
    (state.expireIfStale now).standing generation installed =
        (state.standing generation installed).retire ∨
      (state.expireIfStale now).standing generation installed =
        state.standing generation installed := by
  cases state with
  | disarmed | locked => exact .inr rfl
  | armed code =>
    rw [State.expireIfStale]
    split
    · exact .inl (past_eq_retire placed)
    · exact .inr rfl

/-- A failed exchange spends a unit of its own code. -/
theorem standing_failAttempt :
    (state.failAttempt generation).standing generation installed =
      (state.standing generation installed).spend := by
  cases state with
  | disarmed | locked => exact past_spend.symm
  | armed code =>
    by_cases same : code.generation = generation
    · rw [standing_armed same, failAttempt, if_pos same, Standing.spend]
      split
      · rw [placed code rfl same]
        rfl
      · exact standing_armed same
    · rw [failAttempt, if_neg same, standing_armed_of_ne same, past_spend]

theorem standing_succeed :
    (state.succeed generation).standing generation installed =
      (state.standing generation installed).retire := by
  rw [← past_eq_retire placed]
  cases state with
  | disarmed | locked => rfl
  | armed code =>
    by_cases same : code.generation = generation
    · rw [succeed, if_pos same]
      rfl
    · rw [succeed, if_neg same, standing_armed_of_ne same]

end Placed

/-- A failed exchange leaves every other code alone. -/
theorem standing_failAttempt_of_ne (different : other ≠ generation) :
    (state.failAttempt other).standing generation installed =
      state.standing generation installed := by
  cases state with
  | disarmed | locked => rfl
  | armed code =>
    by_cases same : code.generation = other
    · rw [failAttempt, if_pos same, standing_armed_of_ne (same.trans_ne different)]
      split
      · rfl
      · exact standing_armed_of_ne (same.trans_ne different)
    · rw [failAttempt, if_neg same]

theorem standing_succeed_of_ne (different : other ≠ generation) :
    (state.succeed other).standing generation installed = state.standing generation installed := by
  cases state with
  | disarmed | locked => rfl
  | armed code =>
    by_cases same : code.generation = other
    · rw [succeed, if_pos same, standing_armed_of_ne (same.trans_ne different)]
      rfl
    · rw [succeed, if_neg same]

end Standing

section Moves

variable {node after : Node Scalar} {generation index : Nat} {exchange : Exchange Scalar}
variable {phase : ExchangePhase} {state : State Scalar}

/-- The armed code was put in place. -/
theorem Node.Regular.placed_at (regular : node.Regular) (generation : Nat) :
    ∀ code, node.state = .armed code → code.generation = generation →
      node.installed generation = true := by
  intro code armed same
  rw [← same]
  exact regular.placed code armed

section

variable (found : node.exchanges[index]? = some exchange)

include found

/-- An exchange that goes on is counted where it was. -/
theorem admitted_settle :
    (node.settle index exchange phase state).admitted generation = node.admitted generation := by
  have counted :
      (node.settle index exchange phase state).admitted generation +
          (decide (exchange.generation = generation)).toNat =
        node.admitted generation + (decide (exchange.generation = generation)).toNat :=
    Lists.countP_set_add found
  exact Nat.add_right_cancel counted

theorem flying_settle (generation : Nat) (phase : ExchangePhase) (state : State Scalar) :
    (node.settle index exchange phase state).flying generation +
        (decide (exchange.generation = generation ∧ exchange.phase.inFlight = true)).toNat =
      node.flying generation +
        (decide (exchange.generation = generation ∧ phase.inFlight = true)).toNat :=
  Lists.countP_set_add found

theorem enrolled_settle (generation : Nat) (phase : ExchangePhase) (state : State Scalar) :
    (node.settle index exchange phase state).enrolled generation +
        (decide (exchange.generation = generation ∧ exchange.phase = .enrolled)).toNat =
      node.enrolled generation +
        (decide (exchange.generation = generation ∧ phase = .enrolled)).toNat :=
  Lists.countP_set_add found

omit found in
theorem ne_enrolled_of_inFlight (open' : phase.inFlight = true) : phase ≠ .enrolled := by
  rintro rfl
  cases open'

/-- An exchange of another generation is not counted. -/
theorem account_settle_of_ne (different : exchange.generation ≠ generation)
    (same : state.standing generation (node.installed generation) =
      node.state.standing generation (node.installed generation)) :
    (node.settle index exchange phase state).account generation = node.account generation := by
  ext
  · exact same
  · exact admitted_settle found
  · simpa [different] using flying_settle found generation phase state
  · simpa [different] using enrolled_settle found generation phase state

/-- A challenge changes no account. -/
theorem account_respond (starting : exchange.phase = .starting) :
    (node.settle index exchange (.pending displayName) node.state).account generation =
      node.account generation := by
  ext
  · rfl
  · exact admitted_settle found
  · simpa [starting] using flying_settle found generation (.pending displayName) node.state
  · simpa [starting] using enrolled_settle found generation (.pending displayName) node.state

/-- How an exchange that ends shows in the account of its code. -/
theorem account_ends (open' : exchange.phase.inFlight = true) (ended : phase.inFlight = false) :
    (node.settle index exchange phase state).flying exchange.generation + 1 =
        node.flying exchange.generation ∧
      (node.settle index exchange phase state).account exchange.generation =
        { node.account exchange.generation with
          standing := state.standing exchange.generation (node.installed exchange.generation)
          running := (node.settle index exchange phase state).flying exchange.generation
          succeeded :=
            node.enrolled exchange.generation + (decide (phase = .enrolled)).toNat } := by
  constructor
  · simpa [open', ended] using flying_settle found exchange.generation phase state
  · ext
    · rfl
    · exact admitted_settle found
    · rfl
    · simpa [ne_enrolled_of_inFlight open'] using
        enrolled_settle found exchange.generation phase state

variable (regular : node.Regular) (open' : exchange.phase.inFlight = true)

include regular open'

theorem account_fail :
    Move pairingAttempts (node.account generation)
      ((node.fail index exchange).account generation) := by
  rw [Node.fail]
  by_cases same : exchange.generation = generation
  · subst same
    obtain ⟨running, spent⟩ :=
      account_ends found open' (show ExchangePhase.failed.inFlight = _ from rfl)
    rw [spent, standing_failAttempt (regular.placed_at _)]
    exact .failed _ running.symm
  · rw [account_settle_of_ne found same (standing_failAttempt_of_ne same)]
    exact .stay

theorem account_enrol :
    Move pairingAttempts (node.account generation)
      ((node.settle index exchange .enrolled
        (node.state.succeed exchange.generation)).account generation) := by
  by_cases same : exchange.generation = generation
  · subst same
    obtain ⟨running, used⟩ :=
      account_ends found open' (show ExchangePhase.enrolled.inFlight = _ from rfl)
    rw [used, standing_succeed (regular.placed_at _)]
    exact .succeeded _ running.symm
  · rw [account_settle_of_ne found same (standing_succeed_of_ne same)]
    exact .stay

end

/-- A step that leaves the exchanges alone, and with them what is admitted, running and
enrolled, keeps the standing of a code or retires it. -/
theorem move_of_standing (exchanges : after.exchanges = node.exchanges)
    (standing : after.state.standing generation (after.installed generation) =
        (node.state.standing generation (node.installed generation)).retire ∨
      after.state.standing generation (after.installed generation) =
        node.state.standing generation (node.installed generation)) :
    Move pairingAttempts (node.account generation) (after.account generation) := by
  have same : after.account generation = { node.account generation with
      standing := after.state.standing generation (after.installed generation) } := by
    simp only [Node.account, Node.admitted, Node.flying, Node.enrolled, exchanges]
  rw [same]
  rcases standing with retired | kept
  · rw [retired]
    exact .retire
  · rw [kept]
    exact .stay

theorem account_observe (regular : node.Regular) :
    Move pairingAttempts (node.account generation) (node.observe.account generation) :=
  move_of_standing rfl (standing_expireIfStale (regular.placed_at generation))

theorem armed_of_expireIfStale (fresh : state.expireIfStale now = .armed code) :
    state = .armed code ∧ now < code.deadline := by
  cases state with
  | disarmed | locked => cases fresh
  | armed other =>
    rw [State.expireIfStale] at fresh
    split at fresh
    · cases fresh
    · cases fresh
      exact ⟨rfl, by omega⟩

/-- Admit an exchange under a code. -/
def Node.started (clientFp : String) (code : Armed Scalar) (node : Node Scalar) : Node Scalar :=
  { node with
    state := .armed { code with inFlight := true }
    exchanges := node.exchanges ++ [⟨code.w, code.generation, clientFp, .starting⟩] }

/-- Admission is refused, or takes a live code that is free. -/
theorem start_cases (clientFp : String) (node : Node Scalar) :
    (∃ refusal, node.start clientFp = (node.observe, [.refused refusal])) ∨
      ∃ code, node.state = .armed code ∧ node.now < code.deadline ∧ code.inFlight = false ∧
        node.start clientFp = (node.started clientFp code, [.admitted node.exchanges.length]) := by
  cases fresh : node.state.expireIfStale node.now with
  | disarmed =>
    refine .inl ⟨.notArmed, ?_⟩
    simp only [Node.start, fresh, admission, Node.observe]
  | locked =>
    refine .inl ⟨.locked, ?_⟩
    simp only [Node.start, fresh, admission, Node.observe]
  | armed code =>
    cases busy : code.inFlight with
    | true =>
      refine .inl ⟨.failed, ?_⟩
      simp only [Node.start, fresh, admission, busy, Node.observe, ↓reduceIte]
    | false =>
      obtain ⟨armed, early⟩ := armed_of_expireIfStale fresh
      refine .inr ⟨code, armed, early, busy, ?_⟩
      simp only [Node.start, fresh, admission, busy, Bool.false_eq_true, ↓reduceIte, Node.started]

theorem account_start (regular : node.Regular) (clientFp : String) :
    Move pairingAttempts (node.account generation)
      ((node.start clientFp).1.account generation) := by
  rcases start_cases clientFp node with ⟨refusal, refused⟩ | ⟨code, armed, -, free, admitted⟩
  · rw [refused]
    exact account_observe regular
  · rw [admitted]
    by_cases same : code.generation = generation
    · have live : (node.account generation).standing =
          .live code.attemptsRemaining false := by
        rw [Node.account_standing, armed, standing_armed same, free]
      have taken : (node.started clientFp code).account generation =
          { node.account generation with
            standing := .live code.attemptsRemaining true
            admitted := (node.account generation).admitted + 1
            running := (node.account generation).running + 1 } := by
        ext
        · exact standing_armed same
        · simp [Node.started, Node.admitted, same]
        · simp [Node.started, Node.flying, same]
        · simp [Node.started, Node.enrolled]
      rw [taken]
      exact .admitted _ live
    · have kept : (node.started clientFp code).account generation = node.account generation := by
        ext
        · rw [Node.account_standing, Node.account_standing, armed, standing_armed_of_ne same]
          exact standing_armed_of_ne same
        · simp [Node.started, Node.admitted, same]
        · simp [Node.started, Node.flying, same]
        · simp [Node.started, Node.enrolled]
      rw [kept]
      exact .stay

/-- A code that is still on its way was not put in place. -/
theorem Node.Regular.not_installed (regular : node.Regular)
    (found : node.arms[index]? = some arm) (waiting : arm.phase ≠ .installed) :
    node.installed arm.generation = false := by
  rw [Node.installed, List.any_eq_false]
  intro twin member
  obtain ⟨other, there⟩ := List.mem_iff_getElem?.mp member
  simp only [decide_eq_true_eq, not_and]
  intro same
  -- two armings of one generation are one
  have first := regular.numbered index arm found
  have second := regular.numbered other twin there
  obtain rfl : index = other := by omega
  rw [← Option.some.inj (found.symm.trans there)]
  exact waiting

/-- A code shows as put in place in its own generation only. -/
theorem installed_set {phase : ArmPhase}
    (found : node.arms[index]? = some arm) (waiting : arm.phase ≠ .installed)
    (set : after.arms = node.arms.set index { arm with phase := phase }) :
    after.installed generation =
      (node.installed generation || decide (arm.generation = generation ∧ phase = .installed)) := by
  rw [Node.installed, set]
  apply Lists.any_set_of_not found
  exact decide_eq_false fun held => waiting held.2

/-- Replacing one arming by a later stage of it keeps the numbers. -/
theorem numbered_set {phase : ArmPhase} (regular : node.Regular)
    (found : node.arms[index]? = some arm) (other : Nat) (twin : Arming Scalar)
    (there : (node.arms.set index { arm with phase := phase })[other]? = some twin) :
    twin.generation = other + 1 := by
  rcases Lists.getElem?_set_cases there with ⟨rfl, rfl⟩ | ⟨-, older⟩
  · exact regular.numbered other arm found
  · exact regular.numbered other twin older

theorem account_install (regular : node.Regular) (found : node.arms[index]? = some arm)
    (stamped : arm.phase = .stamped deadline) :
    Move pairingAttempts (node.account generation)
      ((node.install index arm deadline).account generation) := by
  have waiting : arm.phase ≠ .installed := by
    rw [stamped]
    exact nofun
  have placed : (node.install index arm deadline).installed generation =
      (node.installed generation ||
        decide (arm.generation = generation ∧ ArmPhase.installed = .installed)) :=
    installed_set found waiting rfl
  by_cases same : arm.generation = generation
  · have absent : ∀ code, node.state = .armed code → code.generation ≠ generation := by
      intro code armed here
      have there := regular.placed code armed
      rw [here, ← same, regular.not_installed found waiting] at there
      cases there
    have unissued : (node.account generation).standing = .unissued := by
      rw [Node.account_standing, standing_of_absent absent, ← same,
        regular.not_installed found waiting]
      rfl
    have issued : (node.install index arm deadline).account generation =
        { node.account generation with standing := .live pairingAttempts false } := by
      ext
      · exact standing_armed same
      · rfl
      · rfl
      · rfl
    rw [issued]
    exact .issue unissued
  · refine move_of_standing rfl ?_
    rw [placed, decide_eq_false fun held => same held.1, Bool.or_false]
    exact .inl ((standing_armed_of_ne same).trans (past_eq_retire (regular.placed_at generation)))

end Moves

section Invariant

variable {node after : Node Scalar}

/-- Every step is a move of every account. -/
theorem Moved.move (regular : node.Regular) (moved : Moved node input after output)
    (generation : Nat) :
    Move pairingAttempts (node.account generation) (after.account generation) := by
  cases moved with
  | elapse => exact .stay
  | mint w expiresAtMs =>
    exact move_of_standing rfl (.inr (by simp [Node.mint, Node.installed]))
  | @stamp index arm found minted =>
    have waiting : arm.phase ≠ .installed := by
      rw [minted]
      exact nofun
    have placed : (node.stamp index arm).installed generation = node.installed generation := by
      simpa using (installed_set found waiting rfl :
        (node.stamp index arm).installed generation = _)
    exact move_of_standing rfl (.inr (by rw [placed]; rfl))
  | install found stamped => exact account_install regular found stamped
  | cancel => exact move_of_standing rfl (.inl (past_eq_retire (regular.placed_at generation)))
  | status | isArmed => exact account_observe regular
  | start clientFp => exact account_start regular clientFp
  | respond found starting =>
    rw [account_respond found starting]
    exact .stay
  | enrolled found pending => exact account_enrol found regular (by rw [pending]; rfl)
  | failed found open' => exact account_fail found regular open'

/-- The armed code of a state, if it has one, is that of an earlier state. -/
def State.Descends (earlier state : State Scalar) : Prop :=
  ∀ code, state = .armed code →
    ∃ sooner, earlier = .armed sooner ∧ sooner.generation = code.generation ∧
      sooner.deadline = code.deadline

theorem State.Descends.refl (state : State Scalar) : State.Descends state state :=
  fun code armed => ⟨code, armed, rfl, rfl⟩

theorem descends_expireIfStale (now : Nat) (state : State Scalar) :
    State.Descends state (state.expireIfStale now) :=
  fun code armed => ⟨code, (armed_of_expireIfStale armed).1, rfl, rfl⟩

theorem descends_failAttempt (generation : Nat) (state : State Scalar) :
    State.Descends state (state.failAttempt generation) := by
  intro code armed
  cases state with
  | disarmed | locked => cases armed
  | armed earlier =>
    rw [failAttempt] at armed
    split at armed
    · split at armed
      · cases armed
      · cases armed
        exact ⟨earlier, rfl, rfl, rfl⟩
    · cases armed
      exact ⟨_, rfl, rfl, rfl⟩

theorem descends_succeed (generation : Nat) (state : State Scalar) :
    State.Descends state (state.succeed generation) := by
  intro code armed
  cases state with
  | disarmed | locked => cases armed
  | armed earlier =>
    rw [succeed] at armed
    split at armed
    · cases armed
    · cases armed
      exact ⟨_, rfl, rfl, rfl⟩

theorem descends_start (clientFp : String) (node : Node Scalar) :
    State.Descends node.state (node.start clientFp).1.state ∧
      (node.start clientFp).1.arms = node.arms ∧
      (node.start clientFp).1.generations = node.generations := by
  rcases start_cases clientFp node with ⟨refusal, refused⟩ | ⟨code, armed, -, -, admitted⟩
  · rw [refused]
    exact ⟨descends_expireIfStale node.now node.state, rfl, rfl⟩
  · rw [admitted]
    refine ⟨?_, rfl, rfl⟩
    intro later armed'
    cases armed'
    exact ⟨code, armed, rfl, rfl⟩

/-- A regular node whose armings stay and whose armed code is an old one stays regular. -/
theorem Node.Regular.of_keeps (regular : node.Regular)
    (kept : State.Descends node.state after.state ∧ after.arms = node.arms ∧
      after.generations = node.generations)
    (sound : ∀ generation, Sound pairingAttempts (after.account generation)) :
    after.Regular := by
  obtain ⟨old, arms, generations⟩ := kept
  refine ⟨?_, ?_, ?_, sound⟩
  · rw [arms, generations]
    exact regular.drawn
  · rw [arms]
    exact regular.numbered
  · intro code armed
    obtain ⟨sooner, before, same, -⟩ := old code armed
    have placed := regular.placed sooner before
    rw [same] at placed
    rw [Node.installed, arms]
    exact placed

/-- The step lemma: nodes stay regular. -/
theorem Moved.regular (moved : Moved node input after output) (regular : node.Regular) :
    after.Regular := by
  have sound : ∀ generation, Sound pairingAttempts (after.account generation) := fun generation =>
    (regular.sound generation).move (by decide) (moved.move regular generation)
  cases moved with
  | mint w expiresAtMs =>
    refine ⟨?_, ?_, ?_, sound⟩
    · simp [Node.mint, regular.drawn]
    · intro index arm found
      rw [Node.mint, List.getElem?_append] at found
      split at found
      · exact regular.numbered index arm found
      · rename_i beyond
        have last : index = node.arms.length := by
          have short := (List.getElem?_eq_some_iff.mp found).1
          simp only [List.length_singleton] at short
          omega
        subst last
        simp only [Nat.sub_self, List.getElem?_cons_zero, Option.some.injEq] at found
        rw [← found, regular.drawn]
    · intro code armed
      have placed := regular.placed code armed
      simp only [Node.installed, Node.mint, List.any_append, Bool.or_eq_true] at placed ⊢
      exact .inl placed
  | @stamp index arm found minted =>
    refine ⟨?_, numbered_set regular found, ?_, sound⟩
    · rw [Node.stamp, List.length_set]
      exact regular.drawn
    · intro code armed
      have waiting : arm.phase ≠ .installed := by
        rw [minted]
        exact nofun
      rw [installed_set found waiting rfl, regular.placed code armed, Bool.true_or]
  | @install index deadline arm found stamped =>
    refine ⟨?_, numbered_set regular found, ?_, sound⟩
    · rw [Node.install, List.length_set]
      exact regular.drawn
    · intro code armed
      have waiting : arm.phase ≠ .installed := by
        rw [stamped]
        exact nofun
      cases armed
      rw [installed_set found waiting rfl, decide_eq_true ⟨rfl, rfl⟩, Bool.or_true]
  | elapse | respond => exact regular.of_keeps ⟨.refl _, rfl, rfl⟩ sound
  | cancel => exact regular.of_keeps ⟨fun _ armed => (nomatch armed), rfl, rfl⟩ sound
  | status | isArmed => exact regular.of_keeps ⟨descends_expireIfStale _ _, rfl, rfl⟩ sound
  | start clientFp => exact regular.of_keeps (descends_start clientFp node) sound
  | enrolled => exact regular.of_keeps ⟨descends_succeed _ _, rfl, rfl⟩ sound
  | failed => exact regular.of_keeps ⟨descends_failAttempt _ _, rfl, rfl⟩ sound

end Invariant

theorem regular_new : (Node.new : Node Scalar).Regular where
  drawn := rfl
  numbered := fun index arm found => by simp [Node.new] at found
  placed := fun code armed => nomatch armed
  sound := fun _ => ⟨rfl, rfl, rfl⟩

section Exchanges

variable {node after : Node Scalar}
variable {index : Nat} {exchange : Exchange Scalar}

/-- What a step does to an exchange. -/
inductive Outcome (node after : Node Scalar) (index : Nat) (exchange : Exchange Scalar) : Prop
  | kept (found : after.exchanges[index]? = some exchange)
  | challenged (displayName : String) (starting : exchange.phase = .starting)
      (found : after.exchanges[index]? = some { exchange with phase := .pending displayName })
  | enrolled (open' : exchange.phase.inFlight = true)
      (found : after.exchanges[index]? = some { exchange with phase := .enrolled })
  | failed (open' : exchange.phase.inFlight = true)
      (found : after.exchanges[index]? = some { exchange with phase := .failed })
      (state : after.state = node.state.failAttempt exchange.generation)

/-- Settling an exchange leaves the others. -/
theorem settle_cases (there : node.exchanges[other]? = some twin)
    (found : node.exchanges[index]? = some exchange) :
    (other = index ∧ twin = exchange) ∨
      (node.settle other twin phase state).exchanges[index]? = some exchange := by
  by_cases same : other = index
  · subst same
    exact .inl ⟨rfl, Option.some.inj (there.symm.trans found)⟩
  · rw [Node.settle, List.getElem?_set_ne same]
    exact .inr found

theorem getElem?_settle (found : node.exchanges[index]? = some exchange) :
    (node.settle index exchange phase state).exchanges[index]? =
      some { exchange with phase := phase } :=
  List.getElem?_set_self (List.getElem?_eq_some_iff.mp found).1

theorem Moved.outcome (moved : Moved node input after output)
    (found : node.exchanges[index]? = some exchange) :
    Outcome node after index exchange := by
  cases moved with
  | elapse | mint | stamp | install | cancel | status | isArmed => exact .kept found
  | start clientFp =>
    rcases start_cases clientFp node with ⟨refusal, refused⟩ | ⟨code, -, -, -, admitted⟩
    · rw [refused]
      exact .kept found
    · rw [admitted]
      apply Outcome.kept
      rw [Node.started, List.getElem?_append_left (List.getElem?_eq_some_iff.mp found).1]
      exact found
  | respond there starting =>
    rcases settle_cases there found with ⟨rfl, rfl⟩ | kept
    · exact .challenged _ starting (getElem?_settle found)
    · exact .kept kept
  | enrolled there pending =>
    rcases settle_cases there found with ⟨rfl, rfl⟩ | kept
    · exact .enrolled (by rw [pending]; rfl) (getElem?_settle found)
    · exact .kept kept
  | failed there open' =>
    rcases settle_cases there found with ⟨rfl, rfl⟩ | kept
    · exact .failed open' (getElem?_settle found) rfl
    · exact .kept kept

/-- A failed exchange lowers the attempts of its own code, and changes no other. -/
theorem Moved.lowers (moved : Moved node input after output) (regular : node.Regular)
    (found : node.exchanges[index]? = some exchange) (open' : exchange.phase.inFlight = true)
    (there : after.exchanges[index]? = some ended) (failed : ended.phase = .failed) :
    (∀ code, node.state = .armed code → code.generation = exchange.generation →
        code.attemptsRemaining = 1 ∧ after.state = .locked ∨
          ∃ lowered, after.state = .armed lowered ∧ lowered.generation = code.generation ∧
            lowered.attemptsRemaining + 1 = code.attemptsRemaining) ∧
      ((∀ code, node.state = .armed code → code.generation ≠ exchange.generation) →
        after.state = node.state) := by
  have state : after.state = node.state.failAttempt exchange.generation := by
    cases moved.outcome found with
    | failed _ _ state => exact state
    | kept same =>
      obtain rfl := Option.some.inj (same.symm.trans there)
      rw [failed] at open'
      cases open'
    | challenged displayName _ same =>
      obtain rfl := Option.some.inj (same.symm.trans there)
      cases failed
    | enrolled _ same =>
      obtain rfl := Option.some.inj (same.symm.trans there)
      cases failed
  constructor
  · intro code armed same
    have positive : 0 < code.attemptsRemaining := by
      have live : (node.account exchange.generation).standing =
          .live code.attemptsRemaining code.inFlight := by
        rw [Node.account_standing, armed, standing_armed same]
      exact ((regular.sound exchange.generation).of_live live).2.1
    rw [state, armed, failAttempt, if_pos same]
    split
    · exact .inl ⟨by omega, rfl⟩
    · exact .inr ⟨_, rfl, rfl, by simp only; omega⟩
  · intro others
    rw [state]
    cases armed : node.state with
    | disarmed | locked => rfl
    | armed code => rw [failAttempt, if_neg (others code armed)]

/-- Only an arming puts a new code in place. -/
theorem Moved.descends (moved : Moved node input after output)
    (kept : ∀ index, input ≠ .install index) :
    State.Descends node.state after.state := by
  cases moved with
  | install => exact absurd rfl (kept _)
  | elapse | mint | stamp | respond => exact .refl _
  | cancel => exact fun _ armed => nomatch armed
  | status | isArmed => exact descends_expireIfStale _ _
  | start clientFp => exact (descends_start clientFp node).1
  | enrolled => exact descends_succeed _ _
  | failed => exact descends_failAttempt _ _

theorem State.Descends.unarmed (descends : State.Descends earlier state)
    (unarmed : earlier.isArmed = false) :
    state.isArmed = false := by
  cases armed : state with
  | disarmed | locked => rfl
  | armed code =>
    obtain ⟨sooner, before, -, -⟩ := descends code armed
    rw [before] at unarmed
    cases unarmed

end Exchanges

section Runs

variable [DecidableEq Scalar]
variable {node after : Node Scalar}

/-- The run lemma: every node reached is regular. -/
theorem regular_of_run (run : Run (graph step) Node.new trace node) : node.Regular :=
  run.invariant Node.Regular regular_new fun _ _ _ _ regular stepped =>
    (moved_of_step stepped).regular regular

/-- Without an arming, the armed code of a run is the one it began with. -/
theorem descends_of_run (run : Run (graph step) start trace node)
    (kept : ∀ recorded ∈ trace, ∀ index, recorded.input ≠ .install index) :
    State.Descends start.state node.state := by
  induction run with
  | nil => exact .refl _
  | snoc earlier stepped ih =>
    obtain ⟨sooner, last⟩ := Lists.forall_mem_concat.mp kept
    intro code armed
    obtain ⟨between, there, generation, deadline⟩ :=
      (moved_of_step stepped).descends last code armed
    obtain ⟨sooner, before, generation', deadline'⟩ := ih sooner between there
    exact ⟨sooner, before, generation'.trans generation, deadline'.trans deadline⟩

/-- Until the next arming, a node that is not armed refuses every start. -/
theorem refused_until_armed (run : Run (graph step) start trace node)
    (unarmed : start.state.isArmed = false)
    (kept : ∀ recorded ∈ trace, ∀ index, recorded.input ≠ .install index)
    (member : recorded ∈ trace) (started : recorded.input = .start clientFp) :
    ∃ refusal, recorded.output = [.refused refusal] := by
  obtain ⟨earlier, later, rfl⟩ := List.append_of_mem member
  obtain ⟨reached, stepped⟩ := run.split rfl
  have before := (descends_of_run reached fun recorded member =>
    kept recorded (List.mem_append_left _ member)).unarmed unarmed
  rw [started] at stepped
  have answered : recorded.before.start clientFp = (recorded.after, recorded.output) :=
    Option.some.inj stepped
  rcases start_cases clientFp recorded.before with ⟨refusal, refused⟩ | ⟨code, armed, -, -, -⟩
  · exact ⟨refusal, (Prod.mk.inj (answered.symm.trans refused)).2⟩
  · rw [armed] at before
    cases before

/-- A code admits at most five exchanges, one at a time, and enrols at most one
device. An exchange that fails lowers the attempts of its own code while that is
armed and changes no other; a node that is locked refuses every start until the next
arming. -/
theorem code_is_guessed_at_most_five_times
    (run : Run (graph step) (Node.new : Node Scalar) trace node) :
    (∀ generation, node.admitted generation ≤ pairingAttempts ∧ node.flying generation ≤ 1 ∧
        node.enrolled generation ≤ 1) ∧
      (∀ recorded ∈ trace, ∀ (index : Nat) (exchange ended : Exchange Scalar),
        recorded.before.exchanges[index]? = some exchange →
        exchange.phase.inFlight = true →
        recorded.after.exchanges[index]? = some ended →
        ended.phase = .failed →
        (∀ code, recorded.before.state = .armed code → code.generation = exchange.generation →
            code.attemptsRemaining = 1 ∧ recorded.after.state = .locked ∨
              ∃ lowered, recorded.after.state = .armed lowered ∧
                lowered.generation = code.generation ∧
                lowered.attemptsRemaining + 1 = code.attemptsRemaining) ∧
          ((∀ code, recorded.before.state = .armed code →
              code.generation ≠ exchange.generation) →
            recorded.after.state = recorded.before.state)) ∧
      ∀ earlier recorded later, trace = earlier ++ recorded :: later →
        recorded.after.state = .locked →
        (∀ step ∈ later, ∀ index, step.input ≠ .install index) →
        ∀ step ∈ later, ∀ clientFp, step.input = .start clientFp →
          ∃ refusal, step.output = [.refused refusal] := by
  refine ⟨?_, ?_, ?_⟩
  · intro generation
    have bounds := ((regular_of_run run).sound generation).bounds
    simp only [Node.account_admitted, Node.account_running, Node.account_succeeded] at bounds
    omega
  · intro recorded member index exchange ended found open' there failed
    obtain ⟨⟨earlier, before⟩, stepped⟩ := run.before_reached member
    exact (moved_of_step stepped).lowers (regular_of_run before) found open' there failed
  · rintro earlier recorded later rfl locked kept
    have unarmed : recorded.after.state.isArmed = false := by
      rw [locked]
      rfl
    intro recorded' member clientFp started
    exact refused_until_armed (run.rest rfl) unarmed kept member started

end Runs

/-- Five wrong confirmations of one code, 7, then one more start. -/
def guesses : List (Input Nat) :=
  [.mint 7 900, .stamp 0, .install 0] ++
    (List.range 5).flatMap
      (fun exchange =>
        [.start "fp", .respond exchange (some "phone"), .complete exchange (some exchange)]) ++
    [.start "fp"]

/-- Five guesses lock the code, and the sixth start is refused. -/
theorem code_is_guessed_at_most_five_times_guesses :
    ∃ trace node, Run (graph step) (Node.new : Node Nat) trace node ∧
      trace.map Step.input = guesses ∧ node.state = .locked ∧
      node.admitted 1 ≤ pairingAttempts := by
  have run : Run (graph step) (Node.new : Node Nat) _ _ :=
    Run.of_exec (rfl : exec step Node.new guesses = _)
  exact ⟨_, _, run, rfl, rfl, ((code_is_guessed_at_most_five_times run).1 1).1⟩

end DaemonNode.Pairing
