import DaemonNode.Host.Codes

/-!
# Enrolling under a live code

A code is live while it is the armed one and its deadline is not over. Admission looks
at that; completion looks at the peer's confirmation only.
-/

namespace DaemonNode.Pairing

open Attempts Machine

variable {Scalar : Type}

/-- The code of a generation is the armed one, and its time is not over. -/
def Node.live (generation : Nat) (node : Node Scalar) : Bool :=
  match node.state with
  | .armed code => decide (code.generation = generation ∧ node.now < code.deadline)
  | .disarmed => false
  | .locked => false

/-- The inputs that cancel the armed code or replace it. -/
def Input.revokes : Input Scalar → Bool
  | .cancel => true
  | .install _ => true
  | _ => false

section Live

variable {node after : Node Scalar}
variable {generation deadline index : Nat}

theorem live_eq_true_iff :
    node.live generation = true ↔
      ∃ code, node.state = .armed code ∧ code.generation = generation ∧
        node.now < code.deadline := by
  cases armed : node.state <;> simp [Node.live, armed]

/-- A code that was issued is retired when it is cancelled or replaced. -/
theorem Moved.revoked (moved : Moved node input after output) (regular : node.Regular)
    (issued : (node.account generation).standing ≠ .unissued) (revokes : input.revokes = true) :
    (after.account generation).standing = .retired := by
  have later := (moved.move regular generation).issued issued
  have retired : (∀ code, after.state = .armed code → code.generation ≠ generation) →
      (after.account generation).standing = .retired := by
    intro absent
    rw [Node.account_standing, standing_of_absent absent] at later ⊢
    cases placed : after.installed generation with
    | true => rfl
    | false =>
      rw [placed] at later
      exact absurd rfl later
  apply retired
  intro code armed same
  cases moved with
  | cancel => cases armed
  | @install index deadline arm found stamped =>
    cases armed
    apply issued
    have waiting : arm.phase ≠ .installed := by
      rw [stamped]
      exact nofun
    have absent : ∀ code, node.state = .armed code → code.generation ≠ generation := by
      intro code armed here
      have there := regular.placed code armed
      rw [here, ← same, regular.not_installed found waiting] at there
      cases there
    rw [Node.account_standing, standing_of_absent absent, ← same,
      regular.not_installed found waiting]
    rfl
  | failed _ _ _ ends => obtain rfl | rfl | ⟨_, _, rfl⟩ := ends <;> cases revokes
  | _ => cases revokes

/-- The clock does not go back. -/
theorem Moved.now_le (moved : Moved node input after output) : node.now ≤ after.now := by
  cases moved with
  | elapse duration => exact Nat.le_add_right _ _
  | start clientFp =>
    rcases start_cases clientFp node with ⟨refusal, refused⟩ | ⟨code, -, -, -, admitted⟩
    · rw [refused]
      exact Nat.le_refl _
    · rw [admitted]
      exact Nat.le_refl _
  | _ => exact Nat.le_refl _

/-- Two exchanges of one code are not in flight together. -/
theorem Node.Regular.alone (regular : node.Regular) (found : node.exchanges[index]? = some exchange)
    (there : node.exchanges[other]? = some twin) (open' : exchange.phase.inFlight = true)
    (openToo : twin.phase.inFlight = true) (same : exchange.generation = twin.generation) :
    index = other := by
  have bounds := (regular.sound twin.generation).bounds
  rw [Node.account_running, Node.account_succeeded] at bounds
  have once : node.flying twin.generation ≤ 1 := by omega
  exact Lists.eq_of_countP_le_one once found there (decide_eq_true ⟨same, open'⟩)
    (decide_eq_true ⟨rfl, openToo⟩)

/-- The armed code is the one of a generation, with a deadline. -/
def State.Holds (generation deadline : Nat) (state : State Scalar) : Prop :=
  ∃ code, state = .armed code ∧ code.generation = generation ∧ code.deadline = deadline

theorem holds_expireIfStale {state : State Scalar} (holds : state.Holds generation deadline)
    (early : node.now < deadline) :
    (state.expireIfStale node.now).Holds generation deadline := by
  obtain ⟨code, rfl, same, due⟩ := holds
  refine ⟨code, ?_, same, due⟩
  rw [State.expireIfStale, if_neg (by omega)]

/-- An exchange in flight keeps its code armed, as long as nobody revokes it and its
time is not over. -/
theorem Moved.holds (moved : Moved node input after output) (regular : node.Regular)
    (found : node.exchanges[index]? = some exchange) (there : after.exchanges[index]? = some later)
    (open' : later.phase.inFlight = true) (kept : input.revokes = false)
    (early : after.now < deadline) (own : exchange.generation = generation)
    (holds : node.state.Holds generation deadline) :
    after.state.Holds generation deadline := by
  subst own
  have sooner : node.now < deadline := Nat.lt_of_le_of_lt moved.now_le early
  -- Another exchange that ends is one of another code.
  have ends : ∀ {other : Nat} {twin : Exchange Scalar} {phase : ExchangePhase}
      {state : State Scalar}, node.exchanges[other]? = some twin →
      twin.phase.inFlight = true → phase.inFlight = false →
      (node.settle other twin phase state).exchanges[index]? = some later →
      twin.generation ≠ exchange.generation := by
    intro other twin phase state besides openToo closed stays same
    have outlives : exchange.phase.inFlight = true ∧ other ≠ index := by
      by_cases here : other = index
      · subst here
        rw [getElem?_settle besides, Option.some.injEq] at stays
        rw [← stays, closed] at open'
        cases open'
      · rw [Node.settle, List.getElem?_set_ne here, found, Option.some.injEq] at stays
        rw [stays]
        exact ⟨open', here⟩
    exact outlives.2 (regular.alone besides found openToo outlives.1 same)
  obtain ⟨code, armed, same, due⟩ := holds
  cases moved with
  | cancel | install => cases kept
  | elapse | mint | stamp | respond => exact ⟨code, armed, same, due⟩
  | status | isArmed => exact holds_expireIfStale ⟨code, armed, same, due⟩ sooner
  | start clientFp =>
    rcases start_cases clientFp node with ⟨refusal, refused⟩ | ⟨free, before, -, -, admitted⟩
    · rw [refused]
      exact holds_expireIfStale ⟨code, armed, same, due⟩ sooner
    · rw [admitted]
      obtain rfl : code = free := State.armed.inj (armed.symm.trans before)
      exact ⟨_, rfl, same, due⟩
  | @enrolled other twin displayName besides pending =>
    have different := ends besides (by rw [pending]; rfl) rfl there
    refine ⟨code, ?_, same, due⟩
    rw [Node.settle, armed, State.succeed, if_neg (same.trans_ne different.symm)]
  | @failed other twin _ _ besides openToo =>
    have different := ends besides openToo rfl there
    refine ⟨code, ?_, same, due⟩
    rw [Node.fail, Node.settle, armed, State.failAttempt, if_neg (same.trans_ne different.symm)]

/-- An exchange stays the same but for its phase, and what ended does not start again. -/
theorem Moved.follows (moved : Moved node input after output)
    (found : node.exchanges[index]? = some exchange) :
    ∃ phase, after.exchanges[index]? = some { exchange with phase := phase } ∧
      (phase.inFlight = true → exchange.phase.inFlight = true) := by
  cases moved.outcome found with
  | kept found => exact ⟨exchange.phase, found, id⟩
  | challenged displayName starting found => exact ⟨_, found, fun _ => by rw [starting]; rfl⟩
  | enrolled open' found => exact ⟨_, found, fun _ => open'⟩
  | failed open' found => exact ⟨_, found, fun _ => open'⟩

/-- What an admission leaves. -/
theorem of_admitted (answered : node.start clientFp = (after, [.admitted index])) :
    ∃ code, after.state = .armed code ∧
      after.exchanges[index]? = some ⟨code.w, code.generation, clientFp, .starting⟩ := by
  rcases start_cases clientFp node with ⟨refusal, refused⟩ | ⟨code, -, -, -, entered⟩
  · rw [refused] at answered
    cases (Prod.mk.inj answered).2
  · rw [entered] at answered
    obtain ⟨rfl, reply⟩ := Prod.mk.inj answered
    obtain rfl := Reply.admitted.inj (List.head_eq_of_cons_eq reply)
    refine ⟨_, rfl, ?_⟩
    rw [Node.started, List.getElem?_concat_length]

variable [DecidableEq Scalar]

/-- The run lemma of an exchange: while it is in flight its code is armed until
somebody revokes it or its time is over, and a revoked code is retired. -/
theorem code_of_run (run : Run (graph step) start trace node) (regular : start.Regular)
    (found : start.exchanges[index]? = some exchange)
    (holds : start.state.Holds exchange.generation deadline) :
    node.Regular ∧
      (∃ phase, node.exchanges[index]? = some { exchange with phase := phase } ∧
        (phase.inFlight = true → (∀ recorded ∈ trace, recorded.input.revokes = false) →
          node.now < deadline → node.state.Holds exchange.generation deadline)) ∧
      (node.account exchange.generation).standing ≠ .unissued ∧
      ((∃ recorded ∈ trace, recorded.input.revokes = true) →
        (node.account exchange.generation).standing = .retired) := by
  induction run with
  | nil =>
    refine ⟨regular, ⟨exchange.phase, found, fun _ _ _ => holds⟩, ?_, nofun⟩
    obtain ⟨code, armed, same, -⟩ := holds
    rw [Node.account_standing, armed, standing_armed same]
    exact nofun
  | @snoc trace node input after output before stepped ih =>
    obtain ⟨regular, ⟨phase, there, armed⟩, issued, retired⟩ := ih
    have moved := moved_of_step stepped
    refine ⟨moved.regular regular, ?_, (moved.move regular _).issued issued, ?_⟩
    · obtain ⟨next, after', forward⟩ := moved.follows there
      refine ⟨next, after', fun open' kept early => ?_⟩
      obtain ⟨before, last⟩ := Lists.forall_mem_concat.mp kept
      have sooner := armed (forward open') before (Nat.lt_of_le_of_lt moved.now_le early)
      exact moved.holds regular there after' open' last early rfl sooner
    · rintro ⟨recorded, member, revokes⟩
      rcases List.mem_append.mp member with older | newest
      · exact (moved.move regular _).retired (retired ⟨recorded, older, revokes⟩)
      · obtain rfl := List.mem_singleton.mp newest
        exact moved.revoked regular issued revokes

/-- What an enrolment says. -/
theorem of_enrolled (found : node.exchanges[index]? = some exchange)
    (completed : step node (.complete index confirmation) =
      some (after, [.enrolled index clientFp displayName])) :
    exchange.phase = .pending displayName ∧ confirmation = some exchange.w ∧
      clientFp = exchange.clientFp := by
  have moved := moved_of_step completed
  generalize asked : Input.complete index confirmation = input at moved
  generalize told : [Reply.enrolled index clientFp displayName] = output at moved
  cases moved with
  | enrolled there pending =>
    cases asked
    cases told
    obtain rfl := Option.some.inj (found.symm.trans there)
    exact ⟨pending, rfl, rfl⟩
  | failed _ _ refused =>
    rcases refused with refused | refused
    · rw [refused] at told
      cases told
    · rw [refused] at told
      cases told
  | start => cases asked
  | _ => cases told

/-- An exchange that enrols a device was confirmed with the code it was admitted
under; that code is live at that moment exactly when it was neither cancelled nor
replaced since the admission and its deadline is not over. -/
theorem enrolled_live_iff {began : Step (Node Scalar) (Input Scalar) (Reply Scalar)}
    {code : Armed Scalar} {clientFp enrolledFp displayName : String}
    {confirmation : Option Scalar}
    (run : Run (graph step) Node.new (earlier ++ began :: later) node)
    (started : began.input = .start clientFp) (admitted : began.output = [.admitted index])
    (armed : began.after.state = .armed code)
    (completed : step node (.complete index confirmation) =
      some (after, [.enrolled index enrolledFp displayName])) :
    confirmation = some code.w ∧ enrolledFp = clientFp ∧
      (node.live code.generation = true ↔
        (∀ recorded ∈ later, recorded.input.revokes = false) ∧ node.now < code.deadline) := by
  obtain ⟨reached, stepped⟩ := run.split rfl
  have answered : began.before.start clientFp = (began.after, [.admitted index]) := by
    rw [started, admitted] at stepped
    exact Option.some.inj stepped
  obtain ⟨same, here, entered⟩ := of_admitted answered
  obtain rfl : code = same := State.armed.inj (armed.symm.trans here)
  obtain ⟨-, ⟨phase, found, holds⟩, -, retired⟩ :=
    code_of_run (run.rest rfl) ((moved_of_step stepped).regular (regular_of_run reached)) entered
      ⟨code, armed, rfl, rfl⟩
  obtain ⟨pending, confirmed, fingerprint⟩ := of_enrolled found completed
  have open' : phase.inFlight = true := by
    simp only at pending
    rw [pending]
    rfl
  refine ⟨confirmed, fingerprint, ?_, ?_⟩
  · intro live
    obtain ⟨other, there, own, early⟩ := live_eq_true_iff.mp live
    have kept : ∀ recorded ∈ later, recorded.input.revokes = false := by
      intro recorded member
      by_contra revokes
      rw [Bool.not_eq_false] at revokes
      obtain ⟨code, armed, same, -⟩ := live_eq_true_iff.mp live
      have standing := retired ⟨recorded, member, revokes⟩
      rw [Node.account_standing, armed, standing_armed same] at standing
      cases standing
    have unreplaced : ∀ recorded ∈ later, ∀ index, recorded.input ≠ .install index := by
      intro recorded member index install
      have revokes := kept recorded member
      rw [install] at revokes
      cases revokes
    obtain ⟨sooner, before, -, due⟩ := descends_of_run (run.rest rfl) unreplaced other there
    obtain rfl : code = sooner := State.armed.inj (armed.symm.trans before)
    exact ⟨kept, by omega⟩
  · rintro ⟨kept, early⟩
    obtain ⟨other, there, own, due⟩ := holds open' kept early
    exact live_eq_true_iff.mpr ⟨other, there, own, by omega⟩

end Live

/-- A device that was admitted under the first code, 7, and has its challenge. -/
def admittedPhone : List (Input Nat) :=
  [.mint 7 900, .stamp 0, .install 0, .start "fp", .respond 0 (some "phone")]

/-- The device enrols under its code, which is live. -/
theorem enrolled_live_iff_phone :
    ∃ trace node after, Run (graph step) (Node.new : Node Nat) trace node ∧
      trace.map Step.input = admittedPhone ∧
      step node (.complete 0 (some 7)) = some (after, [.enrolled 0 "fp" "phone"]) ∧
      node.live 1 = true := by
  have run : Run (graph step) (Node.new : Node Nat) ([_, _, _] ++ _ :: [_]) _ :=
    Run.of_exec (rfl : exec step Node.new admittedPhone = _)
  refine ⟨_, _, _, run, rfl, (rfl : step _ (.complete 0 (some 7)) = some (_, _)), ?_⟩
  exact (enrolled_live_iff run rfl rfl rfl
    (rfl : step _ (.complete 0 (some 7)) = some (_, [.enrolled 0 "fp" "phone"]))).2.2.mpr
    ⟨by decide, by decide⟩

/-- After these inputs the device enrols although its code is not live. -/
def EnrolsDead (inputs : List (Input Nat)) : Prop :=
  ∃ trace node after, Run (graph step) (Node.new : Node Nat) trace node ∧
    trace.map Step.input = inputs ∧
    step node (.complete 0 (some 7)) = some (after, [.enrolled 0 "fp" "phone"]) ∧
    node.live 1 = false

theorem enrolsDead_of_exec (executed : exec step Node.new inputs = some (trace, node))
    (completed : step node (.complete 0 (some 7)) = some (after, [.enrolled 0 "fp" "phone"]))
    (dead : node.live 1 = false) :
    EnrolsDead inputs :=
  ⟨trace, node, after, .of_exec executed, exec_inputs executed, completed, dead⟩

/-- A code that was cancelled, one that was replaced and one whose time is over enrol
a device. -/
theorem enrols_under_dead_code :
    EnrolsDead (admittedPhone ++ [.cancel]) ∧
      EnrolsDead (admittedPhone ++ [.mint 8 900, .stamp 1, .install 1]) ∧
      EnrolsDead (admittedPhone ++ [.elapse 120000]) :=
  ⟨enrolsDead_of_exec rfl rfl rfl, enrolsDead_of_exec rfl rfl rfl, enrolsDead_of_exec rfl rfl rfl⟩

end DaemonNode.Pairing
