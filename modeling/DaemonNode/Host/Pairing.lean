import DaemonNode.Lib.Attempts
import DaemonNode.Lib.Machine

/-!
# Pairing a device with a code

An admin arms a pairing code; a device that knows it is enrolled. A code lives for
two minutes, allows five failed exchanges and one exchange at a time, and is used
once. The node keeps one state behind a lock, and a counter of armings behind
another. An exchange is admitted under the lock, computes outside it, and comes back
to the lock when it ends, with the generation of the code it was admitted under.

Every lock section is one step, and so is every reading of the clock that is not made
inside one. Calls interleave at these steps. A peer's confirmation is accepted when
the peer confirms with the code of the exchange.
-/

namespace DaemonNode.Pairing

/-- The life of an armed code, in milliseconds. -/
def pairingTtl : Nat := 120000

/-- The failed exchanges that lock the node. -/
def pairingAttempts : Nat := 5

inductive PairingRefusal
  | notArmed
  | noClientCert
  | locked
  | failed
  deriving DecidableEq, Repr

structure Armed (Scalar : Type) where
  /-- The scalar derived from the code. -/
  w : Scalar
  (deadline expiresAtMs attemptsRemaining : Nat)
  inFlight : Bool
  generation : Nat
  deriving DecidableEq, Repr

inductive State (Scalar : Type)
  | disarmed
  | locked
  | armed (code : Armed Scalar)
  deriving DecidableEq, Repr

structure PairingStatusView where
  armed : Bool
  (expiresAtMs attemptsRemaining : Option Nat)
  locked : Bool
  deriving DecidableEq, Repr

variable {Scalar : Type}

namespace State

/-- Disarm a code whose time is over. -/
def expireIfStale (now : Nat) : State Scalar → State Scalar
  | .armed code => if code.deadline ≤ now then .disarmed else .armed code
  | .disarmed => .disarmed
  | .locked => .locked

/-- The admin's view of a state that is not stale. -/
def view : State Scalar → PairingStatusView
  | .disarmed => ⟨false, none, none, false⟩
  | .locked => ⟨false, none, none, true⟩
  | .armed code => ⟨true, some code.expiresAtMs, some code.attemptsRemaining, false⟩

def isArmed : State Scalar → Bool
  | .armed _ => true
  | .disarmed => false
  | .locked => false

/-- The admission of an exchange, once a stale code is gone. -/
def admission : State Scalar → State Scalar × Except PairingRefusal (Scalar × Nat)
  | .disarmed => (.disarmed, .error .notArmed)
  | .locked => (.locked, .error .locked)
  | .armed code =>
    if code.inFlight then (.armed code, .error .failed)
    else (.armed { code with inFlight := true }, .ok (code.w, code.generation))

/-- Record one failed exchange of a generation. -/
def failAttempt (generation : Nat) : State Scalar → State Scalar
  | .armed code =>
    if code.generation = generation then
      if code.attemptsRemaining - 1 = 0 then .locked
      else
        .armed
          { code with inFlight := false, attemptsRemaining := code.attemptsRemaining - 1 }
    else .armed code
  | .disarmed => .disarmed
  | .locked => .locked

/-- An enrolment uses its code up. -/
def succeed (generation : Nat) : State Scalar → State Scalar
  | .armed code => if code.generation = generation then .disarmed else .armed code
  | .disarmed => .disarmed
  | .locked => .locked

end State

/-- Where a call of `arm` stands. -/
inductive ArmPhase
  /-- The generation is drawn. -/
  | minted
  | stamped (deadline : Nat)
  | installed
  deriving DecidableEq, Repr

/-- A call of `arm`. -/
structure Arming (Scalar : Type) where
  w : Scalar
  (expiresAtMs generation : Nat)
  phase : ArmPhase
  deriving DecidableEq, Repr

/-- Where an exchange stands. -/
inductive ExchangePhase
  | starting
  /-- The challenge is sent; the device gave this name. -/
  | pending (displayName : String)
  | enrolled
  | failed
  deriving DecidableEq, Repr

namespace ExchangePhase

/-- The exchange has not ended. -/
def inFlight : ExchangePhase → Bool
  | .starting => true
  | .pending _ => true
  | .enrolled => false
  | .failed => false

@[simp] theorem inFlight_starting : starting.inFlight = true := rfl

@[simp] theorem inFlight_pending (displayName : String) :
    (pending displayName).inFlight = true := rfl

@[simp] theorem inFlight_enrolled : enrolled.inFlight = false := rfl

@[simp] theorem inFlight_failed : failed.inFlight = false := rfl

end ExchangePhase

/-- An exchange that was admitted. -/
structure Exchange (Scalar : Type) where
  w : Scalar
  generation : Nat
  clientFp : String
  phase : ExchangePhase
  deriving DecidableEq, Repr

/-- The node, its clock, and every call of `arm` and every exchange so far. -/
structure Node (Scalar : Type) where
  (now generations : Nat)
  state : State Scalar
  arms : List (Arming Scalar)
  exchanges : List (Exchange Scalar)
  deriving DecidableEq, Repr

/-- A disarmed node. -/
def Node.new : Node Scalar where
  now := 0
  generations := 0
  state := .disarmed
  arms := []
  exchanges := []

inductive Input (Scalar : Type)
  | elapse (duration : Nat)
  /-- `arm` has made a code and draws its generation. -/
  | mint (w : Scalar) (expiresAtMs : Nat)
  | stamp (arm : Nat)
  | install (arm : Nat)
  | cancel
  | status
  | isArmed
  | start (clientFp : String)
  /-- The computation of `begin_exchange` ends, with the device's name. -/
  | respond (exchange : Nat) (displayName : Option String)
  /-- `complete` with the scalar the peer confirms with, if its payload is readable. -/
  | complete (exchange : Nat) (confirmation : Option Scalar)
  | abandon (exchange : Nat)
  deriving DecidableEq, Repr

inductive Reply (Scalar : Type)
  | armedCode (w : Scalar) (expiresAtMs : Nat)
  | view (view : PairingStatusView)
  | isArmed (armed : Bool)
  | admitted (exchange : Nat)
  | challenge (exchange : Nat)
  | refused (refusal : PairingRefusal)
  | enrolled (exchange : Nat) (clientFp displayName : String)
  deriving DecidableEq, Repr

namespace Node

/-- Let an exchange go on to a phase, and the state with it. -/
def settle (index : Nat) (exchange : Exchange Scalar) (phase : ExchangePhase)
    (state : State Scalar) (node : Node Scalar) : Node Scalar :=
  { node with
    state := state
    exchanges := node.exchanges.set index { exchange with phase := phase } }

/-- End an exchange without success. -/
def fail (index : Nat) (exchange : Exchange Scalar) (node : Node Scalar) : Node Scalar :=
  node.settle index exchange .failed (node.state.failAttempt exchange.generation)

/-- Ask for admission. -/
def start (clientFp : String) (node : Node Scalar) : Node Scalar × List (Reply Scalar) :=
  match (node.state.expireIfStale node.now).admission with
  | (state, .error refusal) => ({ node with state := state }, [.refused refusal])
  | (state, .ok (w, generation)) =>
    ({ node with
        state := state
        exchanges := node.exchanges ++ [⟨w, generation, clientFp, .starting⟩] },
      [.admitted node.exchanges.length])

/-- Check the peer's confirmation. -/
def complete [DecidableEq Scalar] (index : Nat) (exchange : Exchange Scalar)
    (displayName : String) (confirmation : Option Scalar) (node : Node Scalar) :
    Node Scalar × List (Reply Scalar) :=
  if confirmation = some exchange.w then
    (node.settle index exchange .enrolled (node.state.succeed exchange.generation),
      [.enrolled index exchange.clientFp displayName])
  else (node.fail index exchange, [.refused .failed])

/-- `arm` fixes the deadline of its code. -/
def stamp (index : Nat) (arm : Arming Scalar) (node : Node Scalar) : Node Scalar :=
  { node with arms := node.arms.set index { arm with phase := .stamped (node.now + pairingTtl) } }

/-- `arm` replaces the state. -/
def install (index : Nat) (arm : Arming Scalar) (deadline : Nat) (node : Node Scalar) :
    Node Scalar :=
  { node with
    state := .armed
      { w := arm.w
        deadline := deadline
        expiresAtMs := arm.expiresAtMs
        attemptsRemaining := pairingAttempts
        inFlight := false
        generation := arm.generation }
    arms := node.arms.set index { arm with phase := .installed } }

/-- `arm` draws the generation of its code. -/
def mint (w : Scalar) (expiresAtMs : Nat) (node : Node Scalar) : Node Scalar :=
  { node with
    generations := node.generations + 1
    arms := node.arms ++ [⟨w, expiresAtMs, node.generations + 1, .minted⟩] }

/-- Look at the state, which disarms a stale code. -/
def observe (node : Node Scalar) : Node Scalar :=
  { node with state := node.state.expireIfStale node.now }

end Node

def step [DecidableEq Scalar] :
    Machine.StepFunction (Node Scalar) (Input Scalar) (Reply Scalar) :=
  fun node input =>
    match input with
    | .elapse duration => some ({ node with now := node.now + duration }, [])
    | .mint w expiresAtMs => some (node.mint w expiresAtMs, [])
    | .stamp index =>
      node.arms[index]?.bind fun arm =>
        match arm.phase with
        | .minted => some (node.stamp index arm, [])
        | _ => none
    | .install index =>
      node.arms[index]?.bind fun arm =>
        match arm.phase with
        | .stamped deadline =>
          some (node.install index arm deadline, [.armedCode arm.w arm.expiresAtMs])
        | _ => none
    | .cancel => some ({ node with state := .disarmed }, [])
    | .status => some (node.observe, [.view node.observe.state.view])
    | .isArmed => some (node.observe, [.isArmed node.observe.state.isArmed])
    | .start clientFp => some (node.start clientFp)
    | .respond index answer =>
      node.exchanges[index]?.bind fun exchange =>
        match exchange.phase, answer with
        | .starting, some displayName =>
          some (node.settle index exchange (.pending displayName) node.state, [.challenge index])
        | .starting, none => some (node.fail index exchange, [.refused .failed])
        | _, _ => none
    | .complete index confirmation =>
      node.exchanges[index]?.bind fun exchange =>
        match exchange.phase with
        | .pending displayName => some (node.complete index exchange displayName confirmation)
        | _ => none
    | .abandon index =>
      node.exchanges[index]?.bind fun exchange =>
        match exchange.phase with
        | .pending _ => some (node.fail index exchange, [])
        | _ => none

/-- The steps of the node. -/
inductive Moved (node : Node Scalar) : Input Scalar → Node Scalar → List (Reply Scalar) → Prop
  | elapse (duration : Nat) :
      Moved node (.elapse duration) { node with now := node.now + duration } []
  | mint (w : Scalar) (expiresAtMs : Nat) :
      Moved node (.mint w expiresAtMs) (node.mint w expiresAtMs) []
  | stamp {index : Nat} {arm : Arming Scalar} (found : node.arms[index]? = some arm)
      (minted : arm.phase = .minted) :
      Moved node (.stamp index) (node.stamp index arm) []
  | install {index deadline : Nat} {arm : Arming Scalar} (found : node.arms[index]? = some arm)
      (stamped : arm.phase = .stamped deadline) :
      Moved node (.install index) (node.install index arm deadline)
        [.armedCode arm.w arm.expiresAtMs]
  | cancel : Moved node .cancel { node with state := .disarmed } []
  | status : Moved node .status node.observe [.view node.observe.state.view]
  | isArmed : Moved node .isArmed node.observe [.isArmed node.observe.state.isArmed]
  | start (clientFp : String) :
      Moved node (.start clientFp) (node.start clientFp).1 (node.start clientFp).2
  | respond {index : Nat} {exchange : Exchange Scalar} {displayName : String}
      (found : node.exchanges[index]? = some exchange) (starting : exchange.phase = .starting) :
      Moved node (.respond index (some displayName))
        (node.settle index exchange (.pending displayName) node.state) [.challenge index]
  | enrolled {index : Nat} {exchange : Exchange Scalar} {displayName : String}
      (found : node.exchanges[index]? = some exchange)
      (pending : exchange.phase = .pending displayName) :
      Moved node (.complete index (some exchange.w))
        (node.settle index exchange .enrolled (node.state.succeed exchange.generation))
        [.enrolled index exchange.clientFp displayName]
  | failed {index : Nat} {exchange : Exchange Scalar} {input : Input Scalar}
      {output : List (Reply Scalar)}
      (found : node.exchanges[index]? = some exchange) (open' : exchange.phase.inFlight = true)
      (refused : output = [.refused .failed] ∨ output = [])
      (ends : input = .respond index none ∨ input = .abandon index ∨
        ∃ confirmation ≠ some exchange.w, input = .complete index confirmation) :
      Moved node input (node.fail index exchange) output

/-- Every step of the node is one of these. -/
theorem moved_of_step [DecidableEq Scalar] {node after : Node Scalar}
    (stepped : step node input = some (after, output)) :
    Moved node input after output := by
  cases input with
  | elapse duration =>
    cases stepped
    exact .elapse duration
  | mint w expiresAtMs =>
    cases stepped
    exact .mint w expiresAtMs
  | stamp index =>
    obtain ⟨arm, found, answered⟩ := Option.bind_eq_some_iff.mp stepped
    cases phase : arm.phase with
    | minted =>
      rw [phase] at answered
      cases answered
      exact .stamp found phase
    | stamped | installed => simp only [phase, reduceCtorEq] at answered
  | install index =>
    obtain ⟨arm, found, answered⟩ := Option.bind_eq_some_iff.mp stepped
    cases phase : arm.phase with
    | minted | installed => simp only [phase, reduceCtorEq] at answered
    | stamped =>
      rw [phase] at answered
      cases answered
      exact .install found phase
  | cancel =>
    cases stepped
    exact .cancel
  | status =>
    cases stepped
    exact .status
  | isArmed =>
    cases stepped
    exact .isArmed
  | start clientFp =>
    obtain ⟨rfl, rfl⟩ := Prod.mk.inj (Option.some.inj stepped)
    exact .start clientFp
  | respond index answer =>
    obtain ⟨exchange, found, answered⟩ := Option.bind_eq_some_iff.mp stepped
    cases phase : exchange.phase with
    | starting =>
      rw [phase] at answered
      cases answer with
      | some displayName =>
        cases answered
        exact .respond found phase
      | none =>
        cases answered
        exact .failed found (by rw [phase]; rfl) (.inl rfl) (.inl rfl)
    | pending | enrolled | failed => simp only [phase, reduceCtorEq] at answered
  | complete index confirmation =>
    obtain ⟨exchange, found, answered⟩ := Option.bind_eq_some_iff.mp stepped
    cases phase : exchange.phase with
    | starting | enrolled | failed => simp only [phase, reduceCtorEq] at answered
    | pending displayName =>
      simp only [phase] at answered
      by_cases knows : confirmation = some exchange.w
      · rw [Node.complete, if_pos knows] at answered
        cases answered
        rw [knows]
        exact .enrolled found phase
      · rw [Node.complete, if_neg knows] at answered
        cases answered
        exact .failed found (by rw [phase]; rfl) (.inl rfl) (.inr (.inr ⟨confirmation, knows, rfl⟩))
  | abandon index =>
    obtain ⟨exchange, found, answered⟩ := Option.bind_eq_some_iff.mp stepped
    cases phase : exchange.phase with
    | starting | enrolled | failed => simp only [phase, reduceCtorEq] at answered
    | pending =>
      rw [phase] at answered
      cases answered
      exact .failed found (by rw [phase]; rfl) (.inr rfl) (.inr (.inl rfl))

end DaemonNode.Pairing
