import DaemonNode.Lib.Lists

/-!
# Runs of machines with outputs

A machine consumes one input at a time and answers each with a list of
outputs. It is given by a transition relation; a program is the graph of a
partial step function, which has no result when the program stops. A run
keeps a record of each of its steps, oldest first, so that properties of the
history can be stated about it.

An abstraction function relates two machines when every transition of the
first is one of the second. Then what is proved about the abstract runs
holds of the program's.

Inside one step a program usually makes several smaller moves. `Chain` is
the closure of such moves with their outputs concatenated.
-/

namespace Machine

universe u v w

variable {State : Type u} {Abstract : Type u} {Input : Type v} {Output : Type w}

abbrev Transition (State : Type u) (Input : Type v) (Output : Type w) :=
  State → Input → List Output → State → Prop

abbrev StepFunction (State : Type u) (Input : Type v) (Output : Type w) :=
  State → Input → Option (State × List Output)

def graph (step : StepFunction State Input Output) :
    Transition State Input Output :=
  fun state input output after => step state input = some (after, output)

/-- The record of one step of a run. -/
structure Step (State : Type u) (Input : Type v) (Output : Type w) where
  before : State
  input : Input
  after : State
  output : List Output

def Step.map (abstraction : State → Abstract)
    (recorded : Step State Input Output) : Step Abstract Input Output :=
  { before := abstraction recorded.before
    input := recorded.input
    after := abstraction recorded.after
    output := recorded.output }

/-- `Run next start trace state`: from `start` the machine makes exactly the
steps of `trace` and ends in `state`. -/
inductive Run (next : Transition State Input Output) (start : State) :
    List (Step State Input Output) → State → Prop
  | nil : Run next start [] start
  | snoc {trace state input after output} :
      Run next start trace state →
      next state input output after →
      Run next start (trace ++ [⟨state, input, after, output⟩]) after

/-- Everything output along a trace, in order. -/
def emitted (trace : List (Step State Input Output)) : List Output :=
  trace.flatMap Step.output

@[simp] theorem emitted_nil :
    emitted ([] : List (Step State Input Output)) = [] := rfl

@[simp] theorem emitted_append (first second : List (Step State Input Output)) :
    emitted (first ++ second) = emitted first ++ emitted second := by
  simp [emitted]

@[simp] theorem emitted_singleton (recorded : Step State Input Output) :
    emitted [recorded] = recorded.output := by
  simp [emitted]

@[simp] theorem emitted_map (abstraction : State → Abstract)
    (trace : List (Step State Input Output)) :
    emitted (trace.map (Step.map abstraction)) = emitted trace := by
  simp [emitted, List.flatMap_map, Step.map]

namespace Run

variable {trace : List (Step State Input Output)}

/-- History rule: a property of trace and state that holds of the empty run
and survives each step holds of every run. -/
theorem history (property : List (Step State Input Output) → State → Prop)
    (initial : property [] start)
    (preserved : ∀ trace state input after output,
      Run next start trace state →
      property trace state →
      next state input output after →
      property (trace ++ [⟨state, input, after, output⟩]) after)
    (run : Run next start trace state) :
    property trace state := by
  induction run with
  | nil => exact initial
  | snoc earlier stepped ih => exact preserved _ _ _ _ _ earlier ih stepped

/-- Invariant rule: a property of states that holds initially and survives
each step holds of every state reached. -/
theorem invariant (property : State → Prop) (initial : property start)
    (preserved : ∀ state input after output,
      property state →
      next state input output after →
      property after)
    (run : Run next start trace state) :
    property state :=
  run.history (fun _ reached => property reached) initial
    fun _ state input after output _ holds stepped =>
      preserved state input after output holds stepped

/-- A run falls apart at each of its steps. -/
theorem parts (run : Run next start trace state) (parted : trace = earlier ++ recorded :: later) :
    (Run next start earlier recorded.before ∧
      next recorded.before recorded.input recorded.output recorded.after) ∧
      Run next recorded.after later state := by
  induction run generalizing later with
  | nil => simp at parted
  | @snoc steps reached input after output before stepped ih =>
    rcases Lists.concat_eq_append_cons_iff.mp parted with
      ⟨rfl, rfl, rfl⟩ | ⟨shorter, sooner, rfl⟩
    · exact ⟨⟨before, stepped⟩, .nil⟩
    · exact ⟨(ih sooner).1, .snoc (ih sooner).2 stepped⟩

/-- Every recorded step was made where the steps before it had led. -/
theorem split (run : Run next start trace state) (parted : trace = earlier ++ recorded :: later) :
    Run next start earlier recorded.before ∧
      next recorded.before recorded.input recorded.output recorded.after :=
  (run.parts parted).1

/-- What follows a recorded step is a run from where it had led. -/
theorem rest (run : Run next start trace state) (parted : trace = earlier ++ recorded :: later) :
    Run next recorded.after later state :=
  (run.parts parted).2

/-- Every recorded step was made from a state the run had reached. -/
theorem before_reached (run : Run next start trace state) (member : recorded ∈ trace) :
    (∃ earlier, Run next start earlier recorded.before) ∧
      next recorded.before recorded.input recorded.output recorded.after := by
  obtain ⟨earlier, later, parted⟩ := List.append_of_mem member
  exact ⟨⟨earlier, (run.split parted).1⟩, (run.split parted).2⟩

/-- Prefix a run with one more step. -/
theorem cons {after final : State} {input : Input} {output : List Output}
    (stepped : next start input output after) (rest : Run next after trace final) :
    Run next start (⟨start, input, after, output⟩ :: trace) final := by
  induction rest with
  | nil => exact .snoc .nil stepped
  | snoc _ laterStep ih => exact .snoc ih laterStep

/-- Runs compose. -/
theorem append (run : Run next start trace state) (rest : Run next state later final) :
    Run next start (trace ++ later) final := by
  induction rest with
  | nil =>
    rw [List.append_nil]
    exact run
  | snoc _ stepped ih =>
    rw [← List.append_assoc]
    exact .snoc ih stepped

/-- Shadow rule: when a second machine can answer every step of a run alike and
stay related, it has a run with the same inputs and outputs. -/
theorem shadow {related : State → Abstract → Prop} (run : Run next start trace state)
    (follows : ∀ earlier recorded later, trace = earlier ++ recorded :: later →
      ∀ shadowed, related recorded.before shadowed →
        ∃ shadowAfter, other shadowed recorded.input recorded.output shadowAfter ∧
          related recorded.after shadowAfter)
    (initial : related start shadowStart) :
    ∃ shadowTrace shadowState,
      Run other shadowStart shadowTrace shadowState ∧
        shadowTrace.map Step.input = trace.map Step.input ∧
        shadowTrace.map Step.output = trace.map Step.output ∧
        related state shadowState := by
  induction run with
  | nil => exact ⟨[], shadowStart, .nil, rfl, rfl, initial⟩
  | @snoc steps reached input after output before stepped ih =>
    obtain ⟨shadowTrace, shadowed, shadowRun, inputs, outputs, close⟩ :=
      ih fun earlier recorded later parted =>
        follows earlier recorded (later ++ [⟨reached, input, after, output⟩])
          (by rw [parted, List.append_assoc, List.cons_append])
    obtain ⟨shadowAfter, answered, related⟩ := follows steps _ [] rfl shadowed close
    refine ⟨_, shadowAfter, .snoc shadowRun answered, ?_, ?_, related⟩
    · rw [List.map_append, List.map_append, inputs]
      rfl
    · rw [List.map_append, List.map_append, outputs]
      rfl

/-- Simulation rule: when every transition is, seen through an abstraction, a
transition of a second machine, every run is a run of that machine. -/
theorem simulate
    (simulates : ∀ state input output after,
      next state input output after →
      abstractNext (abstraction state) input output (abstraction after))
    (run : Run next start trace state) :
    Run abstractNext (abstraction start)
      (trace.map (Step.map abstraction)) (abstraction state) := by
  induction run with
  | nil => exact .nil
  | snoc _ stepped ih =>
    rw [List.map_append]
    exact .snoc ih (simulates _ _ _ _ stepped)

end Run

/-- Run a list of inputs and keep the record of each step. -/
def exec (step : StepFunction State Input Output) :
    State → List Input → Option (List (Step State Input Output) × State)
  | state, [] => some ([], state)
  | state, input :: inputs =>
    match step state input with
    | none => none
    | some (after, output) =>
      match exec step after inputs with
      | none => none
      | some (trace, final) => some (⟨state, input, after, output⟩ :: trace, final)

/-- A successful execution is a run with the inputs it is given. -/
theorem exec_spec (executed : exec step start inputs = some (trace, final)) :
    Run (graph step) start trace final ∧ trace.map Step.input = inputs := by
  induction inputs generalizing start trace with
  | nil =>
    cases executed
    exact ⟨.nil, rfl⟩
  | cons input inputs ih =>
    simp only [exec] at executed
    split at executed
    · cases executed
    rename_i after output stepped
    split at executed
    · cases executed
    rename_i rest reached restExecuted
    cases executed
    obtain ⟨run, consumed⟩ := ih restExecuted
    exact ⟨Run.cons stepped run, congrArg (input :: ·) consumed⟩

theorem Run.of_exec (executed : exec step start inputs = some (trace, final)) :
    Run (graph step) start trace final :=
  (exec_spec executed).1

theorem exec_inputs (executed : exec step start inputs = some (trace, final)) :
    trace.map Step.input = inputs :=
  (exec_spec executed).2

/-- A checked execution is a run that passes the check. -/
theorem Run.of_checked_exec (step : StepFunction State Input Output) (start : State)
    (inputs : List Input) (holds : List (Step State Input Output) → State → Prop)
    (checked : ∃ result ∈ exec step start inputs, holds result.1 result.2) :
    ∃ trace final, Run (graph step) start trace final ∧ holds trace final := by
  obtain ⟨⟨trace, final⟩, executed, passed⟩ := checked
  exact ⟨trace, final, .of_exec executed, passed⟩

/-- Lockstep rule: two machines that answer every input and are fed the same
inputs stay related when each input keeps them related. -/
theorem lockstep {related : State → Abstract → Prop} (initial : related start other)
    (keeps : ∀ earlier input later, inputs = earlier ++ input :: later →
      related (earlier.foldl first start) (earlier.foldl second other) →
      related (first (earlier.foldl first start) input)
        (second (earlier.foldl second other) input)) :
    related (inputs.foldl first start) (inputs.foldl second other) := by
  induction inputs using List.reverseRecOn with
  | nil => exact initial
  | append_singleton inputs input ih =>
    rw [List.foldl_append, List.foldl_append]
    refine keeps inputs input [] rfl (ih fun earlier input' later parted => ?_)
    refine keeps earlier input' (later ++ [input]) ?_
    rw [parted, List.append_assoc, List.cons_append]

/-- The closure of a relation of small moves, outputs concatenated. -/
inductive Chain (move : State → List Output → State → Prop) :
    State → List Output → State → Prop
  | nil {state} : Chain move state [] state
  | cons {state middle final first rest} :
      move state first middle →
      Chain move middle rest final →
      Chain move state (first ++ rest) final

namespace Chain

variable {move : State → List Output → State → Prop}

theorem single (moved : move state output final) : Chain move state output final := by
  simpa using Chain.cons moved .nil

/-- A property of the outputs so far and the state that survives each move
survives a chain. -/
theorem accumulate (property : List Output → State → Prop)
    (preserved : ∀ earlier state output final,
      property earlier state →
      move state output final →
      property (earlier ++ output) final)
    (chain : Chain move state output final) (holds : property earlier state) :
    property (earlier ++ output) final := by
  induction chain generalizing earlier with
  | nil => simpa using holds
  | cons moved _ ih =>
    rw [← List.append_assoc]
    exact ih (preserved _ _ _ _ holds moved)

theorem invariant (property : State → Prop)
    (preserved : ∀ state output final, property state → move state output final → property final)
    (chain : Chain move state output final) (holds : property state) :
    property final :=
  @accumulate _ _ move state output final [] (fun _ reached => property reached)
    (fun _ => preserved) chain holds

end Chain

end Machine
