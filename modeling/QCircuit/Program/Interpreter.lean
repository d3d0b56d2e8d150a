import QCircuit.Program.Config
import QCircuit.Program.Definition
import QCircuit.Register.Engine
/-! Interpreting a program.

Lines are taken statement by statement: a loop with all its lines, or one line. A statement changes
the state, or is refused, and then the state stays as it is. At the end there has to be a circuit
and no open definition. -/
namespace QCircuit

structure State where
  /-- The width of the circuit, once it has been initialised. -/
  width? : Option Nat
  /-- The definitions that have been closed, the latest first. -/
  macros : List Macro
  open? : Option OpenDefinition
  gates : List (Gate Float)

namespace State

def empty : State := ⟨none, [], none, []⟩

end State

/-- The number of qubits that a line asks for. -/
def initialWidth (limit : Nat) (line : Line) : Except Fault Nat :=
  match line.operands with
  | [] => refuse line.number .noQubitCount
  | word :: rest =>
    match Text.word32? word.toList with
    | none => refuse line.number (.invalidQubitCount word)
    | some width =>
      if width = 0 then refuse line.number .zeroQubitCount
      else if limit < width then refuse line.number (.qubitCountAboveLimit width limit)
      else do
        refuseTrailing line.number rest
        .ok width

/-- The first statement of lines that begin with `line`, and the lines behind it. -/
def nextStatement (st : State) (line : Line) (rest : List Line) : List Line × List Line :=
  match st.open?, line.role with
  | none, .keyword .loop =>
    match splitLoop 0 rest with
    | some (body, closing, after) => (line :: body ++ [closing], after)
    | none => (line :: rest, [])
  | _, _ => ([line], rest)

theorem nextStatement_shorter (st : State) (line : Line) (rest : List Line) :
    (nextStatement st line rest).2.length ≤ rest.length := by
  unfold nextStatement
  split
  · split
    · rename_i found
      have whole := congrArg List.length (splitLoop_append found)
      simp only [List.length_append, List.length_cons] at whole
      simp only
      omega
    · simp
  · simp

-- The outcome of a check that may change the state, with what is logged if it passes.
def settle {α : Type} (st : State) (result : Except Fault α) (next : α → State × List Event) :
    State × Logged Unit :=
  match result with
  | .error fault => (st, ⟨[], .error fault⟩)
  | .ok a => ((next a).1, ⟨(next a).2, .ok ()⟩)

def initialise (limit : Nat) (st : State) (line : Line) : State × Logged Unit :=
  match st.width? with
  | some _ => (st, .refuse line.number .alreadyInitialised)
  | none =>
    settle st (initialWidth limit line) fun width =>
      ({ st with width? := some width }, [.registerInitialised width])

def capture (st : State) (d : OpenDefinition) (line : Line) : State × Logged Unit :=
  settle st (captureLine st.macros d line) fun
    | .more d => ({ st with open? := some d }, [])
    | .closed m =>
      ({ st with open? := none, macros := m :: st.macros },
        [.definitionRegistered m.name m.params m.lineCount])

/-- Runs a statement that adds gates. -/
def addGates (st : State) (line : Line) (statement : List Line) : State × Logged Unit :=
  match st.width? with
  | none => (st, .refuse line.number .notInitialised)
  | some width =>
    match runBlock width st.macros 0 Environment.empty statement with
    | ⟨log, .error fault⟩ => (st, ⟨log, .error fault⟩)
    | ⟨log, .ok new⟩ => ({ st with gates := st.gates ++ new }, ⟨log, .ok ()⟩)

/-- Carries out a statement whose first line is `line`. -/
def perform (limit : Nat) (st : State) (line : Line) (statement : List Line) :
    State × Logged Unit :=
  match st.open? with
  | some d => capture st d line
  | none =>
    match line.role with
    | .keyword .init => initialise limit st line
    | .keyword .define =>
      settle st (openDefinition st.macros line) fun d => ({ st with open? := some d }, [])
    | .keyword .endDefine => (st, .refuse line.number .noDefinitionOpen)
    | .keyword .endLoop => (st, .refuse line.number .noLoopOpen)
    | .keyword .loop => addGates st line statement
    | .gate _ => addGates st line statement
    | .name =>
      if (findMacro line.head st.macros).isSome then addGates st line statement
      else (st, .refuse line.number (.unknownSymbol line.head))

/-- Carries out lines up to the first that is refused. -/
def interpretLines (limit : Nat) (st : State) : List Line → State × Logged Unit
  | [] => (st, pure ())
  | line :: rest =>
    match perform limit st line (nextStatement st line rest).1 with
    | (next, ⟨log, .error fault⟩) => (next, ⟨log, .error fault⟩)
    | (next, ⟨log, .ok ()⟩) =>
      let (last, later) := interpretLines limit next (nextStatement st line rest).2
      (last, ⟨log ++ later.log, later.result⟩)
termination_by lines => lines.length
decreasing_by exact Nat.lt_succ_of_le (nextStatement_shorter _ _ _)

/-- A program that has been accepted: its gates in order and the width of its register. -/
structure Program where
  numQubits : Nat
  gates : List (Gate Float)

/-- The program of a final state. -/
def finishProgram (lineCount : Nat) (st : State) : Logged Program :=
  match st.open?, st.width? with
  | some d, _ => .refuse d.openedAt (.definitionNotClosed d.name)
  | none, none => .refuse (max lineCount 1) .neverInitialised
  | none, some width => do
    Logged.emit (.programInterpreted width st.gates.length st.macros.length)
    pure ⟨width, st.gates⟩

def interpretSource (config : Config) (source : Source) : Logged Program :=
  let (st, run) := interpretLines config.qubitLimit State.empty source.lines
  do
    run
    finishProgram source.lineCount st

/-- The program that a text writes. -/
def interpret (config : Config) (text : String) : Logged Program :=
  interpretSource config (Source.ofText text)

namespace Program

/-- The register in which the program begins. -/
def register (p : Program) : Register Float := Register.ground p.numQubits

/-- The number of operations, those in groups included. -/
def primitiveCount (p : Program) : Nat := Gate.primitiveCountOf p.gates

def execute (p : Program) : Register Float × Option RegisterError := p.register.run p.gates

/-- What is logged while the program is executed. -/
def executionLog (p : Program) : List Event :=
  let fits (g : Gate Float) := (g.validate p.numQubits).isOk
  let applied := Gate.listingOf 0 (p.gates.takeWhile fits)
  let ended := if p.gates.all fits then
      [.gatesExecuted p.gates.length p.numQubits, .programExecuted p.numQubits p.gates.length]
    else []
  applied.map (fun entry => .gateApplied entry.2) ++ ended

end Program
end QCircuit
