import QCircuit.Program.Interpreter
/-! Interpreting in one scope.

`runBlock` is given what a body sees, and gives nothing back but gates. Here the circuit, the
definitions, the open definition and the loops that are being unrolled are one scope, which is handed
from each line to the next, into bodies and out of them, and which any line may change. Nothing is
assumed about bodies: their lines are run as all others are, and names are looked up among all
definitions. Calls may stand inside each other up to some number of them, and there is no outcome
beyond it. The log is left out. -/
namespace QCircuit

/-- A loop that is being unrolled. -/
structure Frame where
  header : LoopHeader
  body : List Line

structure Scope where
  /-- The width of the circuit, once it has been initialised. -/
  width? : Option Nat
  /-- The definitions that have been closed, the latest first. -/
  macros : List Macro
  open? : Option OpenDefinition
  /-- The loops that are being unrolled, the innermost first. -/
  loops : List Frame

namespace Scope

def empty : Scope := ⟨none, [], none, []⟩

def enter (s : Scope) (frame : Frame) : Scope := { s with loops := frame :: s.loops }

def leave (s : Scope) : Scope := { s with loops := s.loops.tail }

-- Takes a line into the open definition, or closes it.
def capture (s : Scope) (d : OpenDefinition) (line : Line) : Except Fault Scope := do
  match ← captureLine s.macros d line with
  | .more d => .ok { s with open? := some d }
  | .closed m => .ok { s with open? := none, macros := m :: s.macros }

def initialise (limit : Nat) (s : Scope) (line : Line) : Except Fault Scope :=
  if s.loops.isEmpty then
    match s.width? with
    | some _ => refuse line.number .alreadyInitialised
    | none => do
      let width ← initialWidth limit line
      .ok { s with width? := some width }
  else refuse line.number .initInLoop

def define (s : Scope) (line : Line) : Except Fault Scope :=
  if s.loops.isEmpty then do
    let d ← openDefinition s.macros line
    .ok { s with open? := some d }
  else refuse line.number .defineInLoop

-- The scope after a change, or the scope as it was if the change is refused.
def after {α : Type} (s : Scope) (change : Except Fault Scope) (a : α) : Scope × Except Fault α :=
  match change with
  | .error fault => (s, .error fault)
  | .ok next => (next, .ok a)

/-- The width of the circuit, which has to be initialised by now. -/
def requireWidth (s : Scope) (line : Line) : Except Fault Nat :=
  match s.width? with
  | none => refuse line.number .notInitialised
  | some width => .ok width

def place (s : Scope) (env : Environment) (line : Line) (m : Mnemonic) :
    Except Fault (Operation Float) := do
  let width ← s.requireWidth line
  placeGate width env line m

/-- The loop that a line opens. -/
def opened (s : Scope) (env : Environment) (line : Line) (rest : List Line) :
    Except Fault Loop := do
  let _ ← s.requireWidth line
  openLoop env line rest

theorem opened_shorter {s : Scope} {env : Environment} {line : Line} {rest : List Line} {loop : Loop}
    (opens : s.opened env line rest = .ok loop) : loop.body.length < rest.length := by
  unfold opened at opens
  cases requires : s.requireWidth line with
  | error fault =>
      rw [requires] at opens
      cases opens
  | ok width =>
      rw [requires] at opens
      exact (openLoop_shorter opens).1

/-- The definition that a line calls, and the environment of the call. -/
def called (s : Scope) (env : Environment) (line : Line) : Except Fault (Macro × Environment) :=
  match findMacro line.head s.macros with
  | none => refuse line.number (.unknownSymbol line.head)
  | some (m, _) => do
    let _ ← s.requireWidth line
    let bound ← bindArguments env line m
    .ok (m, bound)

/-- The lines to be run behind a line. -/
def behind (s : Scope) (line : Line) (rest : List Line) : List Line :=
  (nextStatement ⟨s.width?, s.macros, s.open?, []⟩ line rest).2

/-- The number of lines in the body of the innermost loop. -/
def innermostLength (s : Scope) : Nat :=
  match s.loops with
  | [] => 0
  | frame :: _ => frame.body.length

set_option linter.unusedVariables false in
mutual

/-- Runs lines up to the first that is refused, and puts their gates behind those so far. -/
def runLines (limit calls : Nat) (env : Environment) (gates : List (Gate Float)) (s : Scope) :
    List Line → Option (Scope × Except Fault (List (Gate Float)))
  | [] => some (s, .ok gates)
  | line :: rest => do
    match ← runLine limit calls env gates s line rest with
    | (next, .error fault) => some (next, .error fault)
    | (next, .ok gates) => runLines limit calls env gates next (s.behind line rest)
termination_by lines => (calls, lines.length, 1, 0)
decreasing_by
  · exact .right _ (.right _ (.left _ _ Nat.zero_lt_one))
  · exact .right _ (.left _ _ (Nat.lt_succ_of_le (nextStatement_shorter _ _ _)))

/-- Runs a line, for a loop with those of the lines behind it that belong to the loop. -/
def runLine (limit calls : Nat) (env : Environment) (gates : List (Gate Float)) (s : Scope)
    (line : Line) (rest : List Line) : Option (Scope × Except Fault (List (Gate Float))) :=
  match s.open?, line.role with
  | some d, _ => some (s.after (s.capture d line) gates)
  | none, .keyword .init => some (s.after (s.initialise limit line) gates)
  | none, .keyword .define => some (s.after (s.define line) gates)
  | none, .keyword .endDefine =>
    some (s, refuse line.number (if s.loops.isEmpty then .noDefinitionOpen else .endDefineInLoop))
  | none, .keyword .endLoop => some (s, refuse line.number .noLoopOpen)
  | none, .keyword .loop =>
    match opens : s.opened env line rest with
    | .error fault => some (s, .error fault)
    | .ok loop => do
      let (s, result) ← runInnermost limit calls env gates (s.enter ⟨loop.header, loop.body⟩)
      -- The loop is taken from the stack whether or not a turn of it has been refused.
      some (s.leave, result)
  | none, .gate m => some (s, (s.place env line m).map fun op => gates ++ [.standard op])
  | none, .name =>
    match s.called env line with
    | .error fault => some (s, .error fault)
    | .ok (m, bound) =>
      match calls with
      | 0 => none
      | fewer + 1 => do
        let (s, result) ← runLines limit fewer bound [] s m.body
        some (s, result.map fun members => gates ++ [.composite m.name members])
termination_by (calls, rest.length + 1, 0, 0)
decreasing_by
  · exact .right _ (.left _ _ (Nat.lt_succ_of_lt (opened_shorter opens)))
  · exact .left _ _ (Nat.lt_succ_self fewer)

/-- Runs the innermost loop of the stack. -/
def runInnermost (limit calls : Nat) (env : Environment) (gates : List (Gate Float)) (s : Scope) :
    Option (Scope × Except Fault (List (Gate Float))) :=
  match innermost : s.loops with
  | [] => some (s, .ok gates)
  | frame :: _ => runTurns limit calls env frame gates s frame.header.start frame.header.count
termination_by (calls, s.innermostLength, 3, 0)
decreasing_by
  · rw [innermostLength, innermost]
    exact .right _ (.right _ (.left _ _ (Nat.lt_succ_self 2)))

/-- Runs the body of a loop for `count` integers from `k` on. -/
def runTurns (limit calls : Nat) (env : Environment) (frame : Frame) (gates : List (Gate Float))
    (s : Scope) (k : Int) (count : Nat) : Option (Scope × Except Fault (List (Gate Float))) :=
  match count with
  | 0 => some (s, .ok gates)
  | count + 1 => do
    match ← runLines limit calls (env.bind frame.header.counter (Float.ofInt k)) gates s
        frame.body with
    | (next, .error fault) => some (next, .error fault)
    | (next, .ok gates) => runTurns limit calls env frame gates next (k + 1) count
termination_by (calls, frame.body.length, 2, count)
decreasing_by
  · exact .right _ (.right _ (.left _ _ (Nat.lt_succ_self 1)))
  · exact .right _ (.right _ (.right _ (Nat.lt_succ_self count)))

end

end Scope

/-- The program that a text writes, if its interpretation in one scope has an outcome with up to
`calls` calls inside each other. -/
def interpretShared (calls : Nat) (config : Config) (text : String) :
    Option (Except Fault Program) := do
  let source := Source.ofText text
  let (s, result) ←
    Scope.empty.runLines config.qubitLimit calls Environment.empty [] source.lines
  some (do
    let gates ← result
    (finishProgram source.lineCount ⟨s.width?, s.macros, s.open?, gates⟩).result)

end QCircuit
