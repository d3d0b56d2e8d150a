import QCircuit.Program.Operand
import QCircuit.Gate.Basic
/-! Lines that place a gate.

The words in front of the first bar are the target and the angle or the second qubit; those behind
it are the controls. Controls are read first. -/
namespace QCircuit

/-- The words in front of the first bar, and those behind it if there is one. -/
def splitControls : List String → List String × Option (List String)
  | [] => ([], none)
  | word :: rest =>
    if word = "|" then ([], some rest)
    else ((word :: (splitControls rest).1), (splitControls rest).2)

def controlOperands (width : Nat) (env : Environment) (line : Line) (m : Mnemonic) :
    Option (List String) → Except Fault Controls
  | some words =>
    if m.controlled then
      if words = [] then refuse line.number .noControls
      else do
        let qubits ← words.mapM (qubitOperand line.number width env .control)
        match Controls.ofQubits qubits with
        | .ok controls => .ok controls
        | .error e => refuse line.number (.invalidGate e)
    else refuse line.number (.unwantedControls line.head)
  | none => if m.controlled then refuse line.number (.missingControls line.head) else .ok .none

-- The gate that the next word is the angle of, and the words after it.
def angleOperand (env : Environment) (line : Line) (build : Float → StandardGate Float) :
    List String → Except Fault (StandardGate Float × List String)
  | [] => refuse line.number .noAngle
  | word :: rest => do
    let angle ← evalOperand line.number env word
    .ok (build angle, rest)

-- The swap with the qubit that the next word names, and the words after it.
def partnerOperand (width : Nat) (env : Environment) (line : Line) :
    List String → Except Fault (StandardGate Float × List String)
  | [] => refuse line.number .noSecondQubit
  | word :: rest => do
    let partner ← qubitOperand line.number width env .second word
    .ok (.swap partner, rest)

/-- The gate of a kind with its operand, and the words after it. -/
def gateOperand (width : Nat) (env : Environment) (line : Line) :
    GateKind → List String → Except Fault (StandardGate Float × List String)
  | .i, words => .ok (.i, words)
  | .h, words => .ok (.h, words)
  | .x, words => .ok (.x, words)
  | .y, words => .ok (.y, words)
  | .z, words => .ok (.z, words)
  | .p, words => angleOperand env line .p words
  | .rx, words => angleOperand env line .rx words
  | .ry, words => angleOperand env line .ry words
  | .rz, words => angleOperand env line .rz words
  | .swap, words => partnerOperand width env line words

/-- The operation that a line places in a register of `width` qubits. -/
def placeGate (width : Nat) (env : Environment) (line : Line) (m : Mnemonic) :
    Except Fault (Operation Float) := do
  let (words, controlWords) := splitControls line.operands
  let controls ← controlOperands width env line m controlWords
  match words with
  | [] => refuse line.number .noActiveQubit
  | word :: rest =>
    let target ← qubitOperand line.number width env .active word
    let (gate, rest) ← gateOperand width env line m.kind rest
    refuseTrailing line.number rest
    match Operation.make gate target controls with
    | .ok op => .ok op
    | .error e => refuse line.number (.invalidGate e)

end QCircuit
