import QCircuit.Program.Fault
import QCircuit.Program.Source
/-! Operands of a line.

An operand is an expression. A qubit or a loop bound has to be an integer. -/
namespace QCircuit

def refuse {α : Type} (line : Nat) (cause : Cause) : Except Fault α := .error ⟨line, cause⟩

def evalOperand (line : Nat) (env : Environment) (text : String) : Except Fault Float :=
  match evaluate text env with
  | .ok value => .ok value
  | .error e => refuse line (.invalidExpression e)

def refuseTrailing (line : Nat) : List String → Except Fault Unit
  | [] => .ok ()
  | word :: _ => refuse line (.unexpectedWord word)

/-- The qubit of a register of `width` qubits that an operand names. -/
def qubitOperand (line width : Nat) (env : Environment) (role : QubitRole) (text : String) :
    Except Fault Qubit := do
  let value ← evalOperand line env text
  match Decimal.integer? value with
  | none => refuse line (.fractionalQubit role value)
  | some n =>
    if 1 ≤ n ∧ n ≤ width then .ok ⟨n.toNat⟩
    else refuse line (.qubitOutOfRange role width value)

/-- Bounds are held in 64 bits. A value outside them is moved to the nearer end without an error, which
no rule of the language asks for. -/
def clampBound (n : Int) : Int := max (-0x8000000000000000) (min n 0x7fffffffffffffff)

def boundOperand (line : Nat) (env : Environment) (text : String) : Except Fault Int := do
  let value ← evalOperand line env text
  match Decimal.integer? value with
  | none => refuse line (.fractionalBound value)
  | some n => .ok (clampBound n)

end QCircuit
