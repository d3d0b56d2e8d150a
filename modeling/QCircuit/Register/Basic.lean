import QCircuit.Complex
import QCircuit.Qubit
/-! The quantum register.

A register of `n` qubits holds `2 ^ n` amplitudes, one for each index of a basis state, and a
second buffer of the same length in which a gate is carried out. -/
namespace QCircuit

structure Register (R : Type) where
  amplitudes : Array (Complex R)
  scratch : Array (Complex R)
  numQubits : Nat
deriving DecidableEq, Repr

inductive RegisterError where
  | noAmplitudes
  | lengthNotPowerOfTwo (length : Nat)
  | tooManyQubits (requested limit : Nat)
  | gateRejected (e : GateError)
deriving DecidableEq, Repr

def RegisterError.message : RegisterError → String
  | noAmplitudes => "Register must contain at least one amplitude"
  | lengthNotPowerOfTwo length => "Register length " ++ toString length ++ " is not a power of two"
  | tooManyQubits requested limit =>
    "Register of " ++ toString requested ++ " qubits exceeds the maximum of " ++ toString limit
  | gateRejected e => "Gate rejected: " ++ e.message

namespace Register
variable {R : Type} [Scalar R]

/-- The widest register that is ever made. -/
def maxQubits : Nat := 30

/-- The register whose only amplitude that is not zero is one at index zero. -/
def ground (numQubits : Nat) : Register R :=
  let size := 1 <<< numQubits
  ⟨(Array.replicate size Complex.zero).setIfInBounds 0 Complex.one,
    Array.replicate size Complex.zero, numQubits⟩

def make (numQubits : Nat) : Except RegisterError (Register R) :=
  if maxQubits < numQubits then .error (.tooManyQubits numQubits maxQubits)
  else .ok (ground numQubits)

/-- A register with given amplitudes, which are kept as they are. -/
def ofAmplitudes (amplitudes : Array (Complex R)) : Except RegisterError (Register R) :=
  let size := amplitudes.size
  if size = 0 then .error .noAmplitudes
  else if size = 1 <<< size.log2 then
    .ok ⟨amplitudes, Array.replicate size Complex.zero, size.log2⟩
  else .error (.lengthNotPowerOfTwo size)

/-- The sum of the squared magnitudes, added from the first index on. -/
@[specialize] def normSq (r : Register R) : R :=
  r.amplitudes.foldl (fun sum z => Scalar.add sum z.normSq) Scalar.zero

/-- The squared magnitude of each amplitude as a part of their sum; all zero if the sum is not
positive. -/
@[specialize] def probabilities (r : Register R) : Array R :=
  let total := r.normSq
  r.amplitudes.map fun z =>
    if Scalar.less Scalar.zero total then Scalar.div z.normSq total else Scalar.zero

end Register
end QCircuit
