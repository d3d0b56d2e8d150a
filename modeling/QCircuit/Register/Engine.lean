import QCircuit.Gate.Basic
import QCircuit.Gate.Matrix
import QCircuit.Register.Basic
/-! Carrying out gates.

A gate is one pass over the amplitudes that writes the second buffer, after which the buffers
change places. So each amplitude is read as it was before the gate. -/
namespace QCircuit.Register
variable {R : Type} [Scalar R]

@[inline] def addAt (buffer : Array (Complex R)) (n : Nat) (z : Complex R) : Array (Complex R) :=
  buffer.modify n fun old => old.add z

-- The share of one amplitude in the result: its column of the matrix if the controls are set, and
-- itself otherwise. Where the target is set, clearing it is flipping it.
@[specialize] def scatter (m : Matrix2 R) (target controls : Nat) (buffer : Array (Complex R))
    (n : Nat) (z : Complex R) : Array (Complex R) :=
  if n &&& controls != controls then addAt buffer n z
  else if n &&& target == 0 then
    addAt (addAt buffer n (m.a00.mul z)) (n ||| target) (m.a10.mul z)
  else addAt (addAt buffer n (m.a11.mul z)) (n ^^^ target) (m.a01.mul z)

@[specialize] def matrixPass (m : Matrix2 R) (target : Qubit) (controls : Controls)
    (r : Register R) : Register R :=
  let targetMask := target.mask
  let controlMask := controls.mask
  let cleared := r.scratch.map fun _ => Complex.zero
  let filled := r.amplitudes.zipIdx.foldl
    (fun buffer (z, n) => scatter m targetMask controlMask buffer n z) cleared
  { r with amplitudes := filled, scratch := r.amplitudes }

/-- Where a swap of two qubits takes the amplitude at an index. -/
def swapIndex (a b : Qubit) (controls n : Nat) : Nat :=
  if n &&& controls == controls && a.isSet n != b.isSet n then n ^^^ (a.mask ||| b.mask) else n

@[specialize] def swapPass (a b : Qubit) (controls : Controls) (r : Register R) : Register R :=
  let controlMask := controls.mask
  let filled := r.amplitudes.zipIdx.foldl
    (fun buffer (z, n) => buffer.setIfInBounds (swapIndex a b controlMask n) z) r.scratch
  { r with amplitudes := filled, scratch := r.amplitudes }

@[specialize] def applyOperation (op : Operation R) (r : Register R) : Register R :=
  match op.gate.partner? with
  | some partner => r.swapPass op.target partner op.controls
  | none =>
    match op.gate.matrix? with
    | some m => r.matrixPass m op.target op.controls
    | none => r

mutual

-- Carries out a gate without a check of its qubits.
@[specialize] def perform : Gate R → Register R → Register R
  | .standard op, r => r.applyOperation op
  | .composite _ members, r => performAll members r

@[specialize] def performAll : List (Gate R) → Register R → Register R
  | [], r => r
  | g :: rest, r => performAll rest (perform g r)

end

/-- Carries out a gate that fits the register; any other gate changes nothing. -/
@[specialize] def apply (g : Gate R) (r : Register R) : Except RegisterError (Register R) :=
  match g.validate r.numQubits with
  | .ok () => .ok (perform g r)
  | .error e => .error (.gateRejected e)

/-- Carries out gates in order and stops at the first that does not fit. The register that is
returned holds the work of the gates before it. -/
@[specialize] def run : List (Gate R) → Register R → Register R × Option RegisterError
  | [], r => (r, none)
  | g :: rest, r =>
    match r.apply g with
    | .ok next => run rest next
    | .error e => (r, some e)

end QCircuit.Register
