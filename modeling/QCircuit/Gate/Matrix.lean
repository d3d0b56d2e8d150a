import QCircuit.Gate.Kind
import QCircuit.Complex
/-! Matrices of the gates.

Every gate but the swap is a matrix on one qubit. -/
namespace QCircuit

structure Matrix2 (R : Type) where
  a00 : Complex R
  a01 : Complex R
  a10 : Complex R
  a11 : Complex R
deriving DecidableEq, Repr

namespace StandardGate
variable {R : Type} [Scalar R]
open QCircuit.Complex

def matrix? : StandardGate R → Option (Matrix2 R)
  | i => some ⟨one, zero, zero, one⟩
  | h =>
    let r : Complex R := real Scalar.rootHalf
    some ⟨r, r, r, r.neg⟩
  | x => some ⟨zero, one, one, zero⟩
  | y => some ⟨zero, imaginary.neg, imaginary, zero⟩
  | z => some ⟨one, zero, zero, one.neg⟩
  | p angle => some ⟨one, zero, zero, polar Scalar.one angle⟩
  | rx angle =>
    let c := real (Scalar.cos (Scalar.half angle))
    let s : Complex R := ⟨Scalar.zero, Scalar.neg (Scalar.sin (Scalar.half angle))⟩
    some ⟨c, s, s, c⟩
  | ry angle =>
    let c := real (Scalar.cos (Scalar.half angle))
    let s := real (Scalar.sin (Scalar.half angle))
    some ⟨c, s.neg, s, c⟩
  | rz angle =>
    some ⟨polar Scalar.one (Scalar.half (Scalar.neg angle)), zero, zero,
      polar Scalar.one (Scalar.half angle)⟩
  | swap _ => none

end StandardGate
end QCircuit
