import QCircuit.Scalar
/-! Complex numbers over a scalar arithmetic. -/
namespace QCircuit

structure Complex (R : Type) where
  re : R
  im : R
deriving DecidableEq, Repr

namespace Complex
variable {R : Type} [Scalar R]

def zero : Complex R := ⟨Scalar.zero, Scalar.zero⟩

def one : Complex R := ⟨Scalar.one, Scalar.zero⟩

def imaginary : Complex R := ⟨Scalar.zero, Scalar.one⟩

@[inline] def real (x : R) : Complex R := ⟨x, Scalar.zero⟩

@[specialize] def neg (z : Complex R) : Complex R := ⟨Scalar.neg z.re, Scalar.neg z.im⟩

@[specialize] def add (z w : Complex R) : Complex R :=
  ⟨Scalar.add z.re w.re, Scalar.add z.im w.im⟩

@[specialize] def mul (z w : Complex R) : Complex R :=
  ⟨Scalar.sub (Scalar.mul z.re w.re) (Scalar.mul z.im w.im),
    Scalar.add (Scalar.mul z.re w.im) (Scalar.mul z.im w.re)⟩

/-- The number of this magnitude and angle. -/
def polar (magnitude angle : R) : Complex R :=
  ⟨Scalar.mul magnitude (Scalar.cos angle), Scalar.mul magnitude (Scalar.sin angle)⟩

/-- The squared magnitude. -/
@[specialize] def normSq (z : Complex R) : R :=
  Scalar.add (Scalar.mul z.re z.re) (Scalar.mul z.im z.im)

end Complex
end QCircuit
