import Mathlib.Tactic.LinearCombination
import QCircuit.Gate.Matrix
import QCircuit.Proofs.Arithmetic.Exact
/-! Unitary matrices.

The columns of a unitary matrix have length one and are orthogonal, so it keeps the squared length
of each pair of amplitudes. Every matrix of the catalog is unitary. -/
namespace QCircuit

namespace Complex
variable {R : Type} [Scalar R]

def conj (z : Complex R) : Complex R := ⟨z.re, Scalar.neg z.im⟩

@[simp] theorem conj_re (z : Complex R) : z.conj.re = z.re := rfl

variable [CommRing R] [ExactScalar R]

@[simp] theorem conj_im (z : Complex R) : z.conj.im = -z.im := ExactScalar.neg_eq _

@[simp] theorem conj_zero : conj (0 : Complex R) = 0 := by
  ext <;> simp

theorem normSq_eq (z : Complex R) : z.normSq = z.re * z.re + z.im * z.im := by
  rw [normSq, ExactScalar.add_eq, ExactScalar.mul_eq, ExactScalar.mul_eq]

theorem normSq_polar_one (x : R) : (polar Scalar.one x).normSq = 1 := by
  simp only [normSq_eq, polar, ExactScalar.one_eq, ExactScalar.mul_eq, one_mul]
  exact ExactScalar.cos_sq_add_sin_sq x

end Complex

variable {R : Type} [CommRing R] [Scalar R] [ExactScalar R]

structure Matrix2.Unitary (m : Matrix2 R) : Prop where
  first : m.a00.normSq + m.a10.normSq = 1
  second : m.a01.normSq + m.a11.normSq = 1
  orthogonal : m.a00.conj * m.a01 + m.a10.conj * m.a11 = 0

namespace Matrix2

theorem Unitary.normSq_add {m : Matrix2 R} (unitary : m.Unitary) (z w : Complex R) :
    (m.a00 * z + m.a01 * w).normSq + (m.a10 * z + m.a11 * w).normSq = z.normSq + w.normSq := by
  have first := unitary.first
  have second := unitary.second
  have re := congrArg Complex.re unitary.orthogonal
  have im := congrArg Complex.im unitary.orthogonal
  simp only [Complex.normSq_eq, Complex.add_re, Complex.add_im, Complex.mul_re, Complex.mul_im,
    Complex.conj_re, Complex.conj_im, Complex.zero_re, Complex.zero_im] at first second re im ⊢
  linear_combination (z.re * z.re + z.im * z.im) * first + (w.re * w.re + w.im * w.im) * second +
    2 * (z.re * w.re + z.im * w.im) * re - 2 * (z.re * w.im - z.im * w.re) * im

theorem unitary_diagonal {a b : Complex R} (first : a.normSq = 1) (second : b.normSq = 1) :
    Unitary ⟨a, 0, 0, b⟩ := by
  constructor
  · simpa [Complex.normSq_eq] using first
  · simpa [Complex.normSq_eq] using second
  · simp

theorem unitary_antidiagonal {a b : Complex R} (first : a.normSq = 1) (second : b.normSq = 1) :
    Unitary ⟨0, a, b, 0⟩ := by
  constructor
  · simpa [Complex.normSq_eq] using second
  · simpa [Complex.normSq_eq] using first
  · simp

end Matrix2

/-- The matrix of every gate but the swap is unitary. -/
theorem StandardGate.unitary (gate : StandardGate R) {m : Matrix2 R}
    (known : gate.matrix? = some m) : m.Unitary := by
  have one : (1 : Complex R).normSq = 1 := by simp [Complex.normSq_eq]
  cases gate with
  | i =>
      cases known
      exact Matrix2.unitary_diagonal one one
  | h =>
      cases known
      have square := ExactScalar.rootHalf_sq (R := R)
      constructor
      · simp only [Complex.normSq_eq, Complex.real, ExactScalar.zero_eq]
        linear_combination square
      · simp only [Complex.normSq_eq, Complex.neg_eq, Complex.neg_re, Complex.neg_im, Complex.real,
          ExactScalar.zero_eq]
        linear_combination square
      · ext <;> simp [Complex.neg_eq, Complex.real]
  | x =>
      cases known
      exact Matrix2.unitary_antidiagonal one one
  | y =>
      cases known
      apply Matrix2.unitary_antidiagonal <;>
        simp [Complex.normSq_eq, Complex.imaginary, Complex.neg]
  | z =>
      cases known
      refine Matrix2.unitary_diagonal one ?_
      simp [Complex.normSq_eq, Complex.neg_eq, Complex.one_eq]
  | p angle =>
      cases known
      exact Matrix2.unitary_diagonal one (Complex.normSq_polar_one angle)
  | rx angle =>
      cases known
      have circle := ExactScalar.cos_sq_add_sin_sq (Scalar.half angle)
      constructor
      · simp only [Complex.normSq_eq, Complex.real, ExactScalar.zero_eq, ExactScalar.neg_eq]
        linear_combination circle
      · simp only [Complex.normSq_eq, Complex.real, ExactScalar.zero_eq, ExactScalar.neg_eq]
        linear_combination circle
      · ext
        · simp [Complex.real]
        · simp only [Complex.real, ExactScalar.zero_eq, ExactScalar.neg_eq, Complex.add_im,
            Complex.mul_im, Complex.conj_re, Complex.conj_im, Complex.zero_im]
          ring
  | ry angle =>
      cases known
      have circle := ExactScalar.cos_sq_add_sin_sq (Scalar.half angle)
      constructor
      · simp only [Complex.normSq_eq, Complex.real, ExactScalar.zero_eq]
        linear_combination circle
      · simp only [Complex.normSq_eq, Complex.neg_eq, Complex.neg_re, Complex.neg_im, Complex.real,
          ExactScalar.zero_eq]
        linear_combination circle
      · ext
        · simp only [Complex.neg_eq, Complex.neg_re, Complex.neg_im, Complex.real,
            ExactScalar.zero_eq, Complex.add_re, Complex.mul_re, Complex.conj_re, Complex.conj_im,
            Complex.zero_re]
          ring
        · simp [Complex.neg_eq, Complex.real]
  | rz angle =>
      cases known
      exact Matrix2.unitary_diagonal (Complex.normSq_polar_one _) (Complex.normSq_polar_one _)
  | swap partner => cases known

end QCircuit
