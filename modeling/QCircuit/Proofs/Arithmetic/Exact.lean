import Mathlib.Analysis.SpecialFunctions.Trigonometric.Basic
import QCircuit.Complex
/-! Exact arithmetic.

A run is written for any arithmetic. Here are the laws that doubles satisfy up to rounding, as laws
that hold exactly. Under them the complex numbers of a run are a commutative ring, and the real
numbers are an example. -/
namespace QCircuit

/-- The operations are those of a ring with halves, and each angle gives a point of the circle. -/
class ExactScalar (R : Type) [CommRing R] [Scalar R] : Prop where
  zero_eq : (Scalar.zero : R) = 0
  one_eq : (Scalar.one : R) = 1
  add_eq (x y : R) : Scalar.add x y = x + y
  sub_eq (x y : R) : Scalar.sub x y = x - y
  mul_eq (x y : R) : Scalar.mul x y = x * y
  neg_eq (x : R) : Scalar.neg x = -x
  half_add_half (x : R) : Scalar.half x + Scalar.half x = x
  rootHalf_sq : 2 * (Scalar.rootHalf * Scalar.rootHalf : R) = 1
  cos_sq_add_sin_sq (x : R) : Scalar.cos x * Scalar.cos x + Scalar.sin x * Scalar.sin x = 1

/-- Turning back mirrors the point of an angle. -/
class SymmetricAngles (R : Type) [CommRing R] [Scalar R] : Prop extends ExactScalar R where
  cos_neg (x : R) : Scalar.cos (-x) = Scalar.cos x
  sin_neg (x : R) : Scalar.sin (-x) = -Scalar.sin x

/-- The usual addition formulas. -/
class AngleAddition (R : Type) [CommRing R] [Scalar R] : Prop extends ExactScalar R where
  cos_add (x y : R) :
    Scalar.cos (x + y) = Scalar.cos x * Scalar.cos y - Scalar.sin x * Scalar.sin y
  sin_add (x y : R) :
    Scalar.sin (x + y) = Scalar.sin x * Scalar.cos y + Scalar.cos x * Scalar.sin y

/-- The operations are those of an ordered field. -/
class OrderedScalar (R : Type) [Field R] [LinearOrder R] [Scalar R] : Prop
    extends ExactScalar R where
  div_eq (x y : R) : Scalar.div x y = x / y
  less_iff (x y : R) : Scalar.less x y = true ↔ x < y

attribute [simp] ExactScalar.zero_eq ExactScalar.one_eq ExactScalar.add_eq ExactScalar.sub_eq
  ExactScalar.mul_eq ExactScalar.neg_eq SymmetricAngles.cos_neg SymmetricAngles.sin_neg

namespace Complex
variable {R : Type}

@[ext] theorem ext {z w : Complex R} (re : z.re = w.re) (im : z.im = w.im) : z = w := by
  rw [Complex.mk.injEq]
  exact ⟨re, im⟩

variable [Scalar R]

instance : Zero (Complex R) := ⟨zero⟩
instance : One (Complex R) := ⟨one⟩
instance : Add (Complex R) := ⟨add⟩
instance : Mul (Complex R) := ⟨mul⟩
instance : Neg (Complex R) := ⟨neg⟩

theorem zero_eq : (zero : Complex R) = 0 := rfl
theorem one_eq : (one : Complex R) = 1 := rfl
theorem add_eq (z w : Complex R) : z.add w = z + w := rfl
theorem mul_eq (z w : Complex R) : z.mul w = z * w := rfl
theorem neg_eq (z : Complex R) : z.neg = -z := rfl

end Complex

section Laws
variable {R : Type} [CommRing R] [Scalar R] [ExactScalar R]

-- Two is a unit, so the law of halves determines them.
theorem half_eq (x : R) : Scalar.half x = Scalar.rootHalf * Scalar.rootHalf * x := by
  linear_combination (-Scalar.half x) * ExactScalar.rootHalf_sq (R := R) +
    (Scalar.rootHalf * Scalar.rootHalf) * ExactScalar.half_add_half x

theorem half_neg (x : R) : Scalar.half (-x) = -Scalar.half x := by
  rw [half_eq, half_eq, mul_neg]

theorem half_add (x y : R) : Scalar.half (x + y) = Scalar.half x + Scalar.half y := by
  rw [half_eq, half_eq, half_eq, mul_add]

theorem half_zero : Scalar.half (0 : R) = 0 := by
  rw [half_eq, mul_zero]

theorem eq_of_two_mul_eq {x y : R} (twice : (2 : R) * x = 2 * y) : x = y := by
  linear_combination (Scalar.rootHalf * Scalar.rootHalf) * twice -
    (x - y) * ExactScalar.rootHalf_sq (R := R)

namespace Complex

@[simp] theorem zero_re : (0 : Complex R).re = 0 := ExactScalar.zero_eq
@[simp] theorem zero_im : (0 : Complex R).im = 0 := ExactScalar.zero_eq
@[simp] theorem one_re : (1 : Complex R).re = 1 := ExactScalar.one_eq
@[simp] theorem one_im : (1 : Complex R).im = 0 := ExactScalar.zero_eq
@[simp] theorem add_re (z w : Complex R) : (z + w).re = z.re + w.re := ExactScalar.add_eq _ _
@[simp] theorem add_im (z w : Complex R) : (z + w).im = z.im + w.im := ExactScalar.add_eq _ _
@[simp] theorem neg_re (z : Complex R) : (-z).re = -z.re := ExactScalar.neg_eq _
@[simp] theorem neg_im (z : Complex R) : (-z).im = -z.im := ExactScalar.neg_eq _

@[simp] theorem mul_re (z w : Complex R) : (z * w).re = z.re * w.re - z.im * w.im := by
  change Scalar.sub (Scalar.mul z.re w.re) (Scalar.mul z.im w.im) = _
  rw [ExactScalar.sub_eq, ExactScalar.mul_eq, ExactScalar.mul_eq]

@[simp] theorem mul_im (z w : Complex R) : (z * w).im = z.re * w.im + z.im * w.re := by
  change Scalar.add (Scalar.mul z.re w.im) (Scalar.mul z.im w.re) = _
  rw [ExactScalar.add_eq, ExactScalar.mul_eq, ExactScalar.mul_eq]

instance : CommRing (Complex R) where
  add_assoc z w v := by ext <;> simp only [add_re, add_im] <;> ring
  zero_add z := by ext <;> simp
  add_zero z := by ext <;> simp
  add_comm z w := by ext <;> simp only [add_re, add_im] <;> ring
  neg_add_cancel z := by ext <;> simp
  mul_assoc z w v := by ext <;> simp only [mul_re, mul_im] <;> ring
  one_mul z := by ext <;> simp
  mul_one z := by ext <;> simp
  mul_comm z w := by ext <;> simp only [mul_re, mul_im] <;> ring
  left_distrib z w v := by ext <;> simp only [mul_re, mul_im, add_re, add_im] <;> ring
  right_distrib z w v := by ext <;> simp only [mul_re, mul_im, add_re, add_im] <;> ring
  zero_mul z := by ext <;> simp
  mul_zero z := by ext <;> simp
  nsmul := nsmulRec
  zsmul := zsmulRec

@[simp] theorem sub_re (z w : Complex R) : (z - w).re = z.re - w.re := by
  rw [sub_eq_add_neg, add_re, neg_re, sub_eq_add_neg]

@[simp] theorem sub_im (z w : Complex R) : (z - w).im = z.im - w.im := by
  rw [sub_eq_add_neg, add_im, neg_im, sub_eq_add_neg]

end Complex
end Laws

section Origin
variable {R : Type} [CommRing R] [Scalar R] [AngleAddition R]

-- The formulas for 0 + 0 on the circle leave one point: the cosine c of zero satisfies
-- (1 - c) (1 + 2 c) = 0 and c (c - 1) (1 - 2 c) = 0.
theorem cos_zero : Scalar.cos (0 : R) = 1 := by
  have circle := ExactScalar.cos_sq_add_sin_sq (0 : R)
  have double := AngleAddition.cos_add (0 : R) 0
  have double' := AngleAddition.sin_add (0 : R) 0
  rw [add_zero] at double double'
  linear_combination (Scalar.cos 0 - 1) * (double - circle) - Scalar.sin 0 * double' +
    (1 - 2 * Scalar.cos 0) * double

theorem sin_zero : Scalar.sin (0 : R) = 0 := by
  have double := AngleAddition.sin_add (0 : R) 0
  rw [add_zero, cos_zero] at double
  linear_combination -double

end Origin

noncomputable section Reals

instance : Scalar ℝ where
  zero := 0
  one := 1
  rootHalf := √(1 / 2)
  add := (· + ·)
  sub := (· - ·)
  mul := (· * ·)
  div := (· / ·)
  neg := (- ·)
  half x := x / 2
  cos := Real.cos
  sin := Real.sin
  less x y := open Classical in decide (x < y)

instance : SymmetricAngles ℝ where
  zero_eq := rfl
  one_eq := rfl
  add_eq _ _ := rfl
  sub_eq _ _ := rfl
  mul_eq _ _ := rfl
  neg_eq _ := rfl
  half_add_half := add_halves
  rootHalf_sq := by
    have square : √(1 / 2 : ℝ) * √(1 / 2) = 1 / 2 := Real.mul_self_sqrt (by norm_num)
    change 2 * (√(1 / 2) * √(1 / 2)) = (1 : ℝ)
    rw [square]
    norm_num
  cos_sq_add_sin_sq x := by
    change Real.cos x * Real.cos x + Real.sin x * Real.sin x = 1
    rw [← sq, ← sq, Real.cos_sq_add_sin_sq]
  cos_neg := Real.cos_neg
  sin_neg := Real.sin_neg

instance : AngleAddition ℝ where
  cos_add := Real.cos_add
  sin_add := Real.sin_add

instance : OrderedScalar ℝ where
  toExactScalar := inferInstance
  div_eq _ _ := rfl
  less_iff _ _ := decide_eq_true_iff

end Reals
end QCircuit
