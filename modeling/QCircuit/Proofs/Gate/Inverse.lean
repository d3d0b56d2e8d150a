import Mathlib.Tactic.LinearCombination
import QCircuit.Gate.Matrix
import QCircuit.Proofs.Arithmetic.Exact
import QCircuit.Proofs.Gate.Validity
import QCircuit.Proofs.Register.MatrixPass
/-! Inverses of gates.

A gate is undone by the same gate with its angle turned back, and a group by the inverses of its
members from the last to the first. The inverse acts on the same qubits, so it fits the same
registers. -/
namespace QCircuit

section Inverses
variable {R : Type} [Scalar R]

/-- The gate with its angle turned back. The gates without an angle undo themselves. -/
def StandardGate.inverse : StandardGate R → StandardGate R
  | .p angle => .p (Scalar.neg angle)
  | .rx angle => .rx (Scalar.neg angle)
  | .ry angle => .ry (Scalar.neg angle)
  | .rz angle => .rz (Scalar.neg angle)
  | gate => gate

theorem StandardGate.inverse_partner? (gate : StandardGate R) :
    gate.inverse.partner? = gate.partner? := by
  cases gate <;> rfl

theorem StandardGate.inverse_matrix?_isSome (gate : StandardGate R) :
    gate.inverse.matrix?.isSome = gate.matrix?.isSome := by
  cases gate <;> rfl

/-- The same gate turned back, on the same qubits. -/
def Operation.inverse (op : Operation R) : Operation R := { op with gate := op.gate.inverse }

theorem Operation.inverse_qubits (op : Operation R) : op.inverse.qubits = op.qubits := by
  rw [qubits, qubits, active, active, inverse, StandardGate.inverse_partner?]

theorem Operation.Fits.inverse {op : Operation R} {width : Nat} (fits : op.Fits width) :
    op.inverse.Fits width := by
  constructor
  · rw [inverse_qubits]
    exact fits.distinct
  · rw [inverse_qubits]
    exact fits.inRange

namespace Gate

mutual

def inverse : Gate R → Gate R
  | standard op => standard op.inverse
  | composite name members => composite name (inverseAll members)

/-- The inverses of the gates of a list, in the opposite order. -/
def inverseAll : List (Gate R) → List (Gate R)
  | [] => []
  | g :: rest => inverseAll rest ++ [g.inverse]

end

mutual

theorem leaves_inverse : ∀ g : Gate R,
    g.inverse.leaves = (g.leaves.map Operation.inverse).reverse
  | standard op => rfl
  | composite _ members => by rw [inverse, leaves, leaves, leavesOf_inverseAll members]

theorem leavesOf_inverseAll : ∀ gates : List (Gate R),
    leavesOf (inverseAll gates) = ((leavesOf gates).map Operation.inverse).reverse
  | [] => rfl
  | g :: rest => by
      rw [inverseAll, leavesOf_append, leavesOf_inverseAll rest, leavesOf, leavesOf, leavesOf,
        List.append_nil, leaves_inverse g, List.map_append, List.reverse_append]

end

theorem inverseAll_validate {width : Nat} {gates : List (Gate R)}
    (valid : ∀ g ∈ gates, g.validate width = .ok ()) :
    ∀ g ∈ inverseAll gates, g.validate width = .ok () := by
  rw [forall_validate_iff] at valid ⊢
  intro op inside
  rw [leavesOf_inverseAll, List.mem_reverse, List.mem_map] at inside
  obtain ⟨original, leaf, rfl⟩ := inside
  exact (valid original leaf).inverse

end Gate
end Inverses

namespace Matrix2
variable {R : Type} [CommRing R] [Scalar R] [ExactScalar R]

/-- The product of two matrices is the identity. -/
def Inverts (m m' : Matrix2 R) : Prop :=
  ∀ row column, m.entry row false * m'.entry false column + m.entry row true * m'.entry true column =
    if row = column then 1 else 0

theorem inverts_diagonal {a b a' b' : Complex R} (first : a * a' = 1) (second : b * b' = 1) :
    Inverts ⟨a, 0, 0, b⟩ ⟨a', 0, 0, b'⟩ := by
  intro row column
  cases row <;> cases column <;> simp [entry, first, second]

-- A matrix of determinant one whose diagonal entries agree.
theorem inverts_rotation {c s t : Complex R} (unit : c * c - s * t = 1) :
    Inverts ⟨c, -s, -t, c⟩ ⟨c, s, t, c⟩ := by
  intro row column
  match row, column with
  | false, false =>
      simp only [entry, if_true]
      linear_combination unit
  | false, true =>
      simp only [entry, Bool.false_eq_true, if_false]
      ring
  | true, false =>
      simp only [entry, Bool.true_eq_false, if_false]
      ring
  | true, true =>
      simp only [entry, if_true]
      linear_combination unit

end Matrix2

section Angles
variable {R : Type} [CommRing R] [Scalar R] [SymmetricAngles R]

theorem Complex.rootHalf_mul_add_mul {R : Type} [CommRing R] [Scalar R] [ExactScalar R] :
    (real Scalar.rootHalf : Complex R) * real Scalar.rootHalf +
      real Scalar.rootHalf * real Scalar.rootHalf = 1 := by
  have square := ExactScalar.rootHalf_sq (R := R)
  ext
  · simp only [real, ExactScalar.zero_eq, add_re, mul_re, one_re]
    linear_combination square
  · simp [real]

theorem Complex.polar_mul_polar_neg (x : R) :
    polar Scalar.one (-x) * polar Scalar.one x = 1 := by
  have circle := ExactScalar.cos_sq_add_sin_sq x
  ext
  · simp only [polar, mul_re, ExactScalar.mul_eq, ExactScalar.one_eq, SymmetricAngles.cos_neg,
      SymmetricAngles.sin_neg, one_re]
    linear_combination circle
  · simp only [polar, mul_im, ExactScalar.mul_eq, ExactScalar.one_eq, SymmetricAngles.cos_neg,
      SymmetricAngles.sin_neg, one_im]
    ring

namespace StandardGate

theorem inverts_rx (angle : R) {m m' : Matrix2 R} (known : (rx angle).matrix? = some m)
    (known' : (rx (-angle)).matrix? = some m') : m'.Inverts m := by
  obtain rfl := Option.some.inj known
  obtain rfl := Option.some.inj known'
  have circle := ExactScalar.cos_sq_add_sin_sq (Scalar.half angle)
  have back : (⟨Scalar.zero, Scalar.neg (Scalar.sin (Scalar.half (-angle)))⟩ : Complex R) =
      -⟨Scalar.zero, Scalar.neg (Scalar.sin (Scalar.half angle))⟩ := by
    ext <;> simp [half_neg]
  rw [half_neg, SymmetricAngles.cos_neg, ← half_neg, back]
  apply Matrix2.inverts_rotation
  ext
  · simp only [Complex.real, ExactScalar.zero_eq, ExactScalar.neg_eq, Complex.sub_re,
      Complex.mul_re, Complex.one_re]
    linear_combination circle
  · simp [Complex.real]

theorem inverts_ry (angle : R) {m m' : Matrix2 R} (known : (ry angle).matrix? = some m)
    (known' : (ry (-angle)).matrix? = some m') : m'.Inverts m := by
  obtain rfl := Option.some.inj known
  obtain rfl := Option.some.inj known'
  have circle := ExactScalar.cos_sq_add_sin_sq (Scalar.half angle)
  have back : Complex.real (Scalar.sin (Scalar.half (-angle))) =
      -Complex.real (Scalar.sin (Scalar.half angle)) := by
    ext <;> simp [half_neg, Complex.real]
  rw [back, Complex.neg_eq, Complex.neg_eq, half_neg, SymmetricAngles.cos_neg]
  apply Matrix2.inverts_rotation
  ext
  · simp only [Complex.real, ExactScalar.zero_eq, Complex.neg_re, Complex.neg_im, Complex.sub_re,
      Complex.mul_re, Complex.one_re]
    linear_combination circle
  · simp [Complex.real]

/-- The matrix of the inverse undoes the matrix of a gate. -/
theorem inverts (gate : StandardGate R) {m m' : Matrix2 R} (known : gate.matrix? = some m)
    (known' : gate.inverse.matrix? = some m') : m'.Inverts m := by
  cases gate with
  | i =>
      cases known
      cases known'
      exact Matrix2.inverts_diagonal (one_mul 1) (one_mul 1)
  | h =>
      cases known
      cases known'
      have square := Complex.rootHalf_mul_add_mul (R := R)
      intro row column
      cases row <;> cases column <;> simp [Matrix2.entry, Complex.neg_eq, square]
  | x =>
      cases known
      cases known'
      intro row column
      cases row <;> cases column <;> simp [Matrix2.entry, Complex.zero_eq, Complex.one_eq]
  | y =>
      cases known
      cases known'
      intro row column
      cases row <;> cases column <;> ext <;>
        simp [Matrix2.entry, Complex.zero_eq, Complex.imaginary, Complex.neg]
  | z =>
      cases known
      cases known'
      exact Matrix2.inverts_diagonal (one_mul 1) ((neg_mul_neg 1 1).trans (one_mul 1))
  | p angle =>
      cases known
      cases known'
      rw [ExactScalar.neg_eq]
      exact Matrix2.inverts_diagonal (one_mul 1) (Complex.polar_mul_polar_neg angle)
  | rx angle =>
      rw [inverse, ExactScalar.neg_eq] at known'
      exact inverts_rx angle known known'
  | ry angle =>
      rw [inverse, ExactScalar.neg_eq] at known'
      exact inverts_ry angle known known'
  | rz angle =>
      cases known
      cases known'
      rw [ExactScalar.neg_eq, ExactScalar.neg_eq, half_neg, half_neg, neg_neg]
      refine Matrix2.inverts_diagonal ?_ (Complex.polar_mul_polar_neg _)
      rw [mul_comm]
      exact Complex.polar_mul_polar_neg _
  | swap partner => cases known

end StandardGate
end Angles
end QCircuit
