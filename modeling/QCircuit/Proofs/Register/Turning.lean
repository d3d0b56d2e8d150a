import QCircuit.Proofs.Register.Independence
/-! Turning by an angle.

The gates P, RX, RY and RZ turn a qubit by an angle. With the addition formulas of cosine and sine
the product of two of their matrices is that of the sum of the angles, and the angle zero gives the
identity. A pass acts on the two amplitudes of each pair as its matrix does, so the same holds of the
register, for every target and every set of controls. -/
namespace QCircuit

namespace StandardGate
variable {R : Type} [Scalar R]

/-- The gates with an angle. -/
def turns : List (R → StandardGate R) := [.p, .rx, .ry, .rz]

/-- The matrices of a gate at its angles are multiplied by adding the angles. -/
structure TurnsBy (turn : R → StandardGate R) (matrix : R → Matrix2 R) [CommRing R] : Prop where
  single : ∀ angle, (turn angle).partner? = none
  known : ∀ angle, (turn angle).matrix? = some (matrix angle)
  add : ∀ s t, matrix (s + t) = (matrix t).mul (matrix s)
  zero : matrix 0 = ⟨1, 0, 0, 1⟩

end StandardGate

section Turn
variable {R : Type} [CommRing R] [Scalar R] {turn : R → StandardGate R} {matrix : R → Matrix2 R}
  (turns : StandardGate.TurnsBy turn matrix) {target : Qubit} {controls : Controls}
include turns

namespace Operation

theorem turn_fits {width : Nat} {angle : R}
    (fits : (⟨turn angle, target, controls⟩ : Operation R).Fits width) (other : R) :
    (⟨turn other, target, controls⟩ : Operation R).Fits width := by
  have same : (⟨turn other, target, controls⟩ : Operation R).qubits =
      (⟨turn angle, target, controls⟩ : Operation R).qubits := by
    simp only [qubits, active, turns.single]
  constructor
  · rw [same]
    exact fits.distinct
  · rw [same]
    exact fits.inRange

theorem act_turn (angle : R) (old : Nat → Complex R) (k : Nat) :
    (⟨turn angle, target, controls⟩ : Operation R).act old k =
      Register.gathered (matrix angle) target controls old k := by
  simp only [act, turns.single, turns.known]

end Operation
end Turn

section Angles
variable {R : Type} [CommRing R] [Scalar R] [AngleAddition R]

theorem Complex.polar_mul (x y : R) :
    polar Scalar.one x * polar Scalar.one y = polar Scalar.one (x + y) := by
  ext
  · simp only [polar, mul_re, ExactScalar.one_eq, ExactScalar.mul_eq, one_mul, AngleAddition.cos_add]
  · simp only [polar, mul_im, ExactScalar.one_eq, ExactScalar.mul_eq, one_mul, AngleAddition.sin_add]
    ring

theorem Complex.polar_zero : polar Scalar.one (0 : R) = 1 := by
  ext <;> simp [polar, cos_zero, sin_zero]

theorem Complex.real_one : real (1 : R) = 1 := by
  ext <;> simp [real]

theorem Complex.real_zero : real (0 : R) = 0 := by
  ext <;> simp [real]

theorem Matrix2.mul_diagonal (a b a' b' : Complex R) :
    mul ⟨a, 0, 0, b⟩ ⟨a', 0, 0, b'⟩ = ⟨a * a', 0, 0, b * b'⟩ := by
  simp [mul]

namespace StandardGate

theorem p_turnsBy :
    TurnsBy (R := R) .p fun angle => ⟨1, 0, 0, Complex.polar Scalar.one angle⟩ where
  single _ := rfl
  known _ := rfl
  add s t := by rw [Matrix2.mul_diagonal, one_mul, Complex.polar_mul, add_comm]
  zero := by rw [Complex.polar_zero]

theorem rz_turnsBy : TurnsBy (R := R) .rz fun angle =>
    ⟨Complex.polar Scalar.one (Scalar.half (-angle)), 0, 0,
      Complex.polar Scalar.one (Scalar.half angle)⟩ where
  single _ := rfl
  known angle := by rw [← ExactScalar.neg_eq]; rfl
  add s t := by
    rw [Matrix2.mul_diagonal, Complex.polar_mul, Complex.polar_mul, ← half_add, ← half_add,
      add_comm t, neg_add_rev]
  zero := by rw [neg_zero, half_zero, Complex.polar_zero]

theorem rx_turnsBy : TurnsBy (R := R) .rx fun angle =>
    let c := Complex.real (Scalar.cos (Scalar.half angle))
    let s : Complex R := ⟨Scalar.zero, Scalar.neg (Scalar.sin (Scalar.half angle))⟩
    ⟨c, s, s, c⟩ where
  single _ := rfl
  known _ := rfl
  add s t := by
    simp only [half_add, AngleAddition.cos_add, AngleAddition.sin_add, Matrix2.mul, Matrix2.mk.injEq]
    refine ⟨?_, ?_, ?_, ?_⟩ <;> ext <;>
      simp only [Complex.real, Complex.add_re, Complex.add_im, Complex.mul_re, Complex.mul_im,
        ExactScalar.zero_eq, ExactScalar.neg_eq] <;> ring
  zero := by
    simp only [half_zero, cos_zero, sin_zero, ExactScalar.neg_eq, neg_zero, Complex.real_one]
    rw [← ExactScalar.zero_eq (R := R)]
    rfl

theorem ry_turnsBy : TurnsBy (R := R) .ry fun angle =>
    let c := Complex.real (Scalar.cos (Scalar.half angle))
    let s := Complex.real (Scalar.sin (Scalar.half angle))
    ⟨c, -s, s, c⟩ where
  single _ := rfl
  known _ := rfl
  add s t := by
    simp only [half_add, AngleAddition.cos_add, AngleAddition.sin_add, Matrix2.mul, Matrix2.mk.injEq]
    refine ⟨?_, ?_, ?_, ?_⟩ <;> ext <;>
      simp only [Complex.real, Complex.add_re, Complex.add_im, Complex.mul_re, Complex.mul_im,
        Complex.neg_re, Complex.neg_im, ExactScalar.zero_eq] <;> ring
  zero := by
    simp only [half_zero, cos_zero, sin_zero, Complex.real_one, Complex.real_zero, neg_zero]

theorem exists_turnsBy {turn : R → StandardGate R} (known : turn ∈ turns) :
    ∃ matrix, TurnsBy turn matrix := by
  simp only [turns, List.mem_cons, List.not_mem_nil, or_false] at known
  rcases known with rfl | rfl | rfl | rfl
  · exact ⟨_, p_turnsBy⟩
  · exact ⟨_, rx_turnsBy⟩
  · exact ⟨_, ry_turnsBy⟩
  · exact ⟨_, rz_turnsBy⟩

end StandardGate

namespace Operation

section Turn
variable {turn : R → StandardGate R} {matrix : R → Matrix2 R}
  (turns : StandardGate.TurnsBy turn matrix) {target : Qubit} {controls : Controls}
include turns

theorem act_turn_add (apart : ∀ q ∈ controls.qubits, target.bit ≠ q.bit) (s t : R)
    (old : Nat → Complex R) (k : Nat) :
    (⟨turn t, target, controls⟩ : Operation R).act
        ((⟨turn s, target, controls⟩ : Operation R).act old) k =
      (⟨turn (s + t), target, controls⟩ : Operation R).act old k := by
  have first : (⟨turn s, target, controls⟩ : Operation R).act old =
      Register.gathered (matrix s) target controls old := funext (act_turn turns s old)
  rw [act_turn turns, first, Register.gathered_mul _ _ apart, act_turn turns, turns.add]

theorem act_turn_zero (old : Nat → Complex R) (k : Nat) :
    (⟨turn 0, target, controls⟩ : Operation R).act old k = old k := by
  rw [act_turn turns, turns.zero]
  apply Register.gathered_identity
  intro row column
  cases row <;> cases column <;> rfl

end Turn
end Operation

namespace Register

/-- A turn by one angle and then by another is the turn by their sum, and the turn by zero leaves
the register as it is. -/
theorem run_turns_add (r : Register R) (sized : r.Sized) {turn : R → StandardGate R}
    (known : turn ∈ StandardGate.turns) (target : Qubit) (controls : Controls) (s t : R)
    (valid : (⟨turn s, target, controls⟩ : Operation R).validate r.numQubits = .ok ()) :
    let gate (angle : R) : Gate R := .standard ⟨turn angle, target, controls⟩
    (run [gate s, gate t] r).2 = none ∧ (run [gate (s + t)] r).2 = none ∧
      (run [gate s, gate t] r).1.amplitudes = (run [gate (s + t)] r).1.amplitudes ∧
      (run [gate 0] r).2 = none ∧ (run [gate 0] r).1.amplitudes = r.amplitudes := by
  intro gate
  obtain ⟨matrix, turns⟩ := StandardGate.exists_turnsBy known
  have fits := Operation.turn_fits turns ((Operation.validate_ok_iff _ _).mp valid)
  have accepted : ∀ angle, (gate angle).validate r.numQubits = .ok () :=
    fun angle => (Operation.validate_ok_iff _ _).mpr (fits angle)
  have twice : run [gate s, gate t] r = ((r.applyOperation ⟨turn s, target, controls⟩).applyOperation
      ⟨turn t, target, controls⟩, none) := run_of_fit (by simp [accepted])
  have once : ∀ angle, run [gate angle] r =
      (r.applyOperation ⟨turn angle, target, controls⟩, none) :=
    fun angle => run_of_fit (by simp [accepted])
  rw [twice, once, once]
  refine ⟨rfl, rfl, ?_, rfl, ?_⟩
  · apply amplitudes_ext (applyOperation_sized (applyOperation_sized sized _) _)
      (applyOperation_sized sized _)
    · simp only [applyOperation_numQubits]
    · intro k below
      simp only [applyOperation_numQubits] at below
      rw [applyOperation_twice sized (fits s) (fits t) below,
        applyOperation_amplitude sized (fits (s + t)) below,
        Operation.act_turn_add turns (fits s).control_bit_ne]
  · apply amplitudes_ext (applyOperation_sized sized _) sized (applyOperation_numQubits _ _)
    intro k below
    rw [applyOperation_numQubits] at below
    rw [applyOperation_amplitude sized (fits 0) below, Operation.act_turn_zero turns]

end Register
end Angles

theorem Register.run_turns_add_controlled :
    let r : Register ℝ := ⟨#[⟨1, 2⟩, ⟨3, 4⟩, ⟨5, 6⟩, ⟨7, 8⟩], Array.replicate 4 ⟨9, 9⟩, 2⟩
    let gate (angle : ℝ) : Gate ℝ := .standard ⟨.rx angle, ⟨2⟩, ⟨[⟨1⟩]⟩⟩
    r.Sized ∧ StandardGate.rx ∈ StandardGate.turns (R := ℝ) ∧ (gate 1).validate 2 = .ok () ∧
      (run [gate 1, gate 2] r).1.amplitudes = (run [gate (1 + 2)] r).1.amplitudes ∧
      (run [gate 0] r).1.amplitudes = r.amplitudes := by
  intro r gate
  have sized : r.Sized := ⟨rfl, rfl⟩
  have known : StandardGate.rx ∈ StandardGate.turns (R := ℝ) := by simp [StandardGate.turns]
  have valid : (gate 1).validate 2 = .ok () := rfl
  obtain ⟨-, -, added, -, unchanged⟩ := run_turns_add r sized known ⟨2⟩ ⟨[⟨1⟩]⟩ 1 2 valid
  exact ⟨sized, known, valid, added, unchanged⟩

end QCircuit
