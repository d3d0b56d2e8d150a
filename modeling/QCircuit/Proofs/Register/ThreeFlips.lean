import QCircuit.Proofs.Register.Classical
/-! A swap as three flips.

Two bits are exchanged by adding the first to the second, the second to the first, and the first to
the second again, where adding a bit is a flip with that bit among its controls. The swap permutes
the indices in one pass and each flip is a pass with a matrix, so the two ways share nothing but what
they do to the bits of an index. -/
namespace QCircuit

theorem Qubit.withBit_comm {p q : Qubit} (apart : p.bit ≠ q.bit) (value value' : Bool)
    (index : Nat) :
    p.withBit value (q.withBit value' index) = q.withBit value' (p.withBit value index) := by
  apply Nat.eq_of_testBit_eq
  intro i
  simp only [testBit_withBit]
  by_cases own : p.bit = i
  · have other : q.bit ≠ i := by rwa [← own, ne_comm]
    simp [own, other]
  · simp [own]

/-- The controls with one more behind them. -/
def Controls.plus (controls : Controls) (q : Qubit) : Controls := ⟨controls.qubits ++ [q]⟩

theorem Controls.isSatisfied_plus (controls : Controls) (q : Qubit) (index : Nat) :
    (controls.plus q).isSatisfied index = (controls.isSatisfied index && q.isSet index) := by
  rw [Bool.eq_iff_iff, Bool.and_eq_true, isSatisfied_iff, isSatisfied_iff, plus,
    List.forall_mem_append, List.forall_mem_singleton]

namespace Operation
variable {R : Type} (a b : Qubit) (controls : Controls)

/-- The flips that exchange two qubits under controls. -/
def threeFlips : List (Operation R) :=
  [⟨.x, b, controls.plus a⟩, ⟨.x, a, controls.plus b⟩, ⟨.x, b, controls.plus a⟩]

-- A flip under a bit adds this bit.
theorem onBits_flip_plus (index : Nat) :
    (⟨.x, b, controls.plus a⟩ : Operation R).onBits index =
      if controls.isSatisfied index then b.withBit (b.isSet index ^^ a.isSet index) index
      else index := by
  rw [onBits_flip rfl, Controls.isSatisfied_plus, Qubit.flip]
  have own := b.withBit_isSet index
  cases controls.isSatisfied index with
  | false => rfl
  | true => cases set : a.isSet index <;> simp [own]

variable {a b : Qubit} {controls : Controls}

theorem comesFrom_threeFlips (differ : a.bit ≠ b.bit)
    (apart : ∀ q ∈ controls.qubits, a.bit ≠ q.bit) (apart' : ∀ q ∈ controls.qubits, b.bit ≠ q.bit)
    (index : Nat) :
    Register.comesFrom (threeFlips (R := R) a b controls) index =
      Register.swapIndex a b controls.mask index := by
  have kept := fun value => Controls.isSatisfied_withBit apart value
  have kept' := fun value => Controls.isSatisfied_withBit apart' value
  rw [Register.swapIndex_eq]
  simp only [Register.comesFrom, threeFlips, List.foldr_cons, List.foldr_nil, onBits_flip_plus]
  cases met : controls.isSatisfied index with
  | false => simp [met]
  | true =>
      simp only [met, kept, kept', if_true, Qubit.isSet_withBit, Qubit.exchange,
        Qubit.isSet_withBit_of_ne differ, Qubit.isSet_withBit_of_ne (Ne.symm differ)]
      rw [Qubit.withBit_comm differ, Qubit.withBit_withBit]
      cases a.isSet index <;> cases b.isSet index <;> rfl

end Operation

section Fitting
variable {R : Type} {a b : Qubit} {controls : Controls} {width : Nat} (differ : a ≠ b)
  (apart : a ∉ controls.qubits) (apart' : b ∉ controls.qubits)
  (inRange : ∀ q ∈ a :: b :: controls.qubits, 1 ≤ q.number ∧ q.number ≤ width)
include differ apart apart' inRange

theorem Operation.swap_fits_iff :
    (⟨.swap b, a, controls⟩ : Operation R).Fits width ↔ controls.qubits.Nodup := by
  have listed : (⟨.swap b, a, controls⟩ : Operation R).qubits = a :: b :: controls.qubits := rfl
  constructor
  · intro fits
    have distinct := fits.distinct
    rw [listed, List.nodup_cons, List.nodup_cons] at distinct
    exact distinct.2.2
  · intro distinct
    refine ⟨?_, by rwa [listed]⟩
    rw [listed, List.nodup_cons, List.nodup_cons, List.mem_cons, not_or]
    exact ⟨⟨differ, apart⟩, apart', distinct⟩

theorem Operation.flip_plus_fits_iff :
    (⟨.x, b, controls.plus a⟩ : Operation R).Fits width ↔ controls.qubits.Nodup := by
  have listed : (⟨.x, b, controls.plus a⟩ : Operation R).qubits = b :: (controls.qubits ++ [a]) :=
    rfl
  have same : (b :: (controls.qubits ++ [a])).Perm (a :: b :: controls.qubits) :=
    ((List.perm_append_singleton a controls.qubits).cons b).trans (List.Perm.swap a b _)
  rw [← swap_fits_iff (R := R) differ apart apart' inRange]
  constructor
  · exact fun fits => ⟨same.nodup_iff.mp fits.distinct, inRange⟩
  · exact fun fits => ⟨same.nodup_iff.mpr fits.distinct, fun q inside =>
      inRange q (same.mem_iff.mp inside)⟩

end Fitting

namespace Register
variable {R : Type} [CommRing R] [Scalar R] [ExactScalar R]

/-- A swap of two qubits under controls and the three flips give the same amplitudes. If a control is
written twice both are refused and change nothing, and otherwise both are accepted. -/
theorem swap_is_three_flips (r : Register R) (sized : r.Sized) (a b : Qubit) (controls : Controls)
    (differ : a ≠ b) (apart : a ∉ controls.qubits) (apart' : b ∉ controls.qubits)
    (inRange : ∀ q ∈ a :: b :: controls.qubits, 1 ≤ q.number ∧ q.number ≤ r.numQubits) :
    let swap : List (Gate R) := [.standard ⟨.swap b, a, controls⟩]
    let flips : List (Gate R) := (Operation.threeFlips a b controls).map .standard
    (run swap r).1.amplitudes = (run flips r).1.amplitudes ∧
      ((run swap r).2 = none ↔ controls.qubits.Nodup) ∧
      ((run flips r).2 = none ↔ controls.qubits.Nodup) := by
  intro swap flips
  have inRange' : ∀ q ∈ b :: a :: controls.qubits, 1 ≤ q.number ∧ q.number ≤ r.numQubits :=
    fun q inside => inRange q ((List.Perm.swap a b _).mem_iff.mp inside)
  have swapFits := Operation.swap_fits_iff (R := R) differ apart apart' inRange
  have first := Operation.flip_plus_fits_iff (R := R) differ apart apart' inRange
  have second := Operation.flip_plus_fits_iff (R := R) differ.symm apart' apart inRange'
  have accepts : (run swap r).2 = none ↔ controls.qubits.Nodup := by
    rw [run_completes_iff_fit, ← swapFits]
    simp [swap, Gate.leavesOf, Gate.leaves]
  have accepts' : (run flips r).2 = none ↔ controls.qubits.Nodup := by
    rw [run_completes_iff_fit, Gate.leavesOf_standard]
    simp [Operation.threeFlips, first, second]
  refine ⟨?_, accepts, accepts'⟩
  by_cases distinct : controls.qubits.Nodup
  · have fits := swapFits.mpr distinct
    have bit_ne : a.bit ≠ b.bit := fun same => differ (Qubit.eq_of_bit_eq
      (inRange a List.mem_cons_self).1 (inRange' b List.mem_cons_self).1 same)
    have classical : ∀ op ∈ Gate.leavesOf swap, op.gate.Classical := by
      simp [swap, Gate.leavesOf, Gate.leaves, StandardGate.Classical]
    have classical' : ∀ op ∈ Gate.leavesOf flips, op.gate.Classical := by
      rw [Gate.leavesOf_standard]
      simp [Operation.threeFlips, StandardGate.Classical]
    obtain ⟨sized', wide⟩ := run_keeps sized swap
    obtain ⟨sized'', wide'⟩ := run_keeps sized flips
    apply amplitudes_ext sized' sized'' (wide.trans wide'.symm)
    intro k below
    rw [wide] at below
    rw [run_amplitude_classical sized classical (accepts.mpr distinct) below,
      run_amplitude_classical sized classical' (accepts'.mpr distinct) below,
      Gate.leavesOf_standard, Operation.comesFrom_threeFlips bit_ne fits.control_bit_ne
        (fits.active_control_bit_ne (Operation.mem_active_of_partner rfl))]
    exact congrArg r.amplitude (Operation.onBits_swap rfl k)
  · have misfit : ∀ op : Operation R, (op.Fits r.numQubits ↔ controls.qubits.Nodup) →
        (Gate.standard op).validate r.numQubits ≠ .ok () := by
      intro op only valid
      exact distinct (only.mp ((op.validate_ok_iff _).mp valid))
    rw [run_of_misfit_first (misfit _ swapFits)]
    exact congrArg amplitudes (run_of_misfit_first (misfit _ first) _).symm

theorem swap_is_three_flips_controlled :
    let r : Register ℝ := ⟨#[⟨1, 2⟩, ⟨3, 4⟩, ⟨5, 6⟩, ⟨7, 8⟩, ⟨9, 10⟩, ⟨11, 12⟩, ⟨13, 14⟩, ⟨15, 16⟩],
      Array.replicate 8 ⟨17, 18⟩, 3⟩
    let controls : Controls := ⟨[⟨2⟩]⟩
    let swap : List (Gate ℝ) := [.standard ⟨.swap ⟨1⟩, ⟨3⟩, controls⟩]
    let flips : List (Gate ℝ) := (Operation.threeFlips ⟨3⟩ ⟨1⟩ controls).map .standard
    r.Sized ∧ (⟨3⟩ : Qubit) ≠ ⟨1⟩ ∧ ⟨3⟩ ∉ controls.qubits ∧ ⟨1⟩ ∉ controls.qubits ∧
      (∀ q ∈ ⟨3⟩ :: ⟨1⟩ :: controls.qubits, 1 ≤ q.number ∧ q.number ≤ r.numQubits) ∧
      (run swap r).2 = none ∧ (run flips r).2 = none ∧
      (run swap r).1.amplitudes = (run flips r).1.amplitudes := by
  intro r controls swap flips
  have sized : r.Sized := ⟨rfl, rfl⟩
  have differ : (⟨3⟩ : Qubit) ≠ ⟨1⟩ := by decide
  have apart : (⟨3⟩ : Qubit) ∉ controls.qubits := by decide
  have apart' : (⟨1⟩ : Qubit) ∉ controls.qubits := by decide
  have inRange : ∀ q ∈ ⟨3⟩ :: ⟨1⟩ :: controls.qubits, 1 ≤ q.number ∧ q.number ≤ r.numQubits := by
    decide
  obtain ⟨same, accepts, accepts'⟩ :=
    swap_is_three_flips r sized ⟨3⟩ ⟨1⟩ controls differ apart apart' inRange
  exact ⟨sized, differ, apart, apart', inRange, accepts.mpr (by decide), accepts'.mpr (by decide),
    same⟩

end Register
end QCircuit
