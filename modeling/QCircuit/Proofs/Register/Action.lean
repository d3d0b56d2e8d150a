import QCircuit.Proofs.Arithmetic.Exact
import QCircuit.Proofs.Register.Rejection
import QCircuit.Proofs.Register.SwapPass
/-! What an operation does to a register.

The passes over the buffers come down to one function on amplitudes: each index of the new register
is computed from the old ones, whatever the second buffer held. -/
namespace QCircuit

/-- The amplitude at an index after an operation, given the amplitudes before it. -/
def Operation.act {R : Type} [Scalar R] (op : Operation R) (old : Nat → Complex R) (k : Nat) :
    Complex R :=
  match op.gate.partner? with
  | some partner => old (Register.swapIndex op.target partner op.controls.mask k)
  | none =>
    match op.gate.matrix? with
    | some m => Register.gathered m op.target op.controls old k
    | none => old k

/-- The matrix that does what the second does and then what the first does. -/
def Matrix2.mul {R : Type} [Scalar R] (m m' : Matrix2 R) : Matrix2 R where
  a00 := m.a00 * m'.a00 + m.a01 * m'.a10
  a01 := m.a00 * m'.a01 + m.a01 * m'.a11
  a10 := m.a10 * m'.a00 + m.a11 * m'.a10
  a11 := m.a10 * m'.a01 + m.a11 * m'.a11

theorem Matrix2.entry_mul {R : Type} [Scalar R] (m m' : Matrix2 R) (row column : Bool) :
    (m.mul m').entry row column =
      m.entry row false * m'.entry false column + m.entry row true * m'.entry true column := by
  cases row <;> cases column <;> rfl

namespace Register
variable {R : Type} [Scalar R]

theorem applyOperation_sized {r : Register R} (sized : r.Sized) (op : Operation R) :
    (r.applyOperation op).Sized := by
  unfold applyOperation
  cases op.gate.partner? with
  | some partner => exact swapPass_sized sized _ _ _
  | none =>
      cases op.gate.matrix? with
      | some m => exact matrixPass_sized sized m _ _
      | none => exact sized

theorem operate_sized {r : Register R} (sized : r.Sized) (ops : List (Operation R)) :
    (operate ops r).Sized := by
  induction ops generalizing r with
  | nil => exact sized
  | cons op rest ih => exact ih (applyOperation_sized sized op)

theorem operate_numQubits (ops : List (Operation R)) (r : Register R) :
    (operate ops r).numQubits = r.numQubits := by
  induction ops generalizing r with
  | nil => rfl
  | cons op rest ih => exact (ih (r.applyOperation op)).trans (applyOperation_numQubits op r)

theorem perform_sized {r : Register R} (sized : r.Sized) (g : Gate R) : (perform g r).Sized := by
  rw [perform_eq_operate]
  exact operate_sized sized g.leaves

theorem apply_keeps {r next : Register R} {g : Gate R} (sized : r.Sized)
    (applied : r.apply g = .ok next) : next.Sized ∧ next.numQubits = r.numQubits := by
  unfold apply at applied
  split at applied
  · cases applied
    exact ⟨perform_sized sized g, perform_numQubits g r⟩
  · cases applied

theorem run_keeps {r : Register R} (sized : r.Sized) (gates : List (Gate R)) :
    (run gates r).1.Sized ∧ (run gates r).1.numQubits = r.numQubits := by
  induction gates generalizing r with
  | nil => exact ⟨sized, rfl⟩
  | cons g rest ih =>
      rw [run]
      cases applied : r.apply g with
      | error e => exact ⟨sized, rfl⟩
      | ok next =>
          obtain ⟨sized', width⟩ := apply_keeps sized applied
          obtain ⟨last, width'⟩ := ih sized'
          exact ⟨last, width'.trans width⟩

theorem applyOperation_amplitude {r : Register R} (sized : r.Sized) {op : Operation R}
    (fits : op.Fits r.numQubits) {k : Nat} (below : k < 1 <<< r.numQubits) :
    (r.applyOperation op).amplitude k = op.act r.amplitude k := by
  have inside := fits.target_bit_lt
  have apart := fits.control_bit_ne
  unfold applyOperation Operation.act
  cases named : op.gate.partner? with
  | some partner =>
      have active := Operation.mem_active_of_partner named
      have moved := swapPass_getElem? sized apart (fits.active_control_bit_ne active) inside
        (fits.active_bit_lt active) below
      simp only [amplitude, Array.getD_eq_getD_getElem?, moved]
  | none =>
      cases op.gate.matrix? with
      | some m =>
          have filled := matrixPass_getElem? sized m apart inside below
          simp only [amplitude, Array.getD_eq_getD_getElem?, filled, Option.getD_some]
      | none => rfl

theorem gathered_congr (m : Matrix2 R) {target : Qubit} (controls : Controls) {width : Nat}
    (inside : target.bit < width) {old old' : Nat → Complex R}
    (same : ∀ k < 1 <<< width, old k = old' k) {k : Nat} (below : k < 1 <<< width) :
    gathered m target controls old k = gathered m target controls old' k := by
  simp only [gathered, same k below, same _ (Qubit.withBit_lt inside below _)]

-- In exact arithmetic the two amplitudes of a pair are multiplied by the matrix.
theorem gathered_eq [CommRing R] [ExactScalar R] (m : Matrix2 R) (target : Qubit)
    (controls : Controls) (old : Nat → Complex R) (k : Nat) :
    gathered m target controls old k =
      if controls.isSatisfied k then
        m.entry (target.isSet k) false * old (target.withBit false k) +
          m.entry (target.isSet k) true * old (target.withBit true k)
      else old k := by
  have zero_add' (z : Complex R) : Complex.zero.add z = z := zero_add z
  simp only [gathered, zero_add', Complex.add_eq, Complex.mul_eq]

-- Both passes move the two amplitudes of a pair within it, so they multiply as matrices.
theorem gathered_mul [CommRing R] [ExactScalar R] (m m' : Matrix2 R) {target : Qubit}
    {controls : Controls} (apart : ∀ q ∈ controls.qubits, target.bit ≠ q.bit)
    (old : Nat → Complex R) (k : Nat) :
    gathered m' target controls (gathered m target controls old) k =
      gathered (m'.mul m) target controls old k := by
  cases met : controls.isSatisfied k with
  | false => simp [gathered_eq, met]
  | true =>
      simp only [gathered_eq, met, Controls.isSatisfied_withBit apart, Qubit.isSet_withBit,
        Qubit.withBit_withBit, if_true, Matrix2.entry_mul]
      ring

theorem gathered_identity [CommRing R] [ExactScalar R] {m : Matrix2 R}
    (identity : ∀ row column, m.entry row column = if row = column then 1 else 0)
    (target : Qubit) (controls : Controls) (old : Nat → Complex R) (k : Nat) :
    gathered m target controls old k = old k := by
  have own := congrArg old (target.withBit_isSet k)
  rw [gathered_eq, identity, identity]
  cases bit : target.isSet k <;> rw [bit] at own <;> simp [own]

-- An operation reads no amplitude outside the register.
theorem act_congr {op : Operation R} {width : Nat} (fits : op.Fits width)
    {old old' : Nat → Complex R} (same : ∀ k < 1 <<< width, old k = old' k) {k : Nat}
    (below : k < 1 <<< width) : op.act old k = op.act old' k := by
  unfold Operation.act
  cases named : op.gate.partner? with
  | some partner =>
      have active := Operation.mem_active_of_partner named
      exact same _ (swapIndex_lt fits.target_bit_lt (fits.active_bit_lt active) below _)
  | none =>
      cases op.gate.matrix? with
      | some m => exact gathered_congr m _ fits.target_bit_lt same below
      | none => exact same k below

theorem amplitudes_ext {r s : Register R} (sized : r.Sized) (sized' : s.Sized)
    (wide : r.numQubits = s.numQubits)
    (same : ∀ k < 1 <<< r.numQubits, r.amplitude k = s.amplitude k) :
    r.amplitudes = s.amplitudes := by
  apply Array.ext
  · rw [sized.amplitudes, sized'.amplitudes, wide]
  · intro k inside inside'
    have below : k < 1 <<< r.numQubits := by rwa [← sized.amplitudes]
    have read := same k below
    rwa [amplitude, amplitude, Array.getD_eq_getD_getElem?, Array.getD_eq_getD_getElem?,
      Array.getElem?_eq_getElem inside, Array.getElem?_eq_getElem inside', Option.getD_some,
      Option.getD_some] at read

end Register
end QCircuit
