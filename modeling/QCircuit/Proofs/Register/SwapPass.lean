import Mathlib.Logic.Equiv.Basic
import QCircuit.Proofs.Register.MatrixPass
/-! What a swap does to a register.

A controlled swap exchanges two bits of each index that satisfies the controls. Exchanging them
again leads back, since the controls lie elsewhere. So the pass writes each slot once, with the
amplitude at the index that the slot itself is taken to, and nothing of the old buffer is left. -/
namespace QCircuit

namespace Register

theorem testBit_swapIndex (a b : Qubit) (controls : Controls) (index i : Nat) :
    (swapIndex a b controls.mask index).testBit i =
      if controls.isSatisfied index then index.testBit (Equiv.swap a.bit b.bit i)
      else index.testBit i := by
  unfold swapIndex
  rw [← Controls.isSatisfied]
  cases controls.isSatisfied index with
  | false => simp
  | true =>
      simp only [Bool.true_and, if_true, Equiv.swap_apply_def, Qubit.isSet, bne_iff_ne]
      by_cases same : index.testBit a.bit = index.testBit b.bit
      · rw [if_neg (not_not.mpr same)]
        by_cases first : i = a.bit
        · rw [if_pos first, first, same]
        · by_cases second : i = b.bit
          · rw [if_neg first, if_pos second, second, same]
          · rw [if_neg first, if_neg second]
      · have flipped : (!index.testBit a.bit) = index.testBit b.bit :=
          (Bool.eq_not_of_ne (Ne.symm same)).symm
        rw [if_pos same, Nat.testBit_xor, Nat.testBit_or, Qubit.testBit_mask, Qubit.testBit_mask]
        by_cases first : i = a.bit
        · simp [first, flipped]
        · by_cases second : i = b.bit
          · have moved : ¬ b.bit = a.bit := by rwa [← second]
            simp [second, moved, ← flipped]
          · simp [first, second, Ne.symm first, Ne.symm second]

theorem isSatisfied_swapIndex {a b : Qubit} {controls : Controls}
    (apart : ∀ q ∈ controls.qubits, a.bit ≠ q.bit) (apart' : ∀ q ∈ controls.qubits, b.bit ≠ q.bit)
    (index : Nat) :
    controls.isSatisfied (swapIndex a b controls.mask index) = controls.isSatisfied index := by
  rw [Bool.eq_iff_iff, Controls.isSatisfied_iff, Controls.isSatisfied_iff]
  apply forall₂_congr
  intro q inside
  have fixed : Equiv.swap a.bit b.bit q.bit = q.bit :=
    Equiv.swap_apply_of_ne_of_ne (apart q inside).symm (apart' q inside).symm
  rw [Qubit.isSet, Qubit.isSet, testBit_swapIndex, fixed, ite_self]

theorem swapIndex_swapIndex {a b : Qubit} {controls : Controls}
    (apart : ∀ q ∈ controls.qubits, a.bit ≠ q.bit) (apart' : ∀ q ∈ controls.qubits, b.bit ≠ q.bit)
    (index : Nat) :
    swapIndex a b controls.mask (swapIndex a b controls.mask index) = index := by
  apply Nat.eq_of_testBit_eq
  intro i
  simp only [testBit_swapIndex, isSatisfied_swapIndex apart apart', Equiv.swap_apply_self]
  cases controls.isSatisfied index <;> rfl

theorem swapIndex_lt {a b : Qubit} {width index : Nat} (inside : a.bit < width)
    (inside' : b.bit < width) (below : index < 1 <<< width) (controls : Controls) :
    swapIndex a b controls.mask index < 1 <<< width := by
  rw [Nat.one_shiftLeft] at below ⊢
  apply Nat.lt_pow_two_of_testBit
  intro i high
  have fixed : Equiv.swap a.bit b.bit i = i :=
    Equiv.swap_apply_of_ne_of_ne (by omega) (by omega)
  rw [testBit_swapIndex, fixed, ite_self]
  exact Nat.testBit_lt_two_pow (below.trans_le (Nat.pow_le_pow_right (by decide) high))

section Pass
variable {R : Type}

theorem swapPass_sized {r : Register R} (sized : r.Sized) (a b : Qubit) (controls : Controls) :
    (r.swapPass a b controls).Sized := by
  constructor
  · have every := foldl_zipIdx_invariant r.amplitudes
      (fun buffer visit => buffer.setIfInBounds (swapIndex a b controls.mask visit.2) visit.1)
      r.scratch (fun _ buffer => buffer.size = 1 <<< r.numQubits) sized.scratch
      (fun _ _ _ _ held => by rw [Array.size_setIfInBounds, held])
    exact every
  · exact sized.amplitudes

variable {a b : Qubit} {controls : Controls}

-- Below `visited` the slots that the indices are taken to are filled. The others are not yet.
theorem swapPass_getElem? {r : Register R} (sized : r.Sized)
    (apart : ∀ q ∈ controls.qubits, a.bit ≠ q.bit) (apart' : ∀ q ∈ controls.qubits, b.bit ≠ q.bit)
    (inside : a.bit < r.numQubits) (inside' : b.bit < r.numQubits) {k : Nat}
    (below : k < 1 <<< r.numQubits) :
    (r.swapPass a b controls).amplitudes[k]? = r.amplitudes[swapIndex a b controls.mask k]? := by
  have every := foldl_zipIdx_invariant r.amplitudes
    (fun buffer visit => buffer.setIfInBounds (swapIndex a b controls.mask visit.2) visit.1)
    r.scratch
    (fun visited buffer => buffer.size = 1 <<< r.numQubits ∧
      (swapIndex a b controls.mask k < visited →
        buffer[k]? = r.amplitudes[swapIndex a b controls.mask k]?))
    ⟨sized.scratch, fun visited => absurd visited (Nat.not_lt_zero _)⟩
    (by
      rintro index value buffer here ⟨size, held⟩
      refine ⟨by rw [Array.size_setIfInBounds, size], fun visited => ?_⟩
      rw [Array.getElem?_setIfInBounds]
      by_cases reached : swapIndex a b controls.mask index = k
      · have back : swapIndex a b controls.mask k = index := by
          rw [← reached, swapIndex_swapIndex apart apart']
        have slot : swapIndex a b controls.mask index < buffer.size := by rwa [reached, size]
        rw [if_pos reached, if_pos slot, back, here]
      · have earlier : swapIndex a b controls.mask k ≠ index := by
          rintro rfl
          exact reached (swapIndex_swapIndex apart apart' k)
        rw [if_neg reached]
        exact held (by omega))
  apply every.2
  rw [sized.amplitudes]
  exact swapIndex_lt inside inside' below controls

end Pass
end Register
end QCircuit
