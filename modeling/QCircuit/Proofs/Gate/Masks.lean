import Mathlib.Data.Nat.Bitwise
import QCircuit.Qubit
/-! Masks of qubits and controls.

A test against a mask is a test of bits. Setting or clearing one qubit in an index leaves the bits
of all others, and so keeps the controls that do not contain it. -/
namespace QCircuit

namespace Qubit

theorem testBit_mask (q : Qubit) (i : Nat) : q.mask.testBit i = decide (q.bit = i) := by
  rw [mask, Nat.one_shiftLeft, Nat.testBit_two_pow]

theorem and_mask_eq_zero (q : Qubit) (index : Nat) :
    (index &&& q.mask == 0) = !q.isSet index := by
  have masked : index &&& q.mask = (q.isSet index).toNat * 2 ^ q.bit := by
    rw [mask, Nat.one_shiftLeft, Nat.and_two_pow, isSet]
  rw [masked]
  cases q.isSet index with
  | false => simp
  | true => simp

/-- The index with a qubit cleared or set. -/
def withBit (q : Qubit) (value : Bool) (index : Nat) : Nat :=
  if q.isSet index = value then index else index ^^^ q.mask

theorem testBit_withBit (q : Qubit) (value : Bool) (index i : Nat) :
    (q.withBit value index).testBit i = if q.bit = i then value else index.testBit i := by
  unfold withBit
  by_cases same : q.isSet index = value
  · rw [if_pos same]
    by_cases own : q.bit = i
    · rw [if_pos own, ← same, isSet, own]
    · rw [if_neg own]
  · rw [if_neg same, Nat.testBit_xor, testBit_mask]
    by_cases own : q.bit = i
    · have flipped : value = !index.testBit i := by
        rw [isSet, own] at same
        exact (Bool.not_eq_eq_eq_not.mpr (Bool.eq_not_of_ne same)).symm
      simp [own, flipped]
    · simp [own]

theorem isSet_withBit (q : Qubit) (value : Bool) (index : Nat) :
    q.isSet (q.withBit value index) = value := by
  rw [isSet, testBit_withBit, if_pos rfl]

theorem isSet_withBit_of_ne {p q : Qubit} (apart : q.bit ≠ p.bit) (value : Bool) (index : Nat) :
    p.isSet (q.withBit value index) = p.isSet index := by
  rw [isSet, testBit_withBit, if_neg apart, isSet]

theorem withBit_isSet (q : Qubit) (index : Nat) : q.withBit (q.isSet index) index = index := by
  rw [withBit, if_pos rfl]

theorem withBit_withBit (q : Qubit) (value value' : Bool) (index : Nat) :
    q.withBit value (q.withBit value' index) = q.withBit value index := by
  apply Nat.eq_of_testBit_eq
  intro i
  simp only [testBit_withBit]
  by_cases own : q.bit = i
  · simp [own]
  · simp [own]

theorem withBit_true (q : Qubit) (index : Nat) : q.withBit true index = index ||| q.mask := by
  apply Nat.eq_of_testBit_eq
  intro i
  rw [testBit_withBit, Nat.testBit_or, testBit_mask]
  by_cases own : q.bit = i
  · simp [own]
  · simp [own]

theorem withBit_lt {q : Qubit} {width index : Nat} (inside : q.bit < width)
    (below : index < 1 <<< width) (value : Bool) : q.withBit value index < 1 <<< width := by
  rw [Nat.one_shiftLeft] at below ⊢
  apply Nat.lt_pow_two_of_testBit
  intro i high
  have other : q.bit ≠ i := by omega
  rw [testBit_withBit, if_neg other]
  exact Nat.testBit_lt_two_pow (below.trans_le (Nat.pow_le_pow_right (by decide) high))

theorem withBit_false_lt (q : Qubit) (index : Nat) : q.withBit false index < q.withBit true index := by
  apply Nat.lt_of_testBit q.bit
  · simp [testBit_withBit]
  · simp [testBit_withBit]
  · intro i high
    have other : q.bit ≠ i := by omega
    simp [testBit_withBit, other]

/-- The index with the qubit turned over. -/
def flip (q : Qubit) (index : Nat) : Nat := q.withBit (!q.isSet index) index

theorem flip_flip (q : Qubit) (index : Nat) : q.flip (q.flip index) = index := by
  rw [flip, flip, isSet_withBit, Bool.not_not, withBit_withBit, withBit_isSet]

end Qubit

namespace Controls

theorem testBit_mask (controls : Controls) (i : Nat) :
    controls.mask.testBit i = true ↔ ∃ q ∈ controls.qubits, q.bit = i := by
  have joined : ∀ (qubits : List Qubit) (start : Nat),
      (qubits.foldl (fun m q => m ||| q.mask) start).testBit i = true ↔
        start.testBit i = true ∨ ∃ q ∈ qubits, q.bit = i := by
    intro qubits
    induction qubits with
    | nil => simp
    | cons q rest ih =>
        intro start
        rw [List.foldl_cons, ih, Nat.testBit_or, Bool.or_eq_true, Qubit.testBit_mask]
        simp only [decide_eq_true_eq, List.mem_cons, exists_eq_or_imp, or_assoc]
  rw [mask, joined]
  simp

theorem isSatisfied_iff (controls : Controls) (index : Nat) :
    controls.isSatisfied index = true ↔ ∀ q ∈ controls.qubits, q.isSet index = true := by
  rw [isSatisfied, beq_iff_eq]
  constructor
  · intro kept q inside
    have held := congrArg (Nat.testBit · q.bit) kept
    have wanted := (testBit_mask controls q.bit).mpr ⟨q, inside, rfl⟩
    simpa only [Qubit.isSet, Nat.testBit_and, wanted, Bool.and_true] using held
  · intro set
    apply Nat.eq_of_testBit_eq
    intro i
    rw [Nat.testBit_and]
    cases wanted : controls.mask.testBit i with
    | false => rw [Bool.and_false]
    | true =>
        obtain ⟨q, inside, rfl⟩ := (testBit_mask controls i).mp wanted
        rw [Bool.and_true]
        exact set q inside

theorem isSatisfied_withBit {controls : Controls} {target : Qubit}
    (apart : ∀ q ∈ controls.qubits, target.bit ≠ q.bit) (value : Bool) (index : Nat) :
    controls.isSatisfied (target.withBit value index) = controls.isSatisfied index := by
  rw [Bool.eq_iff_iff, isSatisfied_iff, isSatisfied_iff]
  apply forall₂_congr
  intro q inside
  rw [Qubit.isSet_withBit_of_ne (apart q inside)]

end Controls
end QCircuit
