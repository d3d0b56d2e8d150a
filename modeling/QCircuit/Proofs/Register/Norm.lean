import Mathlib.Algebra.BigOperators.Group.Finset.Basic
import QCircuit.Proofs.Gate.Unitary
import QCircuit.Proofs.Register.Action
/-! The norm of a register.

The indices of a register fall into pairs that differ in the target of a gate alone. In exact
arithmetic a gate keeps the squared length of each pair, whether the controls are set in it or not,
and a swap only moves the amplitudes. So no run changes the norm, wherever it stops. -/
namespace QCircuit

namespace Register
variable {R : Type} [CommRing R]

open Finset

-- Each index is the one or the other of its own pair.
theorem sum_pairs {target : Qubit} {width : Nat} (inside : target.bit < width) (f : Nat → R) :
    ∑ k ∈ range (1 <<< width), (f (target.withBit false k) + f (target.withBit true k)) =
      (2 : R) * ∑ k ∈ range (1 <<< width), f k := by
  have pair : ∀ k, f (target.withBit false k) + f (target.withBit true k) =
      f k + f (target.flip k) := by
    intro k
    have own := target.withBit_isSet k
    cases bit : target.isSet k with
    | false =>
        rw [bit] at own
        rw [Qubit.flip, own, bit, Bool.not_false]
    | true =>
        rw [bit] at own
        rw [Qubit.flip, own, bit, Bool.not_true, add_comm]
  have stays : ∀ k ∈ range (1 <<< width), target.flip k ∈ range (1 <<< width) := by
    intro k below
    rw [mem_range] at below ⊢
    exact Qubit.withBit_lt inside below _
  have turned : ∑ k ∈ range (1 <<< width), f (target.flip k) = ∑ k ∈ range (1 <<< width), f k :=
    sum_nbij' target.flip target.flip stays stays (fun k _ => target.flip_flip k)
      (fun k _ => target.flip_flip k) (fun _ _ => rfl)
  rw [sum_congr rfl fun k _ => pair k, sum_add_distrib, turned, two_mul]

variable [Scalar R]

theorem sum_normSq_swapped {a b : Qubit} {controls : Controls}
    (apart : ∀ q ∈ controls.qubits, a.bit ≠ q.bit) (apart' : ∀ q ∈ controls.qubits, b.bit ≠ q.bit)
    {width : Nat} (inside : a.bit < width) (inside' : b.bit < width) (old : Nat → Complex R) :
    ∑ k ∈ range (1 <<< width), (old (swapIndex a b controls.mask k)).normSq =
      ∑ k ∈ range (1 <<< width), (old k).normSq := by
  have stays : ∀ k ∈ range (1 <<< width),
      swapIndex a b controls.mask k ∈ range (1 <<< width) := by
    intro k below
    rw [mem_range] at below ⊢
    exact swapIndex_lt inside inside' below controls
  exact sum_nbij' (swapIndex a b controls.mask) (swapIndex a b controls.mask) stays stays
    (fun k _ => swapIndex_swapIndex apart apart' k) (fun k _ => swapIndex_swapIndex apart apart' k)
    (fun _ _ => rfl)

variable [ExactScalar R]

theorem normSq_eq_sum {r : Register R} (sized : r.Sized) :
    r.normSq = ∑ k ∈ range (1 <<< r.numQubits), (r.amplitude k).normSq := by
  rw [normSq, ← sized.amplitudes]
  apply Array.foldl_induction
    (fun visited sum => sum = ∑ k ∈ range visited, (r.amplitude k).normSq)
  · rw [range_zero, sum_empty, ExactScalar.zero_eq]
  · rintro visited _ rfl
    have read : r.amplitude visited = r.amplitudes[visited] := by
      simp [amplitude, visited.isLt]
    rw [ExactScalar.add_eq, sum_range_succ, read]

theorem gathered_pair {m : Matrix2 R} (unitary : m.Unitary) {target : Qubit} {controls : Controls}
    (apart : ∀ q ∈ controls.qubits, target.bit ≠ q.bit) (old : Nat → Complex R) (k : Nat) :
    (gathered m target controls old (target.withBit false k)).normSq +
        (gathered m target controls old (target.withBit true k)).normSq =
      (old (target.withBit false k)).normSq + (old (target.withBit true k)).normSq := by
  cases met : controls.isSatisfied k with
  | false => simp [gathered_eq, met, Controls.isSatisfied_withBit apart]
  | true =>
      simp only [gathered_eq, met, Controls.isSatisfied_withBit apart, Qubit.isSet_withBit,
        Qubit.withBit_withBit, if_true, Matrix2.entry]
      exact unitary.normSq_add _ _

theorem sum_normSq_gathered {m : Matrix2 R} (unitary : m.Unitary) {target : Qubit}
    {controls : Controls} (apart : ∀ q ∈ controls.qubits, target.bit ≠ q.bit) {width : Nat}
    (inside : target.bit < width) (old : Nat → Complex R) :
    ∑ k ∈ range (1 <<< width), (gathered m target controls old k).normSq =
      ∑ k ∈ range (1 <<< width), (old k).normSq := by
  apply eq_of_two_mul_eq
  rw [← sum_pairs inside fun k => (gathered m target controls old k).normSq,
    ← sum_pairs inside fun k => (old k).normSq]
  exact sum_congr rfl fun k _ => gathered_pair unitary apart old k

theorem applyOperation_normSq {r : Register R} (sized : r.Sized) {op : Operation R}
    (fits : op.Fits r.numQubits) : (r.applyOperation op).normSq = r.normSq := by
  have acted : ∀ k ∈ range (1 <<< r.numQubits),
      ((r.applyOperation op).amplitude k).normSq = (op.act r.amplitude k).normSq := by
    intro k below
    rw [applyOperation_amplitude sized fits (mem_range.mp below)]
  rw [normSq_eq_sum (applyOperation_sized sized op), applyOperation_numQubits,
    normSq_eq_sum sized, sum_congr rfl acted]
  unfold Operation.act
  have inside := fits.target_bit_lt
  have apart := fits.control_bit_ne
  cases named : op.gate.partner? with
  | some partner =>
      have active := Operation.mem_active_of_partner named
      exact sum_normSq_swapped apart (fits.active_control_bit_ne active) inside
        (fits.active_bit_lt active) _
  | none =>
      cases known : op.gate.matrix? with
      | some m => exact sum_normSq_gathered (op.gate.unitary known) apart inside _
      | none => rfl

theorem operate_normSq {r : Register R} (sized : r.Sized) {ops : List (Operation R)}
    (fit : ∀ op ∈ ops, op.Fits r.numQubits) : (operate ops r).normSq = r.normSq := by
  induction ops generalizing r with
  | nil => rfl
  | cons op rest ih =>
      obtain ⟨fits, later⟩ := List.forall_mem_cons.mp fit
      rw [← applyOperation_numQubits op r] at later
      calc (operate (op :: rest) r).normSq
          = (r.applyOperation op).normSq := ih (applyOperation_sized sized op) later
        _ = r.normSq := applyOperation_normSq sized fits

/-- A run keeps the norm, also one that stops at a gate that does not fit. -/
theorem run_keeps_normSq (gates : List (Gate R)) (r : Register R) (sized : r.Sized) :
    (run gates r).1.normSq = r.normSq := by
  induction gates generalizing r with
  | nil => rfl
  | cons g rest ih =>
      cases checked : g.validate r.numQubits with
      | error e => simp only [run, apply, checked]
      | ok =>
          have fit := (Gate.validate_ok_iff r.numQubits g).mp checked
          have carried : (run (g :: rest) r).1 = (run rest (operate g.leaves r)).1 := by
            simp only [run, apply, checked, perform_eq_operate]
          rw [carried, ih _ (operate_sized sized _), operate_normSq sized fit]

theorem run_keeps_normSq_interrupted :
    let gates : List (Gate ℝ) := [.standard ⟨.h, ⟨1⟩, ⟨[⟨2⟩]⟩⟩,
      .composite "turn" [.standard ⟨.ry 1, ⟨2⟩, .none⟩, .standard ⟨.swap ⟨2⟩, ⟨1⟩, .none⟩],
      .composite "wide" [.standard ⟨.x, ⟨1⟩, .none⟩, .standard ⟨.z, ⟨3⟩, .none⟩]]
    let r : Register ℝ := ⟨#[⟨1, 2⟩, ⟨3, 4⟩, ⟨5, 6⟩, ⟨7, 8⟩], Array.replicate 4 ⟨9, 9⟩, 2⟩
    (run gates r).2 = some (.gateRejected (.outOfRange ⟨3⟩ 2 (some "Z"))) ∧ r.Sized ∧
      (run gates r).1.normSq = r.normSq := by
  intro gates r
  have sized : r.Sized := ⟨rfl, rfl⟩
  exact ⟨rfl, sized, run_keeps_normSq gates r sized⟩

end Register
end QCircuit
