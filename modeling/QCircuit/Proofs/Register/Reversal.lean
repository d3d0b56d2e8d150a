import QCircuit.Proofs.Gate.Inverse
import QCircuit.Proofs.Register.Action
/-! Running backwards.

In exact arithmetic the inverse of an operation restores each amplitude. So the inverses of the
leaves of a list of gates, carried out from the last to the first, restore the register that the
list was run on. -/
namespace QCircuit

namespace Register

section Exact
variable {R : Type} [CommRing R] [Scalar R] [ExactScalar R]

theorem gathered_gathered {m m' : Matrix2 R} (undoes : m'.Inverts m) {target : Qubit}
    {controls : Controls} (apart : ∀ q ∈ controls.qubits, target.bit ≠ q.bit)
    (old : Nat → Complex R) (k : Nat) :
    gathered m' target controls (gathered m target controls old) k = old k := by
  rw [gathered_mul m m' apart]
  apply gathered_identity
  intro row column
  rw [Matrix2.entry_mul, undoes]

end Exact

section Symmetric
variable {R : Type} [CommRing R] [Scalar R] [SymmetricAngles R]

theorem act_inverse {op : Operation R} {width : Nat} (fits : op.Fits width)
    (old : Nat → Complex R) (k : Nat) : op.inverse.act (op.act old) k = old k := by
  have apart := fits.control_bit_ne
  unfold Operation.act Operation.inverse
  rw [StandardGate.inverse_partner?]
  cases named : op.gate.partner? with
  | some partner =>
      have active := Operation.mem_active_of_partner named
      exact congrArg old (swapIndex_swapIndex apart (fits.active_control_bit_ne active) k)
  | none =>
      have both := op.gate.inverse_matrix?_isSome
      cases known : op.gate.matrix? with
      | none =>
          rw [known, Option.isSome_none, Option.isSome_eq_false_iff, Option.isNone_iff_eq_none] at both
          rw [both]
      | some m =>
          rw [known, Option.isSome_some, Option.isSome_iff_exists] at both
          obtain ⟨m', known'⟩ := both
          rw [known']
          exact gathered_gathered (op.gate.inverts known known') apart old k

-- Induction on the list: the rest is undone first, which leaves the register after the head.
theorem operate_inverse {ops : List (Operation R)} {r : Register R} (sized : r.Sized)
    (fit : ∀ op ∈ ops, op.Fits r.numQubits) :
    (operate (ops.map Operation.inverse).reverse (operate ops r)).amplitudes = r.amplitudes := by
  induction ops generalizing r with
  | nil => rfl
  | cons op rest ih =>
      obtain ⟨fits, later⟩ := List.forall_mem_cons.mp fit
      have stepped := applyOperation_sized sized op
      have width := applyOperation_numQubits op r
      let back := operate (rest.map Operation.inverse).reverse (operate rest (r.applyOperation op))
      have undone : back.amplitudes = (r.applyOperation op).amplitudes :=
        ih stepped (by rwa [width])
      have backSized : back.Sized := operate_sized (operate_sized stepped _) _
      have backWidth : back.numQubits = r.numQubits := by
        rw [operate_numQubits, operate_numQubits, width]
      have whole : operate ((op :: rest).map Operation.inverse).reverse (operate (op :: rest) r) =
          back.applyOperation op.inverse := by
        rw [List.map_cons, List.reverse_cons, operate_append]
        rfl
      rw [whole]
      apply amplitudes_ext (applyOperation_sized backSized _) sized
      · rw [applyOperation_numQubits, backWidth]
      · intro k below
        rw [applyOperation_numQubits, backWidth] at below
        have inverseFits : op.inverse.Fits back.numQubits := by
          rw [backWidth]
          exact fits.inverse
        calc (back.applyOperation op.inverse).amplitude k
            = op.inverse.act back.amplitude k :=
              applyOperation_amplitude backSized inverseFits (by rwa [backWidth])
          _ = op.inverse.act (op.act r.amplitude) k := by
              apply act_congr fits.inverse _ below
              intro index inside
              rw [← applyOperation_amplitude sized fits inside, amplitude, undone, amplitude]
          _ = r.amplitude k := act_inverse fits r.amplitude k

/-- Running the inverses of a list of gates after the list restores every amplitude. -/
theorem run_inverseAll_restores (gates : List (Gate R)) (r : Register R) (sized : r.Sized)
    (completes : (run gates r).2 = none) :
    (run (Gate.inverseAll gates) (run gates r).1).2 = none ∧
      (run (Gate.inverseAll gates) (run gates r).1).1.amplitudes = r.amplitudes := by
  have valid := (run_completes_iff gates r).mp completes
  have fit : ∀ op ∈ Gate.leavesOf gates, op.Fits r.numQubits := by
    intro op leaf
    obtain ⟨g, inside, leaf'⟩ := Gate.mem_leavesOf.mp leaf
    exact (Gate.validate_ok_iff r.numQubits g).mp (valid g inside) op leaf'
  have ran : (run gates r).1 = operate (Gate.leavesOf gates) r := by rw [run_of_fit valid]
  have back : ∀ g ∈ Gate.inverseAll gates,
      g.validate (operate (Gate.leavesOf gates) r).numQubits = .ok () := by
    rw [operate_numQubits]
    exact Gate.inverseAll_validate valid
  rw [ran, run_of_fit back, Gate.leavesOf_inverseAll]
  exact ⟨rfl, operate_inverse sized fit⟩

end Symmetric

theorem run_inverseAll_restores_turned_pair :
    let gates : List (Gate ℝ) := [.standard ⟨.h, ⟨1⟩, .none⟩,
      .composite "turn" [.standard ⟨.rz 1, ⟨2⟩, ⟨[⟨1⟩]⟩⟩, .standard ⟨.swap ⟨2⟩, ⟨1⟩, ⟨[⟨3⟩]⟩⟩]]
    let r : Register ℝ := .ground 3
    (run gates r).2 = none ∧ (run (Gate.inverseAll gates) (run gates r).1).2 = none ∧
      (run (Gate.inverseAll gates) (run gates r).1).1.amplitudes = r.amplitudes := by
  intro gates r
  have completes : (run gates r).2 = none := rfl
  exact ⟨completes, run_inverseAll_restores gates r (ground_sized 3) completes⟩

end Register
end QCircuit
