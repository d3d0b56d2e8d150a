import Mathlib.Data.Finset.Max
import QCircuit.Proofs.Gate.Validity
/-! The widths that a gate fits.

A gate fits a register if the qubits of each of its operations are distinct and the register has them
all. So it fits every wider register too, and an operation that was made from distinct qubits fits
from its largest qubit on. -/
namespace QCircuit

namespace Operation
variable {R : Type}

theorem Fits.mono {op : Operation R} {width wider : Nat} (wide : width ≤ wider)
    (fits : op.Fits width) : op.Fits wider := by
  refine ⟨fits.distinct, fun q inside => ?_⟩
  have range := fits.inRange q inside
  exact ⟨range.1, range.2.trans wide⟩

theorem exists_largest (op : Operation R) :
    ∃ largest ∈ op.qubits, ∀ q ∈ op.qubits, q.number ≤ largest.number := by
  have some : op.qubits.toFinset.Nonempty := ⟨op.target, List.mem_toFinset.mpr List.mem_cons_self⟩
  obtain ⟨largest, inside, bound⟩ := Finset.exists_max_image op.qubits.toFinset Qubit.number some
  exact ⟨largest, List.mem_toFinset.mp inside, fun q member => bound q (List.mem_toFinset.mpr member)⟩

/-- What is made of distinct controls and distinct active qubits has distinct qubits, none of them
zero. -/
theorem made_of_distinct {gate : StandardGate R} {target : Qubit} {qubits : List Qubit}
    {controls : Controls} {op : Operation R} (listed : Controls.ofQubits qubits = .ok controls)
    (made : make gate target controls = .ok op) :
    op.qubits.Nodup ∧ ∀ q ∈ op.qubits, 1 ≤ q.number := by
  obtain ⟨rfl, nonzero, -⟩ := (Controls.ofQubits_eq_ok_iff qubits controls).mp listed
  obtain ⟨rfl, nonzero', distinct⟩ := (make_eq_ok_iff gate target ⟨qubits⟩ op).mp made
  refine ⟨distinct, fun q inside => Nat.one_le_iff_ne_zero.mpr ?_⟩
  rcases List.mem_append.mp inside with active | control
  · exact nonzero' q active
  · exact nonzero q control

end Operation

namespace Gate
variable {R : Type}

/-- A gate is accepted at a width exactly if each of its operations has distinct qubits between one
and the width. What is accepted is accepted at every larger width, and an operation made from
distinct qubits is accepted exactly from its largest qubit on. -/
theorem validate_iff_in_width :
    (∀ (g : Gate R) (width : Nat), g.validate width = .ok () ↔
      ∀ op ∈ g.leaves, (op.target :: (op.gate.partner?.toList ++ op.controls.qubits)).Nodup ∧
        ∀ q ∈ op.target :: (op.gate.partner?.toList ++ op.controls.qubits),
          1 ≤ q.number ∧ q.number ≤ width) ∧
      (∀ (g : Gate R) (width wider : Nat), width ≤ wider → g.validate width = .ok () →
        g.validate wider = .ok ()) ∧
      ∀ (gate : StandardGate R) (target : Qubit) (qubits : List Qubit) (controls : Controls)
        (op : Operation R), Controls.ofQubits qubits = .ok controls →
        Operation.make gate target controls = .ok op →
        ∃ largest ∈ op.qubits, (∀ q ∈ op.qubits, q.number ≤ largest.number) ∧
          ∀ width, op.validate width = .ok () ↔ largest.number ≤ width := by
  refine ⟨fun g width => ?_, fun g width wider wide valid => ?_,
    fun gate target qubits controls op listed made => ?_⟩
  · rw [validate_ok_iff]
    exact forall₂_congr fun op _ => ⟨fun fits => ⟨fits.distinct, fits.inRange⟩,
      fun both => ⟨both.1, both.2⟩⟩
  · rw [validate_ok_iff] at valid ⊢
    exact fun op leaf => (valid op leaf).mono wide
  · obtain ⟨distinct, nonzero⟩ := Operation.made_of_distinct listed made
    obtain ⟨largest, inside, bound⟩ := op.exists_largest
    refine ⟨largest, inside, bound, fun width => (op.validate_ok_iff width).trans ⟨?_, ?_⟩⟩
    · exact fun fits => (fits.inRange largest inside).2
    · exact fun wide => ⟨distinct, fun q member => ⟨nonzero q member, (bound q member).trans wide⟩⟩

-- A swap of qubits five and two under controls four and one needs five qubits.
theorem validate_iff_in_width_controlled_swap :
    let controls : Controls := ⟨[⟨4⟩, ⟨1⟩]⟩
    let op : Operation Float := ⟨.swap ⟨2⟩, ⟨5⟩, controls⟩
    let group : Gate Float := .composite "a" [.standard op, .composite "b" [.standard op]]
    Controls.ofQubits [⟨4⟩, ⟨1⟩] = .ok controls ∧ Operation.make (.swap ⟨2⟩) ⟨5⟩ controls = .ok op ∧
      group.validate 5 = .ok () ∧ group.validate 24 = .ok () ∧ op.validate 4 ≠ .ok () := by
  intro controls op group
  obtain ⟨-, grows, made⟩ := @validate_iff_in_width Float
  have listed : Controls.ofQubits [⟨4⟩, ⟨1⟩] = .ok controls := rfl
  have built : Operation.make (.swap ⟨2⟩) ⟨5⟩ controls = .ok op := rfl
  have fits : group.validate 5 = .ok () := rfl
  obtain ⟨largest, inside, bound, exact⟩ := made _ _ _ _ _ listed built
  refine ⟨listed, built, fits, grows group 5 24 (by decide) fits, fun valid => ?_⟩
  have target : 5 ≤ largest.number := bound ⟨5⟩ List.mem_cons_self
  have low := (exact 4).mp valid
  omega

end Gate
end QCircuit
