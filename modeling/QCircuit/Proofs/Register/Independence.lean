import QCircuit.Proofs.Arithmetic.Exact
import QCircuit.Proofs.Register.Action
/-! Operations that do not see each other.

An operation computes each amplitude from at most two old ones. Where it reads them and how it
weights them depends on its own qubits only, and an index that it reads differs from the one that it
writes on its active qubits only. So two operations can change places if neither has an active qubit
among the qubits of the other. Controls may be shared. -/
namespace QCircuit

/-- Two indices have the same value of every qubit of a list. -/
def AgreeOn (qubits : List Qubit) (k k' : Nat) : Prop := ∀ q ∈ qubits, q.isSet k = q.isSet k'

theorem Controls.isSatisfied_congr {controls : Controls} {k k' : Nat}
    (agree : AgreeOn controls.qubits k k') : controls.isSatisfied k = controls.isSatisfied k' := by
  rw [Bool.eq_iff_iff, isSatisfied_iff, isSatisfied_iff]
  apply forall₂_congr
  intro q inside
  rw [agree q inside]

namespace Operation

section Reading
variable {R : Type}

/-- The index of the amplitude that is read for the amplitude at `k`. A matrix reads two, in which
the target has the one and the other value. -/
def source (op : Operation R) (value : Bool) (k : Nat) : Nat :=
  match op.gate.partner? with
  | some partner => Register.swapIndex op.target partner op.controls.mask k
  | none => if op.controls.isSatisfied k then op.target.withBit value k else k

theorem testBit_source_of_ne {op : Operation R} {i : Nat} (off : ∀ p ∈ op.active, p.bit ≠ i)
    (value : Bool) (k : Nat) : (op.source value k).testBit i = k.testBit i := by
  have target : op.target.bit ≠ i := off _ List.mem_cons_self
  unfold source
  cases named : op.gate.partner? with
  | some partner =>
      have other : partner.bit ≠ i := off _ (mem_active_of_partner named)
      simp only [Register.testBit_swapIndex,
        Equiv.swap_apply_of_ne_of_ne target.symm other.symm, ite_self]
  | none =>
      by_cases met : op.controls.isSatisfied k = true
      · simp only [met, if_true, Qubit.testBit_withBit, if_neg target]
      · simp only [met, if_false, Bool.false_eq_true]

theorem isSatisfied_congr {op : Operation R} {k k' : Nat} (agree : AgreeOn op.qubits k k') :
    op.controls.isSatisfied k = op.controls.isSatisfied k' :=
  Controls.isSatisfied_congr fun q inside => agree q (List.mem_append_right _ inside)

theorem testBit_source_congr {op : Operation R} {k k' : Nat} (agree : AgreeOn op.qubits k k')
    {p : Qubit} (active : p ∈ op.active) (value : Bool) :
    (op.source value k).testBit p.bit = (op.source value k').testBit p.bit := by
  have satisfied := isSatisfied_congr agree
  have same : ∀ q ∈ op.active, k.testBit q.bit = k'.testBit q.bit :=
    fun q inside => agree q (List.mem_append_left _ inside)
  unfold source
  cases named : op.gate.partner? with
  | some partner =>
      have target := same _ List.mem_cons_self
      have other := same _ (mem_active_of_partner named)
      have own := same p active
      simp only [Register.testBit_swapIndex, satisfied, Equiv.swap_apply_def]
      split_ifs <;> assumption
  | none =>
      have own := same p active
      simp only [satisfied]
      split_ifs
      · simp only [Qubit.testBit_withBit, own]
      · exact own

end Reading

section Weights
variable {R : Type} [Scalar R]

/-- The factor of the amplitude that is read. An amplitude that is only moved is read once. -/
def weight (op : Operation R) (value : Bool) (k : Nat) : Complex R :=
  match op.gate.matrix? with
  | some m =>
    if op.controls.isSatisfied k then m.entry (op.target.isSet k) value
    else if value then 0 else 1
  | none => if value then 0 else 1

theorem weight_congr {op : Operation R} {k k' : Nat} (agree : AgreeOn op.qubits k k')
    (value : Bool) : op.weight value k = op.weight value k' := by
  have target : op.target.isSet k = op.target.isSet k' :=
    agree _ (List.mem_append_left _ List.mem_cons_self)
  rw [weight, weight, isSatisfied_congr agree, target]

variable [CommRing R] [ExactScalar R]

theorem act_eq (op : Operation R) (old : Nat → Complex R) (k : Nat) :
    op.act old k = op.weight false k * old (op.source false k) +
      op.weight true k * old (op.source true k) := by
  obtain ⟨gate, target, controls⟩ := op
  cases gate with
  | swap partner => simp [act, weight, source, StandardGate.partner?, StandardGate.matrix?]
  | _ =>
      by_cases met : controls.isSatisfied k = true
      · simp only [act, weight, source, StandardGate.partner?, StandardGate.matrix?,
          Register.gathered_eq, met, if_true]
      · simp [act, weight, source, StandardGate.partner?, StandardGate.matrix?,
          Register.gathered_eq, met]

end Weights

section Independence
variable {R : Type}

/-- Neither operation changes a qubit of the other. -/
structure Independent (a b : Operation R) : Prop where
  left : ∀ q ∈ a.active, q ∉ b.qubits
  right : ∀ q ∈ b.active, q ∉ a.qubits

theorem Independent.symm {a b : Operation R} (independent : a.Independent b) : b.Independent a :=
  ⟨independent.right, independent.left⟩

variable {a b : Operation R} {width : Nat} (fits : a.Fits width) (fits' : b.Fits width)
  (independent : a.Independent b)
include fits fits' independent

theorem Independent.bit_ne {p q : Qubit} (active : p ∈ a.active) (inside : q ∈ b.qubits) :
    p.bit ≠ q.bit := by
  intro same
  have equal := Qubit.eq_of_bit_eq (fits.inRange p (List.mem_append_left _ active)).1
    (fits'.inRange q inside).1 same
  exact independent.left p active (equal ▸ inside)

-- The qubits of the one operation are not active in the other.
theorem Independent.agree (value : Bool) (k : Nat) : AgreeOn b.qubits (a.source value k) k :=
  fun _ inside =>
    testBit_source_of_ne (fun _ active => independent.bit_ne fits fits' active inside) value k

theorem Independent.source_comm (value value' : Bool) (k : Nat) :
    a.source value (b.source value' k) = b.source value' (a.source value k) := by
  apply Nat.eq_of_testBit_eq
  intro i
  by_cases first : ∃ p ∈ a.active, p.bit = i
  · obtain ⟨p, active, rfl⟩ := first
    have off : ∀ q ∈ b.active, q.bit ≠ p.bit := fun _ active' =>
      independent.symm.bit_ne fits' fits active' (List.mem_append_left _ active)
    rw [testBit_source_of_ne off, testBit_source_congr _ active]
    exact independent.symm.agree fits' fits value' k
  · have off : ∀ p ∈ a.active, p.bit ≠ i := fun p active same => first ⟨p, active, same⟩
    rw [testBit_source_of_ne off]
    by_cases second : ∃ q ∈ b.active, q.bit = i
    · obtain ⟨_, active, rfl⟩ := second
      exact (testBit_source_congr (independent.agree fits fits' value k) active value').symm
    · have off' : ∀ q ∈ b.active, q.bit ≠ i := fun q active same => second ⟨q, active, same⟩
      rw [testBit_source_of_ne off', testBit_source_of_ne off', testBit_source_of_ne off]

end Independence

theorem Independent.act_comm {R : Type} [CommRing R] [Scalar R] [ExactScalar R]
    {a b : Operation R} {width : Nat} (fits : a.Fits width) (fits' : b.Fits width)
    (independent : a.Independent b) (old : Nat → Complex R) (k : Nat) :
    a.act (b.act old) k = b.act (a.act old) k := by
  have kept : ∀ value value', b.weight value' (a.source value k) = b.weight value' k :=
    fun value value' => weight_congr (independent.agree fits fits' value k) value'
  have kept' : ∀ value value', a.weight value' (b.source value k) = a.weight value' k :=
    fun value value' => weight_congr (independent.symm.agree fits' fits value k) value'
  simp only [act_eq, kept, kept', independent.source_comm fits fits']
  ring

end Operation

namespace Register
variable {R : Type} [Scalar R]

theorem applyOperation_twice {r : Register R} (sized : r.Sized) {a b : Operation R}
    (fits : a.Fits r.numQubits) (fits' : b.Fits r.numQubits) {k : Nat}
    (below : k < 1 <<< r.numQubits) :
    ((r.applyOperation a).applyOperation b).amplitude k = b.act (a.act r.amplitude) k := by
  have width := applyOperation_numQubits a r
  rw [applyOperation_amplitude (applyOperation_sized sized a) (by rwa [width]) (by rwa [width])]
  exact act_congr fits' (fun _ inside => applyOperation_amplitude sized fits inside) below

variable [CommRing R] [ExactScalar R]

/-- Two operations that fit the register can be run in either order if neither has an active qubit
among the qubits of the other. -/
theorem run_independent_commutes (r : Register R) (sized : r.Sized) (a b : Operation R)
    (valid : a.validate r.numQubits = .ok ()) (valid' : b.validate r.numQubits = .ok ())
    (independent : a.Independent b) :
    (run [.standard a, .standard b] r).2 = none ∧ (run [.standard b, .standard a] r).2 = none ∧
      (run [.standard a, .standard b] r).1.amplitudes =
        (run [.standard b, .standard a] r).1.amplitudes := by
  have fits := (a.validate_ok_iff _).mp valid
  have fits' := (b.validate_ok_iff _).mp valid'
  have ran : ∀ c d : Operation R, c.validate r.numQubits = .ok () →
      d.validate r.numQubits = .ok () → run [.standard c, .standard d] r =
        ((r.applyOperation c).applyOperation d, none) := by
    intro c d first second
    apply run_of_fit
    simp [Gate.validate, first, second]
  rw [ran a b valid valid', ran b a valid' valid]
  refine ⟨rfl, rfl, ?_⟩
  apply amplitudes_ext (applyOperation_sized (applyOperation_sized sized a) b)
    (applyOperation_sized (applyOperation_sized sized b) a)
  · simp only [applyOperation_numQubits]
  · intro k below
    simp only [applyOperation_numQubits] at below
    rw [applyOperation_twice sized fits fits' below, applyOperation_twice sized fits' fits below,
      independent.act_comm fits fits']

-- A rotation and a swap on different qubits under the same control.
theorem run_independent_commutes_shared_control :
    let a : Operation ℝ := ⟨.ry 1, ⟨2⟩, ⟨[⟨1⟩]⟩⟩
    let b : Operation ℝ := ⟨.swap ⟨4⟩, ⟨3⟩, ⟨[⟨1⟩]⟩⟩
    let r : Register ℝ := ⟨Array.replicate 16 ⟨1, 2⟩, Array.replicate 16 ⟨0, 0⟩, 4⟩
    a.Independent b ∧ a.validate 4 = .ok () ∧ b.validate 4 = .ok () ∧
      (run [.standard a, .standard b] r).1.amplitudes =
        (run [.standard b, .standard a] r).1.amplitudes := by
  intro a b r
  have independent : a.Independent b := ⟨by decide, by decide⟩
  have valid : a.validate 4 = .ok () := rfl
  have valid' : b.validate 4 = .ok () := rfl
  exact ⟨independent, valid, valid',
    (run_independent_commutes r ⟨rfl, rfl⟩ a b valid valid' independent).2.2⟩

end Register
end QCircuit
