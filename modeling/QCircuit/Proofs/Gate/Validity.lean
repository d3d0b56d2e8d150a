import Mathlib.Data.List.Nodup
import QCircuit.Gate.Basic
import QCircuit.Proofs.Checks
/-! When a gate fits a register.

The checks of an operation refuse the first thing that is wrong. Put together they accept exactly
the operations whose qubits, the active ones and the controls, are distinct qubits of the register.
A group is accepted if each of its leaves is. -/
namespace QCircuit

namespace Controls

theorem firstRepeated_eq_none_iff (seen qubits : List Qubit) :
    firstRepeated seen qubits = Option.none ↔ qubits.Nodup ∧ ∀ q ∈ qubits, q ∉ seen := by
  induction qubits generalizing seen with
  | nil => simp [firstRepeated]
  | cons q rest ih =>
      by_cases known : q ∈ seen
      · simp [firstRepeated, known]
      · simp only [firstRepeated, List.contains_eq_mem, known, decide_false, Bool.false_eq_true,
          if_false, ih, List.nodup_cons, List.mem_cons, not_or, forall_eq_or_imp, not_false_eq_true,
          true_and]
        constructor
        · rintro ⟨distinct, fresh⟩
          exact ⟨⟨fun inside => (fresh q inside).1 rfl, distinct⟩, fun p inside => (fresh p inside).2⟩
        · rintro ⟨⟨absent, distinct⟩, fresh⟩
          refine ⟨distinct, fun p inside => ⟨?_, fresh p inside⟩⟩
          rintro rfl
          exact absent inside

theorem checkFrom_ok_iff (seen qubits : List Qubit) :
    checkFrom seen qubits = .ok () ↔
      (∀ q ∈ qubits, q.number ≠ 0) ∧ firstRepeated seen qubits = Option.none := by
  induction qubits generalizing seen with
  | nil => simp [checkFrom, firstRepeated]
  | cons q rest ih =>
      by_cases zero : q.number = 0
      · simp [checkFrom, zero]
      · by_cases known : q ∈ seen
        · simp [checkFrom, firstRepeated, zero, known]
        · simp [checkFrom, firstRepeated, zero, known, ih]

theorem ofQubits_eq_ok_iff (qubits : List Qubit) (controls : Controls) :
    ofQubits qubits = .ok controls ↔
      controls = ⟨qubits⟩ ∧ (∀ q ∈ qubits, q.number ≠ 0) ∧ qubits.Nodup := by
  have passes := checkFrom_ok_iff [] qubits
  rw [firstRepeated_eq_none_iff] at passes
  simp only [List.not_mem_nil, not_false_eq_true, implies_true, and_true] at passes
  rw [← passes]
  unfold ofQubits
  cases checkFrom [] qubits with
  | error e => simp [bind, Except.bind]
  | ok => simp [bind, Except.bind, pure, Except.pure, eq_comm]

end Controls

-- Qubit zero has the bit of qubit one.
theorem Qubit.eq_of_bit_eq {p q : Qubit} (low : 1 ≤ p.number) (low' : 1 ≤ q.number)
    (same : p.bit = q.bit) : p = q := by
  rw [Qubit.mk.injEq, ← Nat.sub_one_cancel low low' same]

namespace Operation
variable {R : Type}

/-- The qubits of an operation are distinct qubits of a register. -/
structure Fits (op : Operation R) (width : Nat) : Prop where
  distinct : op.qubits.Nodup
  inRange : ∀ q ∈ op.qubits, 1 ≤ q.number ∧ q.number ≤ width

theorem Fits.active_bit_lt {op : Operation R} {width : Nat} (fits : op.Fits width) {q : Qubit}
    (active : q ∈ op.active) : q.bit < width := by
  have range := fits.inRange q (List.mem_append_left _ active)
  rw [Qubit.bit]
  omega

theorem Fits.target_bit_lt {op : Operation R} {width : Nat} (fits : op.Fits width) :
    op.target.bit < width := fits.active_bit_lt List.mem_cons_self

theorem Fits.active_control_bit_ne {op : Operation R} {width : Nat} (fits : op.Fits width)
    {p : Qubit} (active : p ∈ op.active) : ∀ q ∈ op.controls.qubits, p.bit ≠ q.bit := by
  intro q control same
  have equal := Qubit.eq_of_bit_eq (fits.inRange p (List.mem_append_left _ active)).1
    (fits.inRange q (List.mem_append_right _ control)).1 same
  rw [← equal] at control
  exact List.disjoint_of_nodup_append fits.distinct active control

theorem Fits.control_bit_ne {op : Operation R} {width : Nat} (fits : op.Fits width) :
    ∀ q ∈ op.controls.qubits, op.target.bit ≠ q.bit := fits.active_control_bit_ne List.mem_cons_self

theorem mem_active_of_partner {op : Operation R} {partner : Qubit}
    (named : op.gate.partner? = some partner) : partner ∈ op.active := by
  simp [active, named]

theorem checkPartner_ok_iff (op : Operation R) :
    op.checkPartner = .ok () ↔
      ∀ partner, op.gate.partner? = some partner → partner.number ≠ 0 ∧ partner ≠ op.target := by
  unfold checkPartner
  cases op.gate.partner? with
  | none => simp
  | some partner =>
      by_cases zero : partner.number = 0
      · simp [zero]
      · by_cases same : partner = op.target
        · subst same
          simp [zero]
        · simp [zero, same]

theorem checkDistinct_ok_iff (op : Operation R) :
    op.checkDistinct = .ok () ↔ (∀ q ∈ op.active, q.number ≠ 0) ∧ op.qubits.Nodup := by
  have whole : op.checkDistinct = .ok () ↔ op.target.number ≠ 0 ∧ op.checkPartner = .ok () ∧
      op.controls.qubits.Nodup ∧ ∀ q ∈ op.active, q ∉ op.controls.qubits := by
    unfold checkDistinct
    by_cases zero : op.target.number = 0
    · simp [zero, bind, Except.bind]
    · simp only [zero, if_false, ne_eq, not_false_eq_true, true_and]
      refine seq_eq_ok.trans (and_congr_right fun _ => ?_)
      cases found : op.active.find? op.controls.contains with
      | some q =>
          have inside := List.mem_of_find?_eq_some found
          have active := List.find?_some found
          simp only [Controls.contains, List.contains_eq_mem, decide_eq_true_eq] at active
          simp only [reduceCtorEq, false_iff, not_and, not_forall, not_not]
          exact fun _ => ⟨q, inside, active⟩
      | none =>
          have apart := List.find?_eq_none.mp found
          simp only [Controls.contains, List.contains_eq_mem, decide_eq_true_eq] at apart
          have duplicates := Controls.firstRepeated_eq_none_iff [] op.controls.qubits
          simp only [List.not_mem_nil, not_false_eq_true, implies_true, and_true] at duplicates
          unfold Controls.firstDuplicate
          rw [← duplicates]
          cases Controls.firstRepeated [] op.controls.qubits with
          | none => simpa using apart
          | some q => simp
  rw [whole, checkPartner_ok_iff, qubits, List.nodup_append', active]
  cases op.gate.partner? with
  | none => simp
  | some partner => simp [List.disjoint_left, eq_comm]; tauto

theorem checkQubit_ok_iff (op : Operation R) (width : Nat) (q : Qubit) :
    op.checkQubit width q = .ok () ↔ 1 ≤ q.number ∧ q.number ≤ width := by
  by_cases zero : q.number = 0
  · simp [checkQubit, Qubit.checkRange, zero]
  · by_cases above : width < q.number
    · simp [checkQubit, Qubit.checkRange, zero, above]
    · simp only [checkQubit, Qubit.checkRange, zero, above, if_false, true_iff]
      omega

theorem validate_ok_iff (op : Operation R) (width : Nat) :
    op.validate width = .ok () ↔ op.Fits width := by
  unfold validate
  rw [seq_eq_ok, checkDistinct_ok_iff, forM_eq_ok]
  simp only [checkQubit_ok_iff]
  constructor
  · rintro ⟨⟨_, distinct⟩, inRange⟩
    exact ⟨distinct, inRange⟩
  · rintro ⟨distinct, inRange⟩
    refine ⟨⟨fun q active => ?_, distinct⟩, inRange⟩
    have low := (inRange q (List.mem_append_left _ active)).1
    omega

theorem make_eq_ok_iff (gate : StandardGate R) (target : Qubit) (controls : Controls)
    (op : Operation R) :
    make gate target controls = .ok op ↔
      op = ⟨gate, target, controls⟩ ∧ (∀ q ∈ op.active, q.number ≠ 0) ∧ op.qubits.Nodup := by
  have passes := checkDistinct_ok_iff (⟨gate, target, controls⟩ : Operation R)
  unfold make
  cases checked : (⟨gate, target, controls⟩ : Operation R).checkDistinct with
  | error e =>
      rw [checked] at passes
      simp only [reduceCtorEq, false_iff] at passes
      simp only [checked, bind, Except.bind, reduceCtorEq, false_iff]
      rintro ⟨rfl, rest⟩
      exact passes rest
  | ok =>
      rw [checked] at passes
      simp only [checked, bind, Except.bind, pure, Except.pure, Except.ok.injEq]
      constructor
      · rintro rfl
        exact ⟨rfl, passes.mp rfl⟩
      · rintro ⟨rfl, -⟩
        rfl

end Operation

namespace Gate
variable {R : Type}

mutual

theorem validate_ok_iff (width : Nat) : ∀ g : Gate R,
    g.validate width = .ok () ↔ ∀ op ∈ g.leaves, op.Fits width
  | standard op => by simp [validate, leaves, Operation.validate_ok_iff]
  | composite _ members => by
      rw [validate, leaves]
      exact validateAll_ok_iff width members

theorem validateAll_ok_iff (width : Nat) : ∀ gates : List (Gate R),
    validateAll width gates = .ok () ↔ ∀ op ∈ leavesOf gates, op.Fits width
  | [] => by simp [validateAll, leavesOf]
  | g :: rest => by
      rw [validateAll, seq_eq_ok, validate_ok_iff width g, validateAll_ok_iff width rest]
      simp only [leavesOf, List.mem_append, or_imp, forall_and]

end

theorem leavesOf_append (first second : List (Gate R)) :
    leavesOf (first ++ second) = leavesOf first ++ leavesOf second := by
  induction first with
  | nil => rfl
  | cons g rest ih => simp [leavesOf, ih]

theorem leavesOf_standard (ops : List (Operation R)) :
    leavesOf (ops.map .standard) = ops := by
  induction ops with
  | nil => rfl
  | cons op rest ih => rw [List.map_cons, leavesOf, ih, leaves, List.singleton_append]

theorem mem_leavesOf {op : Operation R} {gates : List (Gate R)} :
    op ∈ leavesOf gates ↔ ∃ g ∈ gates, op ∈ g.leaves := by
  induction gates with
  | nil => simp [leavesOf]
  | cons g rest ih => simp [leavesOf, ih]

theorem forall_validate_iff {width : Nat} {gates : List (Gate R)} :
    (∀ g ∈ gates, g.validate width = .ok ()) ↔ ∀ op ∈ leavesOf gates, op.Fits width := by
  simp only [validate_ok_iff, mem_leavesOf]
  constructor
  · rintro valid op ⟨g, inside, leaf⟩
    exact valid g inside op leaf
  · intro fit g inside op leaf
    exact fit op ⟨g, inside, leaf⟩

end Gate
end QCircuit
