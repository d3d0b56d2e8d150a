import QCircuit.Proofs.Gate.Masks
import QCircuit.Proofs.Register.Running
/-! What a matrix does to a register.

A pass visits the indices in order and adds the share of each amplitude to the one or two slots that
it reaches. Read from the side of a slot, at most two indices reach it, the one with the target
cleared and the one with the target set, and the former is visited first. The invariant of the pass
is this view of a buffer that the first indices have been added to. -/
namespace QCircuit

/-- The entry in a row and a column, each chosen by the value of a bit. -/
def Matrix2.entry {R : Type} (m : Matrix2 R) (row column : Bool) : Complex R :=
  match row, column with
  | false, false => m.a00
  | false, true => m.a01
  | true, false => m.a10
  | true, true => m.a11

namespace Register
variable {R : Type} [Scalar R]

/-- The amplitude at an index, and zero outside the register. -/
def amplitude (r : Register R) (index : Nat) : Complex R := r.amplitudes.getD index Complex.zero

section Pass
variable (m : Matrix2 R) (target : Qubit) (controls : Controls)

theorem addAt_size (buffer : Array (Complex R)) (n : Nat) (z : Complex R) :
    (addAt buffer n z).size = buffer.size := Array.size_modify

theorem scatter_size (m : Matrix2 R) (target controls : Nat) (buffer : Array (Complex R)) (n : Nat)
    (z : Complex R) : (scatter m target controls buffer n z).size = buffer.size := by
  unfold scatter
  split_ifs <;> simp only [addAt_size]

theorem getElem?_addAt (buffer : Array (Complex R)) (index k : Nat) (z : Complex R) :
    (addAt buffer index z)[k]? = buffer[k]?.map fun old => if index = k then old.add z else old := by
  rw [addAt, Array.getElem?_modify]
  by_cases same : index = k
  · simp [same]
  · simp [same]

theorem scatter_unsatisfied {index : Nat} (unmet : controls.isSatisfied index = false)
    (buffer : Array (Complex R)) (z : Complex R) :
    scatter m target.mask controls.mask buffer index z = addAt buffer index z := by
  have differs : (index &&& controls.mask != controls.mask) = true := by
    rw [bne, ← Controls.isSatisfied, unmet, Bool.not_false]
  rw [scatter, if_pos differs]

-- Both branches that use the matrix are one: the share stays in place through the entry on the
-- diagonal, and goes to the index with the target flipped through the other entry of its column.
theorem scatter_satisfied {index : Nat} (met : controls.isSatisfied index = true)
    (buffer : Array (Complex R)) (z : Complex R) :
    scatter m target.mask controls.mask buffer index z =
      addAt (addAt buffer index ((m.entry (target.isSet index) (target.isSet index)).mul z))
        (target.withBit (!target.isSet index) index)
        ((m.entry (!target.isSet index) (target.isSet index)).mul z) := by
  have same : ¬ (index &&& controls.mask != controls.mask) = true := by
    rw [bne, ← Controls.isSatisfied, met, Bool.not_true, Bool.not_eq_true]
  rw [scatter, if_neg same, Qubit.and_mask_eq_zero]
  cases bit : target.isSet index with
  | false => rw [Bool.not_false, if_pos rfl, Qubit.withBit_true]; rfl
  | true =>
      have flips : ¬ target.isSet index = false := by simp [bit]
      rw [Bool.not_true, if_neg Bool.false_ne_true, Qubit.withBit, if_neg flips]
      rfl

theorem getElem?_scatter_satisfied {index : Nat} (met : controls.isSatisfied index = true)
    (buffer : Array (Complex R)) (z : Complex R) (k : Nat) :
    (scatter m target.mask controls.mask buffer index z)[k]? = buffer[k]?.map fun old =>
      if target.withBit (target.isSet index) k = index then
        old.add ((m.entry (target.isSet k) (target.isSet index)).mul z)
      else old := by
  rw [scatter_satisfied m target controls met, getElem?_addAt, getElem?_addAt, Option.map_map]
  congr 1
  funext old
  simp only [Function.comp_apply]
  by_cases here : index = k
  · subst here
    have moved : target.withBit (!target.isSet index) index ≠ index := by
      intro still
      have value := Qubit.isSet_withBit target (!target.isSet index) index
      rw [still] at value
      cases target.isSet index <;> simp at value
    rw [if_pos rfl, if_neg moved, if_pos (Qubit.withBit_isSet target index)]
  · by_cases flipped : target.withBit (!target.isSet index) index = k
    · subst flipped
      have back : target.withBit (target.isSet index)
          (target.withBit (!target.isSet index) index) = index := by
        rw [Qubit.withBit_withBit, Qubit.withBit_isSet]
      rw [if_neg here, if_pos rfl, if_pos back, Qubit.isSet_withBit]
    · have apart : target.withBit (target.isSet index) k ≠ index := by
        intro reached
        by_cases value : target.isSet k = target.isSet index
        · rw [← value, Qubit.withBit_isSet] at reached
          exact here reached.symm
        · have other : (!target.isSet index) = target.isSet k :=
            (Bool.eq_not_of_ne value).symm
          have moved := congrArg (target.withBit (!target.isSet index)) reached
          rw [Qubit.withBit_withBit, other, Qubit.withBit_isSet, ← other] at moved
          exact flipped moved.symm
      rw [if_neg here, if_neg flipped, if_neg apart]

/-- The amplitude that a slot receives: its own if a control is not set, and otherwise its row of
the matrix applied to the amplitudes with the target cleared and set, added in this order. -/
def gathered (old : Nat → Complex R) (k : Nat) : Complex R :=
  if controls.isSatisfied k then
    (Complex.zero.add
      ((m.entry (target.isSet k) false).mul (old (target.withBit false k)))).add
        ((m.entry (target.isSet k) true).mul (old (target.withBit true k)))
  else Complex.zero.add (old k)

-- What a slot holds once the indices below `visited` have been added.
def gatheredBelow (old : Nat → Complex R) (visited k : Nat) : Complex R :=
  if controls.isSatisfied k then
    if target.withBit false k < visited then
      let low := Complex.zero.add
        ((m.entry (target.isSet k) false).mul (old (target.withBit false k)))
      if target.withBit true k < visited then
        low.add ((m.entry (target.isSet k) true).mul (old (target.withBit true k)))
      else low
    else Complex.zero
  else if k < visited then Complex.zero.add (old k) else Complex.zero

theorem gatheredBelow_zero (old : Nat → Complex R) (k : Nat) :
    gatheredBelow m target controls old 0 k = Complex.zero := by
  simp [gatheredBelow]

theorem gatheredBelow_all {numQubits k : Nat} (inside : target.bit < numQubits)
    (below : k < 1 <<< numQubits) (old : Nat → Complex R) :
    gatheredBelow m target controls old (1 <<< numQubits) k = gathered m target controls old k := by
  simp only [gatheredBelow, gathered, below, Qubit.withBit_lt inside below, if_true]

variable {controls target}
variable (apart : ∀ q ∈ controls.qubits, target.bit ≠ q.bit)
include apart

theorem gatheredBelow_unsatisfied {index : Nat} (unmet : controls.isSatisfied index = false)
    (old : Nat → Complex R) (k : Nat) :
    gatheredBelow m target controls old (index + 1) k =
      if index = k then (gatheredBelow m target controls old index k).add (old index)
      else gatheredBelow m target controls old index k := by
  by_cases met : controls.isSatisfied k = true
  · have misses : ∀ value, target.withBit value k ≠ index := by
      rintro value rfl
      rw [Controls.isSatisfied_withBit apart, met] at unmet
      cases unmet
    have elsewhere : index ≠ k := by
      rintro rfl
      rw [met] at unmet
      cases unmet
    have low := misses false
    have high := misses true
    simp only [gatheredBelow, met, elsewhere, if_true, if_false, Nat.lt_succ_iff_lt_or_eq, low, high,
      or_false]
  · by_cases here : index = k
    · simp [gatheredBelow, met, here]
    · have later : k < index + 1 ↔ k < index := by omega
      simp only [gatheredBelow, met, here, later, if_false, Bool.false_eq_true]

theorem gatheredBelow_satisfied {index : Nat} (met : controls.isSatisfied index = true)
    (old : Nat → Complex R) (k : Nat) :
    gatheredBelow m target controls old (index + 1) k =
      if target.withBit (target.isSet index) k = index then
        (gatheredBelow m target controls old index k).add
          ((m.entry (target.isSet k) (target.isSet index)).mul (old index))
      else gatheredBelow m target controls old index k := by
  have ordered := Qubit.withBit_false_lt target k
  by_cases reached : target.withBit (target.isSet index) k = index
  · have satisfied : controls.isSatisfied k = true := by
      rw [← Controls.isSatisfied_withBit apart (target.isSet index), reached, met]
    rw [if_pos reached]
    cases bit : target.isSet index with
    | false =>
        rw [bit] at reached
        have early : ¬ target.withBit true k < index + 1 := by omega
        simp [gatheredBelow, satisfied, reached, early]
    | true =>
        rw [bit] at reached
        have passed : target.withBit false k < index := by omega
        have passed' : target.withBit false k < index + 1 := by omega
        simp [gatheredBelow, satisfied, reached, passed, passed']
  · rw [if_neg reached]
    by_cases satisfied : controls.isSatisfied k = true
    · have misses : ∀ value, target.withBit value k ≠ index := by
        rintro value rfl
        rw [Qubit.isSet_withBit] at reached
        exact reached rfl
      have low := misses false
      have high := misses true
      simp only [gatheredBelow, satisfied, if_true, Nat.lt_succ_iff_lt_or_eq, low, high, or_false]
    · have other : k ≠ index := by
        rintro rfl
        exact satisfied met
      have later : k < index + 1 ↔ k < index := by omega
      simp only [gatheredBelow, satisfied, later, if_false, Bool.false_eq_true]

theorem getElem?_scatter_gatheredBelow {old : Nat → Complex R} {buffer : Array (Complex R)}
    {index k : Nat} (held : buffer[k]? = some (gatheredBelow m target controls old index k)) :
    (scatter m target.mask controls.mask buffer index (old index))[k]? =
      some (gatheredBelow m target controls old (index + 1) k) := by
  cases met : controls.isSatisfied index with
  | false =>
      rw [scatter_unsatisfied m target controls met, getElem?_addAt, held, Option.map_some,
        gatheredBelow_unsatisfied m apart met]
  | true =>
      rw [getElem?_scatter_satisfied m target controls met, held, Option.map_some,
        gatheredBelow_satisfied m apart met]

end Pass

/-- An invariant of a pass over the amplitudes that each index preserves. -/
theorem foldl_zipIdx_invariant {α β : Type} (values : Array α) (f : β → α × Nat → β) (start : β)
    (invariant : Nat → β → Prop) (initially : invariant 0 start)
    (step : ∀ index value (b : β), values[index]? = some value → invariant index b →
      invariant (index + 1) (f b (value, index))) :
    invariant values.size (values.zipIdx.foldl f start) := by
  rw [← @Array.size_zipIdx _ values 0]
  apply Array.foldl_induction invariant initially
  intro index b held
  have inside : index.1 < values.size := by simpa using index.2
  have next := step index.1 values[index.1] b (Array.getElem?_eq_getElem inside) held
  simpa using next

theorem matrixPass_getElem? {r : Register R} (sized : r.Sized) (m : Matrix2 R) {target : Qubit}
    {controls : Controls} (apart : ∀ q ∈ controls.qubits, target.bit ≠ q.bit)
    (inside : target.bit < r.numQubits) {k : Nat} (below : k < 1 <<< r.numQubits) :
    (r.matrixPass m target controls).amplitudes[k]? =
      some (gathered m target controls r.amplitude k) := by
  have every := foldl_zipIdx_invariant r.amplitudes
    (fun buffer visit => scatter m target.mask controls.mask buffer visit.2 visit.1)
    (r.scratch.map fun _ => Complex.zero)
    (fun visited buffer =>
      buffer[k]? = some (gatheredBelow m target controls r.amplitude visited k))
    (by
      have slot : k < r.scratch.size := by rw [sized.scratch]; exact below
      rw [gatheredBelow_zero, Array.getElem?_map, Array.getElem?_eq_getElem slot, Option.map_some])
    (by
      intro index value buffer here held
      have read : r.amplitude index = value := by
        rw [amplitude, Array.getD_eq_getD_getElem?, here, Option.getD_some]
      rw [← read]
      exact getElem?_scatter_gatheredBelow m apart held)
  rw [sized.amplitudes, gatheredBelow_all m target controls inside below] at every
  exact every

theorem matrixPass_sized {r : Register R} (sized : r.Sized) (m : Matrix2 R) (target : Qubit)
    (controls : Controls) : (r.matrixPass m target controls).Sized := by
  constructor
  · have every := foldl_zipIdx_invariant r.amplitudes
      (fun buffer visit => scatter m target.mask controls.mask buffer visit.2 visit.1)
      (r.scratch.map fun _ => Complex.zero)
      (fun _ buffer => buffer.size = 1 <<< r.numQubits)
      (by rw [Array.size_map, sized.scratch])
      (fun _ _ buffer _ held => (scatter_size m _ _ buffer _ _).trans held)
    exact every
  · exact sized.amplitudes

-- The scalar operations are left open, so the order of the two additions is part of the statement.
theorem matrixPass_gathers (r : Register R) (sized : r.Sized) (m : Matrix2 R) (op : Operation R)
    (valid : op.validate r.numQubits = .ok ()) :
    (r.matrixPass m op.target op.controls).amplitudes.size = 1 <<< r.numQubits ∧
      ∀ k < 1 <<< r.numQubits, ∃ old low high : Complex R,
        r.amplitudes[k]? = some old ∧
        r.amplitudes[op.target.withBit false k]? = some low ∧
        r.amplitudes[op.target.withBit true k]? = some high ∧
        (r.matrixPass m op.target op.controls).amplitudes[k]? = some
          (if ∃ q ∈ op.controls.qubits, q.isSet k = false then Complex.zero.add old
          else (Complex.zero.add ((m.entry (op.target.isSet k) false).mul low)).add
            ((m.entry (op.target.isSet k) true).mul high)) := by
  have fits := (op.validate_ok_iff _).mp valid
  have inside := fits.target_bit_lt
  have apart := fits.control_bit_ne
  refine ⟨(matrixPass_sized sized m _ _).amplitudes, fun k below => ?_⟩
  have read : ∀ index < 1 <<< r.numQubits, r.amplitudes[index]? = some (r.amplitude index) := by
    intro index low
    have slot : index < r.amplitudes.size := by rwa [sized.amplitudes]
    simp [amplitude, slot]
  refine ⟨_, _, _, read k below, read _ (Qubit.withBit_lt inside below false),
    read _ (Qubit.withBit_lt inside below true), ?_⟩
  rw [matrixPass_getElem? sized m apart inside below, gathered]
  by_cases met : op.controls.isSatisfied k = true
  · have none : ¬ ∃ q ∈ op.controls.qubits, q.isSet k = false := by
      rintro ⟨q, control, clear⟩
      rw [(Controls.isSatisfied_iff _ _).mp met q control] at clear
      cases clear
    rw [if_pos met, if_neg none]
  · have some : ∃ q ∈ op.controls.qubits, q.isSet k = false := by
      rw [Controls.isSatisfied_iff] at met
      push Not at met
      simpa using met
    rw [if_neg met, if_pos some]

theorem matrixPass_gathers_controlled_flip :
    let r : Register Float :=
      ⟨#[Complex.one, Complex.zero, Complex.imaginary, Complex.one], Array.replicate 4 Complex.one, 2⟩
    let op : Operation Float := ⟨.x, ⟨1⟩, ⟨[⟨2⟩]⟩⟩
    let m : Matrix2 Float := ⟨Complex.zero, Complex.one, Complex.one, Complex.zero⟩
    op.validate 2 = .ok () ∧
      (r.matrixPass m op.target op.controls).amplitudes[2]? = some
        ((Complex.zero.add (Complex.zero.mul Complex.imaginary)).add
          (Complex.one.mul Complex.one)) := by
  intro r op m
  have valid : op.validate 2 = .ok () := rfl
  obtain ⟨old, low, high, -, cleared, set, result⟩ :=
    (matrixPass_gathers r ⟨rfl, rfl⟩ m op valid).2 2 (by decide)
  have low_index : op.target.withBit false 2 = 2 := by decide
  have high_index : op.target.withBit true 2 = 3 := by decide
  have row : op.target.isSet 2 = false := by decide
  have met : ¬ ∃ q ∈ op.controls.qubits, q.isSet 2 = false := by decide
  rw [low_index] at cleared
  rw [high_index] at set
  obtain rfl : Complex.imaginary = low := Option.some.inj cleared
  obtain rfl : Complex.one = high := Option.some.inj set
  rw [if_neg met, row] at result
  exact ⟨valid, result⟩

end Register
end QCircuit
