import Mathlib.Algebra.BigOperators.Field
import QCircuit.Proofs.Register.Norm
import QCircuit.Register.Report
/-! Reports on a register.

A report is an index of the register. The label of an entry spells the bits of its index, the
highest first, so no two entries have the same label and a label leads to one entry. In exact
arithmetic the probabilities are the parts of the whole norm. -/
namespace QCircuit

-- One qubit more puts one bit behind the label of the other bits.
theorem basisLabel_succ {width : Nat} (wide : 1 ≤ width) (index : Nat) :
    (basisLabel index (width + 1)).toList =
      (basisLabel (index / 2) width).toList ++ [(index % 2).digitChar] := by
  unfold basisLabel
  rw [String.toList_ofList, String.toList_ofList, Nat.toDigits_eq_if (by decide)]
  by_cases small : index < 2
  · have zeros : List.replicate width '0' = List.replicate (width - 1) '0' ++ ['0'] := by
      rw [← List.replicate_succ', Nat.sub_add_cancel wide]
    rw [if_pos small, Nat.div_eq_of_lt small, Nat.mod_eq_of_lt small, Nat.toDigits_zero,
      List.length_singleton, List.length_singleton, Nat.add_sub_cancel, zeros]
  · rw [if_neg small, List.length_append, List.length_singleton, Nat.add_sub_add_right,
      List.append_assoc]

/-- The character of one bit of an index. -/
def bitChar (index bit : Nat) : Char := if index.testBit bit then '1' else '0'

theorem bitChar_zero (index : Nat) : bitChar index 0 = (index % 2).digitChar := by
  rw [bitChar, Nat.testBit_zero]
  rcases Nat.mod_two_eq_zero_or_one index with even | odd
  · rw [even]
    rfl
  · rw [odd]
    rfl

theorem basisLabel_bits {width : Nat} (wide : 1 ≤ width) {index : Nat}
    (below : index < 1 <<< width) :
    (basisLabel index width).toList = (List.range width).reverse.map (bitChar index) := by
  induction width, wide using Nat.le_induction generalizing index with
  | base =>
      have small : index = 0 ∨ index = 1 := by
        rw [Nat.one_shiftLeft] at below
        omega
      rcases small with rfl | rfl <;> rfl
  | succ width wide ih =>
      have half : index / 2 < 1 <<< width := by
        rw [Nat.one_shiftLeft] at below ⊢
        omega
      have later : bitChar index ∘ Nat.succ = bitChar (index / 2) := by
        funext bit
        rw [Function.comp_apply, bitChar, bitChar, Nat.testBit_succ]
      rw [basisLabel_succ wide, ih half, List.range_succ_eq_map, List.reverse_cons,
        List.map_append, ← List.map_reverse, List.map_map, later, ← bitChar_zero]
      rfl

section Labels
variable {width : Nat} (wide : 1 ≤ width) {index : Nat} (below : index < 1 <<< width)
include wide below

theorem basisLabel_length : (basisLabel index width).length = width := by
  rw [← String.length_toList, basisLabel_bits wide below]
  simp

/-- Qubit one is rightmost. -/
theorem basisLabel_qubit {q : Qubit} (positive : 1 ≤ q.number) (inside : q.number ≤ width) :
    (basisLabel index width).toList.reverse[q.number - 1]? =
      some (if q.isSet index then '1' else '0') := by
  have known : q.number - 1 < width := by omega
  rw [basisLabel_bits wide below, ← List.map_reverse, List.reverse_reverse, List.getElem?_map,
    List.getElem?_range known]
  rfl

theorem basisLabel_injective {other : Nat} (below' : other < 1 <<< width)
    (same : basisLabel index width = basisLabel other width) : index = other := by
  have bits : (List.range width).map (bitChar index) = (List.range width).map (bitChar other) := by
    rw [← List.reverse_inj, ← List.map_reverse, ← List.map_reverse, ← basisLabel_bits wide below,
      ← basisLabel_bits wide below', same]
  rw [Nat.one_shiftLeft] at below below'
  apply Nat.eq_of_testBit_eq
  intro bit
  rcases Nat.lt_or_ge bit width with inside | outside
  · have chars := List.map_inj_left.mp bits bit (List.mem_range.mpr inside)
    unfold bitChar at chars
    cases first : index.testBit bit <;> cases second : other.testBit bit <;>
      simp [first, second] at chars ⊢
  · have high := Nat.pow_le_pow_right (n := 2) (by decide) outside
    rw [Nat.testBit_lt_two_pow (below.trans_le high), Nat.testBit_lt_two_pow (below'.trans_le high)]

end Labels

namespace Register
variable {R : Type} [Scalar R]

/-- The part of the whole norm that is at an index. -/
def share (r : Register R) (index : Nat) : R :=
  if Scalar.less Scalar.zero r.normSq then Scalar.div (r.amplitude index).normSq r.normSq
  else Scalar.zero

def entry (r : Register R) (index : Nat) : BasisEntry R :=
  ⟨index, basisLabel index r.numQubits, r.amplitude index, r.share index⟩

variable {r : Register R}

theorem report_entries (sized : r.Sized) :
    (Report.ofRegister r).entries = (List.range (1 <<< r.numQubits)).map r.entry := by
  apply List.ext_getElem
  · simp [Report.ofRegister, probabilities, sized.amplitudes]
  · intro i inside _
    have known : i < r.amplitudes.size := by
      simpa [Report.ofRegister, probabilities] using inside
    simp [Report.ofRegister, probabilities, entry, share, amplitude, known]

theorem report_entry (sized : r.Sized) {index : Nat} (below : index < 1 <<< r.numQubits) :
    (Report.ofRegister r).entries[index]? = some (r.entry index) := by
  rw [report_entries sized, List.getElem?_map, List.getElem?_range below]
  rfl

theorem report_get? (sized : r.Sized) (wide : 1 ≤ r.numQubits) {index : Nat}
    (below : index < 1 <<< r.numQubits) {label : String} :
    (Report.ofRegister r).get? label = some (r.entry index) ↔
      label = basisLabel index r.numQubits := by
  constructor
  · intro found
    have same := List.find?_some found
    exact (beq_iff_eq.mp same).symm
  · rintro rfl
    have first : (List.range (1 <<< r.numQubits)).find?
        ((fun e => e.label == basisLabel index r.numQubits) ∘ r.entry) = some index := by
      rw [List.find?_range_eq_some]
      refine ⟨beq_self_eq_true _, List.mem_range.mpr below, ?_⟩
      intro other earlier
      rw [Bool.not_eq_true', Function.comp_apply, beq_eq_false_iff_ne]
      intro same
      exact earlier.ne (basisLabel_injective wide (earlier.trans below) below same)
    rw [Report.get?, report_entries sized, List.find?_map, first]
    rfl

theorem report_get?_none (sized : r.Sized) {label : String} :
    (Report.ofRegister r).get? label = none ↔
      ∀ index < 1 <<< r.numQubits, label ≠ basisLabel index r.numQubits := by
  rw [Report.get?, report_entries sized, List.find?_map, Option.map_eq_none_iff,
    List.find?_range_eq_none]
  refine forall₂_congr fun index below => ?_
  rw [Bool.not_eq_true', Function.comp_apply, beq_eq_false_iff_ne, ne_comm]
  rfl

theorem report_labels (sized : r.Sized) (wide : 1 ≤ r.numQubits) :
    ((Report.ofRegister r).entries.map BasisEntry.label).Nodup := by
  rw [report_entries sized, List.map_map]
  refine List.nodup_range.map_on ?_
  intro index below other below' same
  exact basisLabel_injective wide (List.mem_range.mp below) (List.mem_range.mp below') same

theorem report_indices (sized : r.Sized) :
    (Report.ofRegister r).entries.Pairwise fun e e' => e.index < e'.index := by
  rw [report_entries sized, List.pairwise_map]
  exact List.pairwise_lt_range

end Register

section Exact
variable {R : Type} [Field R] [LinearOrder R] [IsStrictOrderedRing R] [Scalar R] [OrderedScalar R]
  {r : Register R}

theorem Complex.normSq_nonneg (z : Complex R) : 0 ≤ z.normSq := by
  rw [normSq_eq]
  exact add_nonneg (mul_self_nonneg _) (mul_self_nonneg _)

namespace Register

theorem normSq_nonneg (sized : r.Sized) : 0 ≤ r.normSq := by
  rw [normSq_eq_sum sized]
  exact Finset.sum_nonneg fun k _ => Complex.normSq_nonneg _

-- The test for a positive norm only guards against a division by zero.
theorem share_eq (sized : r.Sized) (index : Nat) :
    r.share index = (r.amplitude index).normSq / r.normSq := by
  rcases (normSq_nonneg sized).eq_or_lt with empty | positive
  · have unsettled : ¬Scalar.less Scalar.zero r.normSq = true := by
      rw [OrderedScalar.less_iff, ← empty, ExactScalar.zero_eq]
      exact lt_irrefl 0
    rw [share, if_neg unsettled, ExactScalar.zero_eq, ← empty, div_zero]
  · have settled : Scalar.less Scalar.zero r.normSq = true := by
      rwa [OrderedScalar.less_iff, ExactScalar.zero_eq]
    rw [share, if_pos settled, OrderedScalar.div_eq]

theorem share_nonneg (sized : r.Sized) (index : Nat) : 0 ≤ r.share index := by
  rw [share_eq sized]
  exact div_nonneg (Complex.normSq_nonneg _) (normSq_nonneg sized)

theorem sum_share (sized : r.Sized) (nonzero : r.normSq ≠ 0) :
    ((List.range (1 <<< r.numQubits)).map r.share).sum = 1 := by
  calc ((List.range (1 <<< r.numQubits)).map r.share).sum
      = ∑ k ∈ Finset.range (1 <<< r.numQubits), r.share k := rfl
    _ = ∑ k ∈ Finset.range (1 <<< r.numQubits), (r.amplitude k).normSq / r.normSq :=
        Finset.sum_congr rfl fun k _ => share_eq sized k
    _ = r.normSq / r.normSq := by rw [← Finset.sum_div, ← normSq_eq_sum sized]
    _ = 1 := div_self nonzero

end Register
end Exact

namespace Register
variable {R : Type} [Scalar R]

/-- A report has one entry for each index, with its amplitude and a label that spells its bits and
leads back to it. What is above a threshold keeps the order of the indices. In exact arithmetic the
probabilities are parts of one, or all zero if the whole norm is. -/
theorem report_indexes_register (r : Register R) (sized : r.Sized) (wide : 1 ≤ r.numQubits) :
    let report := Report.ofRegister r
    report.entries.length = 1 <<< r.numQubits ∧
    (∀ i < 1 <<< r.numQubits, ∃ e, report.entries[i]? = some e ∧ e.index = i ∧
      r.amplitudes[i]? = some e.amplitude ∧ e.label.length = r.numQubits ∧
      (∀ q : Qubit, 1 ≤ q.number → q.number ≤ r.numQubits →
        e.label.toList.reverse[q.number - 1]? = some (if q.isSet i then '1' else '0')) ∧
      ∀ label, report.get? label = some e ↔ label = e.label) ∧
    (report.entries.map BasisEntry.label).Nodup ∧
    (∀ label, report.get? label = none ↔ label ∉ report.entries.map BasisEntry.label) ∧
    (∀ threshold, (report.above threshold).Sublist report.entries ∧
      (report.above threshold).Pairwise (fun e e' => e.index < e'.index) ∧
      ∀ e, e ∈ report.above threshold ↔
        e ∈ report.entries ∧ Scalar.less threshold e.probability = true) ∧
    ∀ [Field R] [LinearOrder R] [IsStrictOrderedRing R] [OrderedScalar R],
      (∀ e ∈ report.entries, 0 ≤ e.probability) ∧
      (r.normSq ≠ 0 → (report.entries.map BasisEntry.probability).sum = 1) ∧
      (r.normSq = 0 → ∀ e ∈ report.entries, e.probability = 0) := by
  intro report
  have entries := report_entries sized
  refine ⟨?_, ?_, report_labels sized wide, ?_, ?_, ?_⟩
  · rw [entries, List.length_map, List.length_range]
  · intro i below
    have read : r.amplitudes[i]? = some (r.amplitude i) := by
      have known : i < r.amplitudes.size := by rwa [sized.amplitudes]
      simp [amplitude, known]
    exact ⟨r.entry i, report_entry sized below, rfl, read, basisLabel_length wide below,
      fun q positive inside => basisLabel_qubit wide below positive inside,
      fun label => report_get? sized wide below⟩
  · intro label
    rw [report_get?_none sized, entries, List.map_map]
    simp only [List.mem_map, List.mem_range, not_exists, not_and, Function.comp_apply]
    exact forall₂_congr fun index below => ne_comm
  · intro threshold
    have sublist : (report.above threshold).Sublist report.entries := List.filter_sublist
    exact ⟨sublist, (report_indices sized).sublist sublist, fun e => List.mem_filter⟩
  · intro _ _ _ _
    have shares : ∀ e ∈ report.entries, ∃ index, e.probability = r.share index := by
      intro e inside
      rw [entries, List.mem_map] at inside
      obtain ⟨index, -, rfl⟩ := inside
      exact ⟨index, rfl⟩
    refine ⟨?_, ?_, ?_⟩
    · intro e inside
      obtain ⟨index, same⟩ := shares e inside
      exact same ▸ share_nonneg sized index
    · intro positive
      rw [entries, List.map_map]
      exact sum_share sized positive
    · intro empty e inside
      obtain ⟨index, same⟩ := shares e inside
      rw [same, share_eq sized, empty, div_zero]

theorem report_indexes_register_unnormalised :
    let r : Register ℝ := ⟨#[⟨1, 0⟩, ⟨0, 0⟩, ⟨0, -1⟩, ⟨1, 1⟩], Array.replicate 4 ⟨9, 9⟩, 2⟩
    let report := Report.ofRegister r
    r.Sized ∧ 1 ≤ r.numQubits ∧
      (∃ e, report.get? "10" = some e ∧ e.index = 2 ∧ e.amplitude = ⟨0, -1⟩) ∧
      report.get? "010" = none ∧ r.normSq ≠ 0 ∧
      (report.entries.map BasisEntry.probability).sum = 1 := by
  intro r report
  have sized : r.Sized := ⟨rfl, rfl⟩
  have wide : 1 ≤ r.numQubits := by decide
  have labels : report.entries.map BasisEntry.label = ["00", "01", "10", "11"] := by
    rw [report_entries sized]
    change (List.range 4).map (basisLabel · 2) = _
    decide
  have positive : r.normSq ≠ 0 := by
    rw [normSq_eq_sum sized]
    change ∑ k ∈ Finset.range 4, (r.amplitude k).normSq ≠ 0
    simp [Finset.sum_range_succ, Complex.normSq_eq, amplitude, r]
  obtain ⟨-, entry, -, missing, -, parts⟩ := report_indexes_register r sized wide
  refine ⟨sized, wide, ?_, ?_, positive, parts.2.1 positive⟩
  · obtain ⟨e, found, index, read, -, -, lookup⟩ := entry 2 (by decide)
    have label : e.label = "10" := by
      have third := congrArg (·[2]?) labels
      rw [List.getElem?_map, found] at third
      exact Option.some.inj third
    refine ⟨e, (lookup "10").mpr label.symm, index, ?_⟩
    exact (Option.some.inj read).symm
  · rw [missing, labels]
    decide

end Register
end QCircuit
