import Mathlib.Data.List.Perm.Basic
import QCircuit.Proofs.Register.SwapPass
/-! Exchanging two qubits.

A swap reads each amplitude at the index with two bits exchanged. The pass does not clear the buffer
that it writes, so it matters that every slot of it is written: no two indices are taken to the same
slot, and none is taken out of the register. -/
namespace QCircuit

namespace Qubit

/-- The index with the bits of two qubits exchanged. -/
def exchange (a b : Qubit) (index : Nat) : Nat :=
  b.withBit (a.isSet index) (a.withBit (b.isSet index) index)

theorem testBit_exchange (a b : Qubit) (index i : Nat) :
    (a.exchange b index).testBit i = index.testBit (Equiv.swap a.bit b.bit i) := by
  simp only [exchange, testBit_withBit, Equiv.swap_apply_def, isSet, eq_comm (a := i)]
  by_cases second : b.bit = i
  · by_cases first : a.bit = i
    · simp [first, second]
    · simp [first, second]
  · simp only [second, if_false]
    split_ifs <;> rfl

theorem exchange_lt {a b : Qubit} {width index : Nat} (inside : a.bit < width)
    (inside' : b.bit < width) (below : index < 1 <<< width) :
    a.exchange b index < 1 <<< width :=
  withBit_lt inside' (withBit_lt inside below _) _

end Qubit

namespace Register

theorem swapIndex_eq (a b : Qubit) (controls : Controls) (index : Nat) :
    swapIndex a b controls.mask index =
      if controls.isSatisfied index then a.exchange b index else index := by
  apply Nat.eq_of_testBit_eq
  intro i
  rw [testBit_swapIndex]
  split_ifs
  · rw [Qubit.testBit_exchange]
  · rfl

section Pass
variable {R : Type}

/-- What a swap writes, in this order: the slots, and the amplitudes that they receive. -/
def swapWrites (a b : Qubit) (controls : Controls) (r : Register R) : List (Nat × Complex R) :=
  r.amplitudes.toList.zipIdx.map fun visit => (swapIndex a b controls.mask visit.2, visit.1)

theorem swapPass_eq_writes (a b : Qubit) (controls : Controls) (r : Register R) :
    (r.swapPass a b controls).amplitudes =
      (swapWrites a b controls r).foldl (fun buffer write => buffer.setIfInBounds write.1 write.2)
        r.scratch := by
  rw [swapWrites, List.foldl_map, ← Array.toList_zipIdx, Array.foldl_toList]
  rfl

theorem swapWrites_slots (a b : Qubit) (controls : Controls) (r : Register R) :
    (swapWrites a b controls r).map Prod.fst =
      (List.range r.amplitudes.size).map (swapIndex a b controls.mask) := by
  have indices : r.amplitudes.toList.zipIdx.map Prod.snd = List.range r.amplitudes.size := by
    rw [List.zipIdx_map_snd, Array.length_toList, List.range_eq_range']
  rw [swapWrites, List.map_map, ← indices, List.map_map]
  rfl

variable {a b : Qubit} {controls : Controls} {r : Register R}
variable (sized : r.Sized) (fits : (⟨.swap b, a, controls⟩ : Operation R).Fits r.numQubits)

include fits in
theorem swapIndex_back (index : Nat) :
    swapIndex a b controls.mask (swapIndex a b controls.mask index) = index :=
  swapIndex_swapIndex fits.control_bit_ne
    (fits.active_control_bit_ne (Operation.mem_active_of_partner rfl)) index

include fits in
theorem swapIndex_inside {index : Nat} (below : index < 1 <<< r.numQubits) :
    swapIndex a b controls.mask index < 1 <<< r.numQubits :=
  swapIndex_lt fits.target_bit_lt (fits.active_bit_lt (Operation.mem_active_of_partner rfl)) below
    controls

include sized fits

-- A map that is its own inverse and stays below a bound permutes what is below it.
theorem swapWrites_perm :
    ((swapWrites a b controls r).map Prod.fst).Perm (List.range (1 <<< r.numQubits)) := by
  rw [swapWrites_slots, sized.amplitudes]
  have once : ((List.range (1 <<< r.numQubits)).map (swapIndex a b controls.mask)).Nodup :=
    List.nodup_range.map (Function.LeftInverse.injective (swapIndex_back fits))
  apply (List.perm_ext_iff_of_nodup once List.nodup_range).mpr
  intro slot
  simp only [List.mem_map, List.mem_range]
  constructor
  · rintro ⟨index, below, rfl⟩
    exact swapIndex_inside fits below
  · intro below
    exact ⟨_, swapIndex_inside fits below, swapIndex_back fits slot⟩

theorem swapPass_reads {k : Nat} (below : k < 1 <<< r.numQubits) :
    (r.swapPass a b controls).amplitudes[k]? = r.amplitudes[swapIndex a b controls.mask k]? :=
  swapPass_getElem? sized fits.control_bit_ne
    (fits.active_control_bit_ne (Operation.mem_active_of_partner rfl)) fits.target_bit_lt
    (fits.active_bit_lt (Operation.mem_active_of_partner rfl)) below

-- The old contents of the second buffer are not mentioned, so they do not matter.
theorem swapPass_eq_of_reads {values : Array (Complex R)} (size : values.size = 1 <<< r.numQubits)
    (reads : ∀ k < 1 <<< r.numQubits, values[k]? = r.amplitudes[swapIndex a b controls.mask k]?) :
    (r.swapPass a b controls).amplitudes = values := by
  apply Array.ext_getElem?
  intro k
  by_cases below : k < 1 <<< r.numQubits
  · rw [swapPass_reads sized fits below, reads k below]
  · have full := (swapPass_sized sized a b controls).amplitudes
    have wide : (r.swapPass a b controls).numQubits = r.numQubits := rfl
    rw [wide] at full
    rw [Array.getElem?_eq_none (by omega), Array.getElem?_eq_none (by omega)]

theorem swapPass_swapPass :
    ((r.swapPass a b controls).swapPass a b controls).amplitudes = r.amplitudes := by
  apply swapPass_eq_of_reads (swapPass_sized sized a b controls) fits sized.amplitudes
  intro k below
  rw [swapPass_reads sized fits (swapIndex_inside fits below), swapIndex_back fits]

end Pass

/-- After a swap each index has the amplitude that stood at the index with the two bits exchanged,
or its own if a control is not set. Each slot is written once, so nothing is left of what the second
buffer held, and the same swap leads back. -/
theorem swapPass_exchanges {R : Type} (r : Register R) (sized : r.Sized) (a b : Qubit)
    (controls : Controls)
    (valid : (⟨.swap b, a, controls⟩ : Operation R).validate r.numQubits = .ok ()) :
    (∀ k < 1 <<< r.numQubits, ∃ own other : Complex R,
      r.amplitudes[k]? = some own ∧ r.amplitudes[a.exchange b k]? = some other ∧
        (r.swapPass a b controls).amplitudes[k]? =
          some (if ∀ q ∈ controls.qubits, q.isSet k = true then other else own)) ∧
      ((r.swapPass a b controls).amplitudes =
          (swapWrites a b controls r).foldl
            (fun buffer write => buffer.setIfInBounds write.1 write.2) r.scratch ∧
        ((swapWrites a b controls r).map Prod.fst).Perm (List.range (1 <<< r.numQubits))) ∧
      (∀ stale : Array (Complex R), stale.size = 1 <<< r.numQubits →
        ({ r with scratch := stale }.swapPass a b controls).amplitudes =
          (r.swapPass a b controls).amplitudes) ∧
      ((r.swapPass a b controls).swapPass a b controls).amplitudes = r.amplitudes := by
  have fits := (Operation.validate_ok_iff _ _).mp valid
  have read : ∀ index < 1 <<< r.numQubits, ∃ z, r.amplitudes[index]? = some z := by
    intro index below
    have slot : index < r.amplitudes.size := by rwa [sized.amplitudes]
    exact ⟨_, Array.getElem?_eq_getElem slot⟩
  refine ⟨fun k below => ?_, ⟨swapPass_eq_writes a b controls r, swapWrites_perm sized fits⟩,
    fun stale full => ?_, swapPass_swapPass sized fits⟩
  · obtain ⟨own, here⟩ := read k below
    obtain ⟨other, there⟩ := read _ (Qubit.exchange_lt fits.target_bit_lt
      (fits.active_bit_lt (Operation.mem_active_of_partner rfl)) below)
    refine ⟨own, other, here, there, ?_⟩
    rw [swapPass_reads sized fits below, swapIndex_eq]
    simp only [← Controls.isSatisfied_iff]
    split_ifs
    · exact there
    · exact here
  · have sized' : ({ r with scratch := stale } : Register R).Sized := ⟨sized.amplitudes, full⟩
    apply swapPass_eq_of_reads sized' fits (swapPass_sized sized a b controls).amplitudes
    exact fun k below => swapPass_reads sized fits below

theorem swapPass_exchanges_controlled :
    let r : Register Float := ⟨#[Complex.zero, Complex.zero, Complex.zero, Complex.zero,
      Complex.zero, Complex.one, Complex.imaginary, Complex.zero], Array.replicate 8 Complex.one, 3⟩
    let controls : Controls := ⟨[⟨3⟩]⟩
    (⟨.swap ⟨2⟩, ⟨1⟩, controls⟩ : Operation Float).validate 3 = .ok () ∧
      (r.swapPass ⟨1⟩ ⟨2⟩ controls).amplitudes[5]? = some Complex.imaginary ∧
      ((r.swapPass ⟨1⟩ ⟨2⟩ controls).swapPass ⟨1⟩ ⟨2⟩ controls).amplitudes = r.amplitudes := by
  intro r controls
  have valid : (⟨.swap ⟨2⟩, ⟨1⟩, controls⟩ : Operation Float).validate 3 = .ok () := rfl
  obtain ⟨reads, -, -, back⟩ := swapPass_exchanges r ⟨rfl, rfl⟩ ⟨1⟩ ⟨2⟩ controls valid
  obtain ⟨own, other, -, there, result⟩ := reads 5 (by decide)
  have index : (⟨1⟩ : Qubit).exchange ⟨2⟩ 5 = 6 := by decide
  have met : ∀ q ∈ controls.qubits, q.isSet 5 = true := by decide
  rw [index] at there
  obtain rfl : Complex.imaginary = other := Option.some.inj there
  rw [if_pos met] at result
  exact ⟨valid, result, back⟩

end Register
end QCircuit
