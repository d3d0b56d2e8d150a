import QCircuit.Proofs.Register.Exchange
import QCircuit.Proofs.Register.Independence
/-! Circuits on bits.

The gates I, X and the swap have no weights but zero and one, so in exact arithmetic they only move
amplitudes. Where an amplitude goes is said on the bits of its index: one is turned over or two are
exchanged if the controls are set. Doing so again leads back, so the amplitude at an index comes from
the index that it is taken to, and a single amplitude stays a single one along a whole run. -/
namespace QCircuit

/-- The gate moves amplitudes without changing them. -/
def StandardGate.Classical {R : Type} : StandardGate R → Prop
  | .i | .x | .swap _ => True
  | _ => False

namespace Operation

section Bits
variable {R : Type}

/-- The index with one bit turned over (X) or two bits exchanged (swap) if every control is set. -/
def onBits (op : Operation R) (k : Nat) : Nat :=
  if ∀ q ∈ op.controls.qubits, q.isSet k = true then
    match op.gate with
    | .x => op.target.flip k
    | .swap partner => op.target.exchange partner k
    | _ => k
  else k

theorem onBits_swap {op : Operation R} {partner : Qubit} (swaps : op.gate = .swap partner)
    (k : Nat) : op.onBits k = Register.swapIndex op.target partner op.controls.mask k := by
  simp only [onBits, Register.swapIndex_eq, Controls.isSatisfied_iff, swaps]

theorem onBits_flip {op : Operation R} (flips : op.gate = .x) (k : Nat) :
    op.onBits k = if op.controls.isSatisfied k then op.target.flip k else k := by
  simp only [onBits, Controls.isSatisfied_iff, flips]

theorem onBits_stays {op : Operation R} (stays : op.gate = .i) (k : Nat) : op.onBits k = k := by
  rw [onBits, stays, ite_self]

variable {op : Operation R} {width : Nat} (classical : op.gate.Classical)
include classical

theorem onBits_onBits (fits : op.Fits width) (k : Nat) : op.onBits (op.onBits k) = k := by
  cases named : op.gate with
  | i => rw [onBits_stays named, onBits_stays named]
  | x =>
      rw [onBits_flip named, onBits_flip named]
      cases met : op.controls.isSatisfied k with
      | false => simp [met]
      | true =>
          have kept : op.controls.isSatisfied (op.target.flip k) = true := by
            rw [Qubit.flip, Controls.isSatisfied_withBit fits.control_bit_ne, met]
          simp [kept, Qubit.flip_flip]
  | swap partner =>
      have active : partner ∈ op.active := mem_active_of_partner (by rw [named]; rfl)
      rw [onBits_swap named, onBits_swap named, Register.swapIndex_swapIndex fits.control_bit_ne
        (fits.active_control_bit_ne active)]
  | _ => simp [named, StandardGate.Classical] at classical

theorem onBits_lt (fits : op.Fits width) {k : Nat} (below : k < 1 <<< width) :
    op.onBits k < 1 <<< width := by
  cases named : op.gate with
  | i => rwa [onBits_stays named]
  | x =>
      rw [onBits_flip named]
      split_ifs
      · exact Qubit.withBit_lt fits.target_bit_lt below _
      · exact below
  | swap partner =>
      have active : partner ∈ op.active := mem_active_of_partner (by rw [named]; rfl)
      rw [onBits_swap named]
      exact Register.swapIndex_lt fits.target_bit_lt (fits.active_bit_lt active) below _
  | _ => simp [named, StandardGate.Classical] at classical

-- One of the two weights of the row is one and the other is zero.
theorem act_classical [CommRing R] [Scalar R] [ExactScalar R] (old : Nat → Complex R) (k : Nat) :
    op.act old k = old (op.onBits k) := by
  obtain ⟨gate, target, controls⟩ := op
  cases gate with
  | i =>
      rw [onBits_stays rfl]
      apply Register.gathered_identity
      intro row column
      cases row <;> cases column <;> rfl
  | x =>
      rw [onBits_flip rfl]
      simp only [act, StandardGate.partner?, StandardGate.matrix?, Register.gathered_eq,
        Complex.zero_eq, Complex.one_eq, Qubit.flip]
      cases bit : target.isSet k <;> split_ifs <;> simp [Matrix2.entry]
  | swap partner =>
      rw [onBits_swap rfl]
      rfl
  | _ => simp [StandardGate.Classical] at classical

end Bits
end Operation

namespace Register

section Indices
variable {R : Type}

/-- The index after operations in order. -/
def bitsAfter (ops : List (Operation R)) (k : Nat) : Nat :=
  ops.foldl (fun index op => op.onBits index) k

/-- The index from which operations in order bring the amplitude at an index. -/
def comesFrom (ops : List (Operation R)) (k : Nat) : Nat :=
  ops.foldr (fun op index => op.onBits index) k

variable {ops : List (Operation R)} {width : Nat} (classical : ∀ op ∈ ops, op.gate.Classical)
  (fit : ∀ op ∈ ops, op.Fits width)
include classical fit

theorem bitsAfter_lt {k : Nat} (below : k < 1 <<< width) : bitsAfter ops k < 1 <<< width := by
  induction ops generalizing k with
  | nil => exact below
  | cons op rest ih =>
      rw [List.forall_mem_cons] at classical fit
      exact ih classical.2 fit.2 (op.onBits_lt classical.1 fit.1 below)

theorem comesFrom_lt {k : Nat} (below : k < 1 <<< width) : comesFrom ops k < 1 <<< width := by
  induction ops with
  | nil => exact below
  | cons op rest ih =>
      rw [List.forall_mem_cons] at classical fit
      exact op.onBits_lt classical.1 fit.1 (ih classical.2 fit.2)

theorem comesFrom_eq_iff {index k : Nat} : comesFrom ops index = k ↔ index = bitsAfter ops k := by
  induction ops generalizing k with
  | nil => rfl
  | cons op rest ih =>
      rw [List.forall_mem_cons] at classical fit
      have undone : op.onBits (comesFrom rest index) = k ↔ comesFrom rest index = op.onBits k := by
        constructor
        · rintro rfl
          exact (op.onBits_onBits classical.1 fit.1 _).symm
        · intro same
          rw [same, op.onBits_onBits classical.1 fit.1]
      exact undone.trans (ih classical.2 fit.2)

end Indices

section Basis
variable {R : Type} [Scalar R]

/-- A register of `width` qubits whose only amplitude that is not zero is one at index `k`. -/
structure AtBasis (width k : Nat) (r : Register R) : Prop where
  sized : r.Sized
  wide : r.numQubits = width
  inside : k < 1 <<< width
  amplitudes : ∀ index < 1 <<< width, r.amplitude index = if index = k then 1 else 0

def basis (width k : Nat) : Register R :=
  { ground width with
    amplitudes := (Array.replicate (1 <<< width) Complex.zero).setIfInBounds k Complex.one }

theorem basis_atBasis {width k : Nat} (inside : k < 1 <<< width) :
    (basis width k : Register R).AtBasis width k := by
  refine ⟨⟨by simp [basis, ground], by simp [basis, ground]⟩, rfl, inside, fun index below => ?_⟩
  simp only [amplitude, basis, Array.getD_eq_getD_getElem?, Array.getElem?_setIfInBounds,
    Array.size_replicate, Array.getElem?_replicate, below, inside, if_true, eq_comm (a := k)]
  split_ifs <;> rfl

end Basis

variable {R : Type} [CommRing R] [Scalar R] [ExactScalar R]

theorem operate_classical {ops : List (Operation R)} {r : Register R} (sized : r.Sized)
    (classical : ∀ op ∈ ops, op.gate.Classical) (fit : ∀ op ∈ ops, op.Fits r.numQubits) {k : Nat}
    (below : k < 1 <<< r.numQubits) :
    (operate ops r).amplitude k = r.amplitude (comesFrom ops k) := by
  induction ops generalizing r with
  | nil => rfl
  | cons op rest ih =>
      rw [List.forall_mem_cons] at classical fit
      have width := applyOperation_numQubits op r
      have inside := comesFrom_lt classical.2 fit.2 below
      calc (operate (op :: rest) r).amplitude k
          = (r.applyOperation op).amplitude (comesFrom rest k) :=
            ih (applyOperation_sized sized op) classical.2 (by rw [width]; exact fit.2)
              (by rwa [width])
        _ = op.act r.amplitude (comesFrom rest k) := applyOperation_amplitude sized fit.1 inside
        _ = r.amplitude (comesFrom (op :: rest) k) := op.act_classical classical.1 _ _

theorem run_amplitude_classical {gates : List (Gate R)} {r : Register R} (sized : r.Sized)
    (classical : ∀ op ∈ Gate.leavesOf gates, op.gate.Classical)
    (completes : (run gates r).2 = none) {k : Nat} (below : k < 1 <<< r.numQubits) :
    (run gates r).1.amplitude k = r.amplitude (comesFrom (Gate.leavesOf gates) k) := by
  rw [run_of_fit ((run_completes_iff gates r).mp completes)]
  exact operate_classical sized classical ((run_completes_iff_fit gates r).mp completes) below

/-- A run of I, X and swap operations with any controls, in groups or not, takes the register that
is one at an index and zero elsewhere to the register that is one at the index on which the same
operations have been carried out bit by bit. -/
theorem run_classical (gates : List (Gate R)) (r : Register R) {width k : Nat}
    (basis : r.AtBasis width k) (classical : ∀ op ∈ Gate.leavesOf gates, op.gate.Classical)
    (completes : (run gates r).2 = none) :
    (run gates r).1.AtBasis width (bitsAfter (Gate.leavesOf gates) k) := by
  obtain ⟨sized, rfl, inside, amplitudes⟩ := basis
  obtain ⟨sized', wide⟩ := run_keeps sized gates
  have fit := (run_completes_iff_fit gates r).mp completes
  refine ⟨sized', wide, bitsAfter_lt classical fit inside, fun index below => ?_⟩
  rw [run_amplitude_classical sized classical completes below,
    amplitudes _ (comesFrom_lt classical fit below)]
  simp only [comesFrom_eq_iff classical fit]

theorem run_classical_carry :
    let flip (q : Nat) (controls : List Qubit) : Gate ℝ := .standard ⟨.x, ⟨q⟩, ⟨controls⟩⟩
    let gates : List (Gate ℝ) := [flip 3 [⟨1⟩, ⟨2⟩], .composite "turn"
      [.standard ⟨.i, ⟨2⟩, .none⟩, .composite "move" [.standard ⟨.swap ⟨2⟩, ⟨1⟩, ⟨[⟨4⟩]⟩⟩],
        .standard ⟨.swap ⟨4⟩, ⟨2⟩, ⟨[⟨3⟩]⟩⟩]]
    (basis 4 3 : Register ℝ).AtBasis 4 3 ∧ (run gates (basis 4 3)).2 = none ∧
      (run gates (basis 4 3)).1.AtBasis 4 13 := by
  intro flip gates
  have start : (basis 4 3 : Register ℝ).AtBasis 4 3 := basis_atBasis (by decide)
  have classical : ∀ op ∈ Gate.leavesOf gates, op.gate.Classical := by
    simp [gates, flip, Gate.leavesOf, Gate.leaves, StandardGate.Classical]
  have completes : (run gates (basis 4 3)).2 = none := rfl
  have index : bitsAfter (Gate.leavesOf gates) 3 = 13 := by decide
  have ran := run_classical gates _ start classical completes
  rw [index] at ran
  exact ⟨start, completes, ran⟩

end Register
end QCircuit
