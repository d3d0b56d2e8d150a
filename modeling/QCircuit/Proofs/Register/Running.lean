import QCircuit.Proofs.Gate.Validity
import QCircuit.Register.Engine
/-! Running a list of gates.

No gate changes the width of a register, so whether a list runs to its end depends on the width
alone: each of its gates has to fit. -/
namespace QCircuit

namespace Register
variable {R : Type} [Scalar R]

/-- Both buffers hold an amplitude for each index. -/
structure Sized (r : Register R) : Prop where
  amplitudes : r.amplitudes.size = 1 <<< r.numQubits
  scratch : r.scratch.size = 1 <<< r.numQubits

theorem ground_sized (numQubits : Nat) : (ground numQubits : Register R).Sized := by
  constructor <;> simp [ground]

theorem make_sized {numQubits : Nat} {r : Register R} (made : make numQubits = .ok r) : r.Sized := by
  unfold make at made
  split at made
  · cases made
  · cases made
    exact ground_sized numQubits

theorem ofAmplitudes_sized {amplitudes : Array (Complex R)} {r : Register R}
    (made : ofAmplitudes amplitudes = .ok r) : r.Sized := by
  unfold ofAmplitudes at made
  by_cases empty : amplitudes.size = 0
  · simp [empty] at made
  · by_cases power : amplitudes.size = 1 <<< amplitudes.size.log2
    · simp only [if_neg empty, if_pos power, Except.ok.injEq] at made
      subst made
      exact ⟨power, by rw [Array.size_replicate, ← power]⟩
    · simp [empty, power] at made

theorem ground_amplitude (numQubits index : Nat) (inside : index < 1 <<< numQubits) :
    (ground numQubits : Register R).amplitudes[index]? =
      some (if index = 0 then Complex.one else Complex.zero) := by
  simp only [ground, Array.getElem?_setIfInBounds, Array.size_replicate,
    Array.getElem?_replicate, inside, if_true]
  by_cases first : index = 0
  · simp [first]
  · simp [first, Ne.symm first]

theorem applyOperation_numQubits (op : Operation R) (r : Register R) :
    (r.applyOperation op).numQubits = r.numQubits := by
  unfold applyOperation
  cases op.gate.partner? with
  | some partner => rfl
  | none => cases op.gate.matrix? <;> rfl

mutual

theorem perform_numQubits : ∀ (g : Gate R) (r : Register R), (perform g r).numQubits = r.numQubits
  | .standard op, r => by rw [perform, applyOperation_numQubits]
  | .composite _ members, r => by rw [perform, performAll_numQubits members r]

theorem performAll_numQubits : ∀ (gates : List (Gate R)) (r : Register R),
    (performAll gates r).numQubits = r.numQubits
  | [], r => by rw [performAll]
  | g :: rest, r => by
      rw [performAll, performAll_numQubits rest, perform_numQubits g r]

end

theorem run_completes_iff (gates : List (Gate R)) (r : Register R) :
    (run gates r).2 = none ↔ ∀ g ∈ gates, g.validate r.numQubits = .ok () := by
  induction gates generalizing r with
  | nil => simp [run]
  | cons g rest ih =>
      cases checked : g.validate r.numQubits with
      | error e => simp [run, apply, checked]
      | ok =>
          rw [List.forall_mem_cons, ← perform_numQubits g r, run]
          simp only [apply, checked, ih, perform_numQubits, true_and]

theorem run_of_completes {gates : List (Gate R)} {r : Register R} (completes : (run gates r).2 = none) :
    (run gates r).1 = performAll gates r := by
  induction gates generalizing r with
  | nil => rw [run, performAll]
  | cons g rest ih =>
      rw [run] at completes ⊢
      cases checked : g.validate r.numQubits with
      | error e => simp [apply, checked] at completes
      | ok =>
          simp only [apply, checked] at completes ⊢
          rw [ih completes, performAll]

theorem performAll_append (first second : List (Gate R)) (r : Register R) :
    performAll (first ++ second) r = performAll second (performAll first r) := by
  induction first generalizing r with
  | nil => rw [List.nil_append, performAll]
  | cons g rest ih => rw [List.cons_append, performAll, performAll, ih]

-- A group does what its members do in its place.
theorem performAll_flatten (first members second : List (Gate R)) (name : String) (r : Register R) :
    performAll (first ++ .composite name members :: second) r =
      performAll (first ++ (members ++ second)) r := by
  rw [performAll_append, performAll_append, performAll_append, performAll, perform]

end Register
end QCircuit
