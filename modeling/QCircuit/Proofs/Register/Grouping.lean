import QCircuit.Proofs.Register.Rejection
import Mathlib.Algebra.GroupWithZero.Nat
/-! Groups and their leaves.

A group is checked as a whole and then carried out without further checks, while operations of their
own are checked one by one, each just before it is carried out. Since no operation changes the width
that a check depends on, both orders give the same outcome. -/
namespace QCircuit

namespace Gate
variable {R : Type}

mutual

theorem length_leaves : ∀ g : Gate R, g.leaves.length = g.primitiveCount
  | standard _ => rfl
  | composite _ members => by rw [leaves, primitiveCount, length_leavesOf members]

theorem length_leavesOf : ∀ gates : List (Gate R), (leavesOf gates).length = primitiveCountOf gates
  | [] => rfl
  | g :: rest => by
      rw [leavesOf, List.length_append, primitiveCountOf, length_leaves g, length_leavesOf rest]

end

theorem primitiveCountOf_eq_sum (gates : List (Gate R)) :
    primitiveCountOf gates = (gates.map primitiveCount).sum := by
  induction gates with
  | nil => rfl
  | cons g rest ih => rw [primitiveCountOf, List.map_cons, List.sum_cons, ih]

/-- The leaves of gates as gates of their own. -/
def flat (gates : List (Gate R)) : List (Gate R) := (leavesOf gates).map .standard

theorem leavesOf_flat (gates : List (Gate R)) : leavesOf (flat gates) = leavesOf gates :=
  leavesOf_standard (leavesOf gates)

end Gate

namespace Register
variable {R : Type} [Scalar R]

/-- How a run ends, given what the checks of its leaves say. -/
def outcome? : Except GateError Unit → Option RegisterError
  | .ok () => none
  | .error e => some (.gateRejected e)

-- The gates before the first misfit have changed the register, but not its width.
theorem run_outcome (gates : List (Gate R)) (r : Register R) :
    (run gates r).2 = outcome? ((Gate.leavesOf gates).forM (·.validate r.numQubits)) := by
  induction gates generalizing r with
  | nil => rfl
  | cons g rest ih =>
      rw [run, apply, Gate.leavesOf, forM_append, ← Gate.validate_eq_forM]
      cases g.validate r.numQubits with
      | error e => rfl
      | ok =>
          have later := ih (perform g r)
          rwa [perform_numQubits] at later

/-- A list of gates and the list of its leaves are accepted or refused alike, with the same error.
If they are accepted, both end in the same register. -/
theorem run_flat (gates : List (Gate R)) (r : Register R) :
    (run (Gate.flat gates) r).2 = (run gates r).2 ∧
      ((run gates r).2 = none → (run (Gate.flat gates) r).1 = (run gates r).1) ∧
      (Gate.flat gates).length = (gates.map Gate.primitiveCount).sum := by
  have outcome : (run (Gate.flat gates) r).2 = (run gates r).2 := by
    rw [run_outcome, run_outcome, Gate.leavesOf_flat]
  refine ⟨outcome, fun completes => ?_, ?_⟩
  · rw [run_of_completes (outcome.trans completes), run_of_completes completes,
      performAll_eq_operate, performAll_eq_operate, Gate.leavesOf_flat]
  · rw [Gate.flat, List.length_map, Gate.length_leavesOf, Gate.primitiveCountOf_eq_sum]

end Register
end QCircuit
