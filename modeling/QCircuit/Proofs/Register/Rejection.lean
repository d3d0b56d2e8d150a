import QCircuit.Proofs.Register.Running
/-! Where a run stops.

A gate is checked leaf by leaf before any of its leaves is carried out, and both go through the same
leaves from left to right. So a run that meets a gate that does not fit has carried out the leaves
of the gates before it and no leaf of this gate, wherever in a group the misfit stands. -/
namespace QCircuit

namespace Gate
variable {R : Type}

mutual

theorem validate_eq_forM (width : Nat) : ∀ g : Gate R,
    g.validate width = g.leaves.forM (·.validate width)
  | standard op => by
      rw [validate, leaves, List.forM_eq_forM, List.forM_cons, List.forM_nil]
      cases op.validate width <;> rfl
  | composite _ members => by rw [validate, leaves, validateAll_eq_forM width members]

theorem validateAll_eq_forM (width : Nat) : ∀ gates : List (Gate R),
    validateAll width gates = (leavesOf gates).forM (·.validate width)
  | [] => rfl
  | g :: rest => by
      rw [validateAll, leavesOf, forM_append, validate_eq_forM width g,
        validateAll_eq_forM width rest]

end

end Gate

namespace Register
variable {R : Type} [Scalar R]

/-- Carries out operations in order, without a check. -/
def operate (ops : List (Operation R)) (r : Register R) : Register R :=
  ops.foldl (fun s op => s.applyOperation op) r

theorem operate_append (first second : List (Operation R)) (r : Register R) :
    operate (first ++ second) r = operate second (operate first r) := List.foldl_append

mutual

theorem perform_eq_operate : ∀ (g : Gate R) (r : Register R), perform g r = operate g.leaves r
  | .standard op, r => rfl
  | .composite _ members, r => by rw [perform, Gate.leaves, performAll_eq_operate members r]

theorem performAll_eq_operate : ∀ (gates : List (Gate R)) (r : Register R),
    performAll gates r = operate (Gate.leavesOf gates) r
  | [], r => rfl
  | g :: rest, r => by
      rw [performAll, perform_eq_operate g r, performAll_eq_operate rest, Gate.leavesOf,
        operate_append]

end

theorem run_of_fit {gates : List (Gate R)} {r : Register R}
    (fit : ∀ g ∈ gates, g.validate r.numQubits = .ok ()) :
    run gates r = (operate (Gate.leavesOf gates) r, none) := by
  have completes := (run_completes_iff gates r).mpr fit
  rw [← performAll_eq_operate]
  exact Prod.ext (run_of_completes completes) completes

theorem run_of_misfit {before : List (Gate R)} {r : Register R}
    (fit : ∀ g ∈ before, g.validate r.numQubits = .ok ()) {g : Gate R} {e : GateError}
    (refused : g.validate r.numQubits = .error e) (after : List (Gate R)) :
    run (before ++ g :: after) r = (operate (Gate.leavesOf before) r, some (.gateRejected e)) := by
  induction before generalizing r with
  | nil =>
      rw [List.nil_append, run, apply, refused]
      rfl
  | cons first rest ih =>
      rw [List.forall_mem_cons] at fit
      have accepted : r.apply first = .ok (perform first r) := by rw [apply, fit.1]
      have later : ∀ g ∈ rest, g.validate (perform first r).numQubits = .ok () := by
        rw [perform_numQubits]
        exact fit.2
      have refused' : g.validate (perform first r).numQubits = .error e := by
        rwa [perform_numQubits]
      rw [List.cons_append, run, accepted]
      simp only []
      rw [ih later refused', perform_eq_operate, Gate.leavesOf, operate_append]

theorem run_completes_iff_fit (gates : List (Gate R)) (r : Register R) :
    (run gates r).2 = none ↔ ∀ op ∈ Gate.leavesOf gates, op.Fits r.numQubits := by
  rw [run_completes_iff, Gate.forall_validate_iff]

-- Nothing is carried out if already the first gate does not fit.
theorem run_of_misfit_first {g : Gate R} {r : Register R} (misfit : g.validate r.numQubits ≠ .ok ())
    (after : List (Gate R)) : (run (g :: after) r).1 = r := by
  cases refused : g.validate r.numQubits with
  | ok => exact absurd refused misfit
  | error e =>
      have none : ∀ g ∈ ([] : List (Gate R)), g.validate r.numQubits = .ok () := by simp
      exact congrArg Prod.fst (run_of_misfit none refused after)

/-- A run completes if every gate fits. Otherwise there is a first gate that does not fit: the run
ends with its error, which is that of its first leaf that does not fit, and leaves the register in
which a run of the gates before it ends. -/
theorem run_stops_at_first_misfit (gates : List (Gate R)) (r : Register R) :
    ((run gates r).2 = none ↔ ∀ g ∈ gates, g.validate r.numQubits = .ok ()) ∧
      ((run gates r).2 ≠ none → ∃ k g e, gates[k]? = some g ∧
        (∀ earlier ∈ gates.take k, earlier.validate r.numQubits = .ok ()) ∧
        g.validate r.numQubits = .error e ∧
        (∃ front op back, g.leaves = front ++ op :: back ∧
          (∀ earlier ∈ front, earlier.validate r.numQubits = .ok ()) ∧
          op.validate r.numQubits = .error e) ∧
        run gates r = (operate (Gate.leavesOf (gates.take k)) r, some (.gateRejected e)) ∧
        run (gates.take k) r = (operate (Gate.leavesOf (gates.take k)) r, none)) := by
  refine ⟨run_completes_iff gates r, fun stopped => ?_⟩
  have misfits : gates.forM (·.validate r.numQubits) ≠ .ok () := by
    rw [ne_eq, forM_eq_ok, ← run_completes_iff]
    exact stopped
  cases checked : gates.forM (·.validate r.numQubits) with
  | ok => exact absurd checked misfits
  | error e =>
      obtain ⟨before, g, after, rfl, fit, refused⟩ := forM_eq_error checked
      have leaf := refused
      rw [Gate.validate_eq_forM] at leaf
      have front : (before ++ g :: after).take before.length = before := List.take_left
      refine ⟨before.length, g, e, by simp, ?_, refused, forM_eq_error leaf, ?_, ?_⟩
      · rwa [front]
      · rw [front]
        exact run_of_misfit fit refused after
      · rw [front]
        exact run_of_fit fit

-- The last leaf of the inner group is out of range, so none of the three leaves is carried out.
example :
    let flip (q : Nat) : Gate Float := .standard ⟨.x, ⟨q⟩, .none⟩
    let r : Register Float := .ground 2
    run [flip 1, .composite "a" [flip 2, .composite "b" [flip 1, flip 3]], flip 2] r =
      ((run [flip 1] r).1, some (.gateRejected (.outOfRange ⟨3⟩ 2 (some "X")))) := by
  rfl

end Register
end QCircuit
