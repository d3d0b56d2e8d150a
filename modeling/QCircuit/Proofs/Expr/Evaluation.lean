import QCircuit.Proofs.Checks
import QCircuit.Expr.Parser
/-! Values of expressions.

A value is finite, whatever the environment holds. -/
namespace QCircuit

namespace Expr

theorem finite_eq_ok {x value : Float} : finite x = .ok value ↔ x = value ∧ value.isFinite = true := by
  unfold finite
  by_cases good : x.isFinite = true
  · simp only [good, if_true, Except.ok.injEq]
    exact ⟨fun same => ⟨same, same ▸ good⟩, fun both => both.1⟩
  · simp only [good, if_false, reduceCtorEq, false_iff, Bool.false_eq_true]
    rintro ⟨rfl, finite⟩
    exact good finite

theorem eval_finite {env : Environment} {e : Expr} {value : Float}
    (evaluated : e.eval env = .ok value) : value.isFinite = true := by
  cases e with
  | number x => exact (finite_eq_ok.mp evaluated).2
  | pi => exact (finite_eq_ok.mp evaluated).2
  | var name =>
      rw [eval] at evaluated
      cases found : env.get? name with
      | none => simp [found] at evaluated
      | some x =>
          simp only [found] at evaluated
          exact (finite_eq_ok.mp evaluated).2
  | negate inner =>
      rw [eval, bind_eq_ok] at evaluated
      obtain ⟨x, _, last⟩ := evaluated
      exact (finite_eq_ok.mp last).2
  | binary op left right =>
      simp only [eval, bind_eq_ok] at evaluated
      obtain ⟨x, _, y, _, last⟩ := evaluated
      exact (finite_eq_ok.mp last).2

end Expr

theorem evaluate_eq_ok {text : String} {env : Environment} {value : Float} :
    evaluate text env = .ok value ↔ ∃ e, Expr.parse text = .ok e ∧ e.eval env = .ok value := by
  unfold evaluate
  cases Expr.parse text with
  | error e => simp
  | ok e =>
      cases evaluated : e.eval env <;> simp [evaluated]

theorem evaluate_finite {text : String} {env : Environment} {value : Float}
    (evaluated : evaluate text env = .ok value) : value.isFinite = true := by
  obtain ⟨e, _, inner⟩ := evaluate_eq_ok.mp evaluated
  exact Expr.eval_finite inner

end QCircuit
