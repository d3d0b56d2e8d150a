import QCircuit.Proofs.Double.Packing
import QCircuit.Proofs.Expr.Evaluation
/-! Values of parts of expressions.

An expression in place of a variable counts for what its value would count for as the value of that
variable, and an expression reads no variable but its own. The parts of an expression are evaluated
one after the other, operands before the operation that they belong to and left ones before right
ones. So the error of an expression is the error of the first part in this order that has no value,
and it arises at that part itself, since the operands of the part come before it. -/
namespace QCircuit.Expr

/-- The expression with another in place of each occurrence of a variable. -/
def subst : Expr → String → Expr → Expr
  | number value, _, _ => number value
  | pi, _, _ => pi
  | var other, name, a => if other = name then a else var other
  | negate inner, name, a => negate (inner.subst name a)
  | binary op left right, name, a => binary op (left.subst name a) (right.subst name a)

/-- The variables of an expression, from left to right. -/
def vars : Expr → List String
  | number _ | pi => []
  | var name => [name]
  | negate inner => inner.vars
  | binary _ left right => left.vars ++ right.vars

/-- The parts of an expression, each behind its operands. -/
def postorder : Expr → List Expr
  | number value => [number value]
  | pi => [pi]
  | var name => [var name]
  | negate inner => inner.postorder ++ [negate inner]
  | binary op left right => left.postorder ++ right.postorder ++ [binary op left right]

/-- An expression has no value although its operands have values. -/
inductive Fails (env : Environment) : Expr → EvalError → Prop where
  | number {value : Float} (unbounded : value.isFinite = false) : Fails env (number value) .nonFinite
  | unbound {name : String} (missing : env.get? name = none) :
      Fails env (var name) (.undefinedVariable name)
  | bound {name : String} {value : Float} (found : env.get? name = some value)
      (unbounded : value.isFinite = false) : Fails env (var name) .nonFinite
  | binary {op : BinaryOp} {left right : Expr} {x y : Float} (first : left.eval env = .ok x)
      (second : right.eval env = .ok y) (unbounded : (op.apply x y).isFinite = false) :
      Fails env (binary op left right) .nonFinite

variable {env : Environment}

theorem finite_eq_error {x : Float} {error : EvalError} :
    finite x = .error error ↔ x.isFinite = false ∧ error = .nonFinite := by
  unfold finite
  cases x.isFinite <;> simp [eq_comm]

theorem eval_subst {name : String} {a : Expr} {value : Float} (evaluated : a.eval env = .ok value)
    (e : Expr) : (e.subst name a).eval env = e.eval (env.bind name value) := by
  induction e with
  | number _ | pi => rfl
  | var other =>
      by_cases same : other = name
      · rw [subst, if_pos same, evaluated, eval, same, Environment.get?_bind_self]
        exact (finite_eq_ok.mpr ⟨rfl, eval_finite evaluated⟩).symm
      · rw [subst, if_neg same, eval, eval, Environment.get?_bind_of_ne env name other value same]
  | negate inner ih => rw [subst, eval, eval, ih]
  | binary op left right ihl ihr => rw [subst, eval, eval, ihl, ihr]

theorem eval_congr {env' : Environment} (e : Expr)
    (agree : ∀ name ∈ e.vars, env.get? name = env'.get? name) : e.eval env = e.eval env' := by
  induction e with
  | number _ | pi => rfl
  | var name => rw [eval, eval, agree name List.mem_cons_self]
  | negate inner ih => rw [eval, eval, ih agree]
  | binary op left right ihl ihr =>
      rw [vars, List.forall_mem_append] at agree
      rw [eval, eval, ihl agree.1, ihr agree.2]

-- A value is made from the values of all parts.
theorem exists_eval_of_mem_postorder {e t : Expr} {value : Float} (evaluated : e.eval env = .ok value)
    (part : t ∈ e.postorder) : ∃ x, t.eval env = .ok x := by
  induction e generalizing value with
  | number _ | pi | var _ =>
      rw [List.mem_singleton.mp part]
      exact ⟨value, evaluated⟩
  | negate inner ih =>
      rw [postorder, List.mem_append, List.mem_singleton] at part
      obtain ⟨x, first, -⟩ := bind_eq_ok.mp evaluated
      rcases part with inside | rfl
      · exact ih first inside
      · exact ⟨value, evaluated⟩
  | binary op left right ihl ihr =>
      rw [postorder, List.mem_append, List.mem_append, List.mem_singleton] at part
      obtain ⟨x, first, later⟩ := bind_eq_ok.mp evaluated
      obtain ⟨y, second, -⟩ := bind_eq_ok.mp later
      rcases part with (inside | inside) | rfl
      · exact ihl first inside
      · exact ihr second inside
      · exact ⟨value, evaluated⟩

theorem Fails.eval {s : Expr} {error : EvalError} (fails : Fails env s error) :
    s.eval env = .error error := by
  cases fails with
  | number unbounded => exact finite_eq_error.mpr ⟨unbounded, rfl⟩
  | unbound missing => rw [Expr.eval, missing]
  | bound found unbounded =>
      rw [Expr.eval, found]
      exact finite_eq_error.mpr ⟨unbounded, rfl⟩
  | binary first second unbounded =>
      rw [Expr.eval, first, second]
      exact finite_eq_error.mpr ⟨unbounded, rfl⟩

-- The constant is finite and so is the negative of a finite value, so neither fails by itself.
theorem first_failing {e : Expr} {error : EvalError} (refused : e.eval env = .error error) :
    ∃ before s after, e.postorder = before ++ s :: after ∧
      (∀ t ∈ before, ∃ x, t.eval env = .ok x) ∧ Fails env s error := by
  induction e generalizing error with
  | number value =>
      obtain ⟨unbounded, rfl⟩ := finite_eq_error.mp refused
      exact ⟨[], _, [], rfl, by simp, .number unbounded⟩
  | pi =>
      have bounded : piValue.isFinite = true := by decide +kernel
      rw [eval, finite_eq_error, bounded] at refused
      cases refused.1
  | var name =>
      cases found : env.get? name with
      | none =>
          rw [eval, found] at refused
          cases refused
          exact ⟨[], _, [], rfl, by simp, .unbound found⟩
      | some value =>
          rw [eval, found] at refused
          obtain ⟨unbounded, rfl⟩ := finite_eq_error.mp refused
          exact ⟨[], _, [], rfl, by simp, .bound found unbounded⟩
  | negate inner ih =>
      cases first : inner.eval env with
      | error error' =>
          rw [eval, first] at refused
          cases refused
          obtain ⟨before, s, after, split, valued, fails⟩ := ih first
          exact ⟨before, s, after ++ [negate inner], by simp [postorder, split], valued, fails⟩
      | ok x =>
          rw [eval, first] at refused
          have unbounded := (finite_eq_error.mp refused).1
          rw [isFinite_neg, eval_finite first] at unbounded
          cases unbounded
  | binary op left right ihl ihr =>
      cases first : left.eval env with
      | error error' =>
          rw [eval, first] at refused
          cases refused
          obtain ⟨before, s, after, split, valued, fails⟩ := ihl first
          exact ⟨before, s, after ++ right.postorder ++ [binary op left right],
            by simp [postorder, split], valued, fails⟩
      | ok x =>
          have valuedLeft : ∀ t ∈ left.postorder, ∃ x, t.eval env = .ok x :=
            fun t => exists_eval_of_mem_postorder first
          cases second : right.eval env with
          | error error' =>
              rw [eval, first, second] at refused
              cases refused
              obtain ⟨before, s, after, split, valued, fails⟩ := ihr second
              exact ⟨left.postorder ++ before, s, after ++ [binary op left right],
                by simp [postorder, split], List.forall_mem_append.mpr ⟨valuedLeft, valued⟩, fails⟩
          | ok y =>
              rw [eval, first, second] at refused
              obtain ⟨unbounded, rfl⟩ := finite_eq_error.mp refused
              have valuedRight : ∀ t ∈ right.postorder, ∃ x, t.eval env = .ok x :=
                fun t => exists_eval_of_mem_postorder second
              exact ⟨left.postorder ++ right.postorder, _, [], rfl,
                List.forall_mem_append.mpr ⟨valuedLeft, valuedRight⟩,
                .binary first second unbounded⟩

-- There is one first part without a value.
theorem first_failing_unique {parts before before' after after' : List Expr} {s s' : Expr}
    {error error' : EvalError} (split : parts = before ++ s :: after)
    (valued : ∀ t ∈ before, ∃ x, t.eval env = .ok x) (refused : s.eval env = .error error)
    (split' : parts = before' ++ s' :: after')
    (valued' : ∀ t ∈ before', ∃ x, t.eval env = .ok x) (refused' : s'.eval env = .error error') :
    s = s' := by
  have found : ∀ {before after : List Expr} {s : Expr} {error : EvalError},
      parts = before ++ s :: after → (∀ t ∈ before, ∃ x, t.eval env = .ok x) →
        s.eval env = .error error → parts.find? (fun t => !(t.eval env).isOk) = some s := by
    intro before after s error split valued refused
    rw [List.find?_eq_some_iff_append]
    refine ⟨by rw [refused]; rfl, before, after, split, fun t inside => ?_⟩
    obtain ⟨x, evaluated⟩ := valued t inside
    rw [evaluated]
    rfl
  exact Option.some.inj ((found split valued refused).symm.trans (found split' valued' refused'))

/-- A variable may be replaced by an expression with its value. An expression depends on its own
variables only, its value is finite, and its error is the one of the first part without a value. -/
theorem evaluation_by_parts (env : Environment) (e : Expr) :
    (∀ (name : String) (a : Expr) (value : Float), a.eval env = .ok value →
      (e.subst name a).eval env = e.eval (env.bind name value)) ∧
    (∀ env' : Environment, (∀ name ∈ e.vars, env.get? name = env'.get? name) →
      e.eval env = e.eval env') ∧
    (∀ value, e.eval env = .ok value → value.isFinite = true) ∧
    ∀ error, e.eval env = .error error ↔ ∃ before s after, e.postorder = before ++ s :: after ∧
      (∀ t ∈ before, ∃ x, t.eval env = .ok x) ∧ s.eval env = .error error ∧ Fails env s error := by
  refine ⟨fun _ _ _ evaluated => eval_subst evaluated e, fun _ agree => eval_congr e agree,
    fun _ => eval_finite, fun error => ⟨fun refused => ?_, ?_⟩⟩
  · obtain ⟨before, s, after, split, valued, fails⟩ := first_failing refused
    exact ⟨before, s, after, split, valued, fails.eval, fails⟩
  · rintro ⟨before, s, after, split, valued, refused, -⟩
    cases whole : e.eval env with
    | ok value =>
        have part : s ∈ e.postorder := by simp [split]
        obtain ⟨x, evaluated⟩ := exists_eval_of_mem_postorder whole part
        rw [refused] at evaluated
        cases evaluated
    | error error' =>
        obtain ⟨before', s', after', split', valued', fails⟩ := first_failing whole
        obtain rfl := first_failing_unique split valued refused split' valued' fails.eval
        exact fails.eval.symm.trans refused

-- The quotient fails before the variable that has no value is read.
theorem evaluation_by_parts_division :
    let env : Environment := ⟨[("$i", 2), ("$k", 7)]⟩
    let a : Expr := .binary .mul (.number 1) (.var "$i")
    let quotient : Expr := .binary .div .pi (.binary .sub (.var "$x") (.number 2))
    let e : Expr := .binary .add quotient (.var "$j")
    a.eval env = .ok 2 ∧ a.eval env = a.eval ⟨[("$i", 2)]⟩ ∧ (2 : Float).isFinite = true ∧
      (e.subst "$x" a).eval env = e.eval (env.bind "$x" 2) ∧
      e.eval (env.bind "$x" 2) = .error .nonFinite ∧
      ∃ before s after, e.postorder = before ++ s :: after ∧
        (∀ t ∈ before, ∃ x, t.eval (env.bind "$x" 2) = .ok x) ∧
        s.eval (env.bind "$x" 2) = .error .nonFinite ∧ Fails (env.bind "$x" 2) s .nonFinite := by
  intro env a quotient e
  have evaluated : a.eval env = .ok 2 := by decide +kernel
  have refused : e.eval (env.bind "$x" 2) = .error .nonFinite := by decide +kernel
  refine ⟨evaluated, ?_, ?_, ?_, refused, ?_⟩
  · exact (evaluation_by_parts env a).2.1 ⟨[("$i", 2)]⟩ (by decide +kernel)
  · exact (evaluation_by_parts env a).2.2.1 2 evaluated
  · exact (evaluation_by_parts env e).1 "$x" a 2 evaluated
  · exact ((evaluation_by_parts (env.bind "$x" 2) e).2.2.2 .nonFinite).mp refused

end QCircuit.Expr
