import QCircuit.Proofs.Expr.Evaluation
import QCircuit.Proofs.Double.Packing
import QCircuit.Proofs.Expr.Substitution
/-! Values of texts with literals in place of variables.

A literal in parentheses is read onto the stack as a variable would be, so the expression that is
read has the number in place of the variable. It has the same value where the variable is bound to
the literal's value. -/
namespace QCircuit
open QCircuit.Expr

/-- The expression of a literal. -/
def Literal.expr (l : Literal) : Expr :=
  if l.negative then .negate (.number l.magnitude) else .number l.magnitude

namespace Expr

/-- The expression with the literal of each variable in its place. -/
def replace (σ : Substitution) : Expr → Expr
  | number value => number value
  | pi => pi
  | var name => ((σ.literal? name).map Literal.expr).getD (var name)
  | negate inner => negate (inner.replace σ)
  | binary op left right => binary op (left.replace σ) (right.replace σ)

def Frame.replace (σ : Substitution) : Frame → Frame
  | .group => .group
  | .negate => .negate
  | .binary op left => .binary op (left.replace σ)

def Reading.replace (σ : Substitution) (r : Reading) : Reading :=
  ⟨r.stack.map (Frame.replace σ), r.operand?.map (Expr.replace σ)⟩

section Reading
variable (σ : Substitution)

theorem applySigns_replace (stack : List Frame) (e : Expr) :
    applySigns (stack.map (Frame.replace σ)) (e.replace σ) = (applySigns stack e).replace σ := by
  induction stack generalizing e with
  | nil => rfl
  | cons frame rest ih =>
      cases frame with
      | negate => exact ih (.negate e)
      | group => rfl
      | binary op left => rfl

theorem finishTo_replace (level : Nat) (stack : List Frame) (e : Expr) :
    finishTo level (stack.map (Frame.replace σ)) (e.replace σ) =
      ((finishTo level stack e).1.map (Frame.replace σ), (finishTo level stack e).2.replace σ) := by
  induction stack generalizing e with
  | nil => rfl
  | cons frame rest ih =>
      cases frame with
      | negate => rfl
      | group => rfl
      | binary op left =>
          by_cases tight : level ≤ op.level
          · simp only [List.map_cons, Frame.replace, finishTo, tight, if_true]
            exact ih (.binary op left e)
          · simp [Frame.replace, finishTo, tight]

theorem readOperand_replace {t : Token} (kept : σ.tokenTokens t = [t]) (stack : List Frame)
    (r : Reading) :
    readOperand (stack.map (Frame.replace σ)) t = .ok r ↔
      ∃ r', readOperand stack t = .ok r' ∧ r = r'.replace σ := by
  cases t with
  | var name =>
      have own : (Expr.var name).replace σ = .var name := by
        cases found : σ.literal? name with
        | none => simp [replace, found]
        | some l => simp [Substitution.tokenTokens, found, Literal.tokens] at kept
      simp only [readOperand, Except.ok.injEq, exists_eq_left']
      rw [← applySigns_replace, own, eq_comm]
  | number value =>
      simp only [readOperand, Except.ok.injEq, exists_eq_left']
      rw [← applySigns_replace, eq_comm]
      rfl
  | pi =>
      simp only [readOperand, Except.ok.injEq, exists_eq_left']
      rw [← applySigns_replace, eq_comm]
      rfl
  | minus | plus | leftParen => simp [readOperand, Reading.replace, Frame.replace, eq_comm]
  | star | slash | rightParen => simp [readOperand]

theorem readOperator_replace (stack : List Frame) (e : Expr) (t : Token) (r : Reading) :
    readOperator (stack.map (Frame.replace σ)) (e.replace σ) t = .ok r ↔
      ∃ r', readOperator stack e t = .ok r' ∧ r = r'.replace σ := by
  unfold readOperator
  cases binaryOp? t with
  | some op =>
      simp [finishTo_replace, Reading.replace, Frame.replace, eq_comm]
  | none =>
      rw [finishTo_replace]
      rcases finishTo 0 stack e with ⟨later, inner⟩
      cases later with
      | nil => simp
      | cons frame rest =>
          cases frame with
          | group =>
              by_cases closes : t = .rightParen
              · simp [Frame.replace, closes, applySigns_replace, eq_comm]
              · simp [Frame.replace, closes]
          | negate => simp [Frame.replace]
          | binary op left => simp [Frame.replace]

-- With an operand at hand, neither a variable nor an opening parenthesis can follow.
theorem readOperator_ne_ok {stack : List Frame} {e : Expr} {t : Token} (noOperator : binaryOp? t = none)
    (noClosing : t ≠ .rightParen) (r : Reading) : readOperator stack e t ≠ .ok r := by
  rw [readOperator, noOperator]
  rcases finishTo 0 stack e with ⟨later, inner⟩
  cases later with
  | nil => simp
  | cons frame rest => cases frame <;> simp [noClosing]

theorem foldlM_literal (l : Literal) (stack : List Frame) :
    l.tokens.foldlM step ⟨stack, none⟩ = .ok (applySigns stack l.expr) := by
  cases signed : l.negative with
  | false =>
      simp [Literal.tokens, Literal.expr, signed, step, readOperand, applySigns, readOperator,
        binaryOp?, finishTo, bind, Except.bind, pure, Except.pure]
  | true =>
      simp [Literal.tokens, Literal.expr, signed, step, readOperand, applySigns, readOperator,
        binaryOp?, finishTo, bind, Except.bind, pure, Except.pure]

theorem step_replace (start : Reading) (t : Token) (r : Reading) :
    (σ.tokenTokens t).foldlM step (start.replace σ) = .ok r ↔
      ∃ r', step start t = .ok r' ∧ r = r'.replace σ := by
  by_cases kept : σ.tokenTokens t = [t]
  · obtain ⟨stack, operand?⟩ := start
    rw [kept, List.foldlM_cons]
    simp only [List.foldlM_nil, bind_pure]
    cases operand? with
    | none => exact readOperand_replace σ kept stack r
    | some e => exact readOperator_replace σ stack e t r
  · cases t with
    | var name =>
        cases found : σ.literal? name with
        | none => simp [Substitution.tokenTokens, found] at kept
        | some l =>
            obtain ⟨stack, operand?⟩ := start
            have tokens : σ.tokenTokens (.var name) = l.tokens := by
              simp [Substitution.tokenTokens, found]
            have expr : (Expr.var name).replace σ = l.expr := by simp [replace, found]
            rw [tokens]
            cases operand? with
            | none =>
                have literal := foldlM_literal l (stack.map (Frame.replace σ))
                simp only [Reading.replace, Option.map_none, literal, step, readOperand,
                  Except.ok.injEq, exists_eq_left']
                rw [← expr, applySigns_replace, eq_comm]
                rfl
            | some e =>
                constructor
                · intro ran
                  rw [Literal.tokens, List.foldlM_cons, bind_eq_ok] at ran
                  obtain ⟨r', first, _⟩ := ran
                  have opened : readOperator (stack.map (Frame.replace σ)) (e.replace σ) .leftParen =
                    .ok r' := first
                  exact absurd opened (readOperator_ne_ok rfl (by simp) _)
                · rintro ⟨r', first, _⟩
                  have named : readOperator stack e (.var name) = .ok r' := first
                  exact absurd named (readOperator_ne_ok rfl (by simp) _)
    | _ => exact absurd rfl kept

theorem foldlM_replace (start : Reading) (ts : List Token) (r : Reading) :
    (ts.flatMap σ.tokenTokens).foldlM step (start.replace σ) = .ok r ↔
      ∃ r', ts.foldlM step start = .ok r' ∧ r = r'.replace σ := by
  induction ts generalizing start with
  | nil => simp [pure, Except.pure, eq_comm]
  | cons t rest ih =>
      simp only [List.flatMap_cons, List.foldlM_append, List.foldlM_cons, bind_eq_ok, step_replace]
      constructor
      · rintro ⟨_, ⟨middle, first, rfl⟩, later⟩
        obtain ⟨last, ran, rfl⟩ := (ih middle).mp later
        exact ⟨last, ⟨middle, first, ran⟩, rfl⟩
      · rintro ⟨last, ⟨middle, first, ran⟩, rfl⟩
        exact ⟨_, ⟨middle, first, rfl⟩, (ih middle).mpr ⟨last, ran, rfl⟩⟩

theorem finish_replace (r : Reading) (e : Expr) :
    finish (r.replace σ) = .ok e ↔ ∃ e', finish r = .ok e' ∧ e = e'.replace σ := by
  obtain ⟨stack, operand?⟩ := r
  cases operand? with
  | none => simp [finish, Reading.replace]
  | some whole =>
      simp only [finish, Reading.replace, Option.map_some, finishTo_replace]
      rcases finishTo 0 stack whole with ⟨later, inner⟩
      cases later with
      | nil => simp [eq_comm]
      | cons frame rest => simp

theorem ofTokens_replace (ts : List Token) (e : Expr) :
    ofTokens (ts.flatMap σ.tokenTokens) = .ok e ↔ ∃ e', ofTokens ts = .ok e' ∧ e = e'.replace σ := by
  cases ts with
  | nil => simp [ofTokens]
  | cons t rest =>
      have written : σ.tokenTokens t ≠ [] := by
        cases t with
        | var name =>
            cases found : σ.literal? name <;> simp [Substitution.tokenTokens, found, Literal.tokens]
        | _ => simp [Substitution.tokenTokens]
      have written' : (t :: rest).flatMap σ.tokenTokens ≠ [] := by
        rw [List.flatMap_cons]
        exact List.append_ne_nil_of_left_ne_nil written _
      have fold := foldlM_replace σ ⟨[], none⟩ (t :: rest)
      simp only [Reading.replace, List.map_nil, Option.map_none] at fold
      simp only [ofTokens, written', if_false, reduceCtorEq, bind_eq_ok, fold]
      constructor
      · rintro ⟨_, ⟨r, ran, rfl⟩, last⟩
        obtain ⟨e', done, rfl⟩ := (finish_replace σ r e).mp last
        exact ⟨e', ⟨r, ran, done⟩, rfl⟩
      · rintro ⟨e', ⟨r, ran, done⟩, rfl⟩
        exact ⟨_, ⟨r, ran, rfl⟩, (finish_replace σ r _).mpr ⟨e', done, rfl⟩⟩

end Reading

theorem parse_applyWord (σ : Substitution) (word : String) (e : Expr) :
    parse (σ.applyWord word) = .ok e ↔ ∃ e', parse word = .ok e' ∧ e = e'.replace σ := by
  simp only [parse_eq_ok, Substitution.applyWord, String.toList_ofList, σ.tokens?_apply,
    Option.map_eq_some_iff]
  constructor
  · rintro ⟨_, ⟨ts, read, rfl⟩, parsed⟩
    obtain ⟨e', parsed', rfl⟩ := (ofTokens_replace σ ts e).mp parsed
    exact ⟨e', ⟨ts, read, parsed'⟩, rfl⟩
  · rintro ⟨e', ⟨ts, read, parsed'⟩, rfl⟩
    exact ⟨_, ⟨ts, read, rfl⟩, (ofTokens_replace σ ts _).mpr ⟨e', parsed', rfl⟩⟩

theorem eval_literal (l : Literal) (env : Environment) : l.expr.eval env = finite l.value := by
  cases signed : l.negative with
  | false => simp [Literal.expr, Literal.value, signed, eval]
  | true =>
      simp only [Literal.expr, Literal.value, signed, if_true, eval]
      by_cases good : l.magnitude.isFinite = true
      · simp [finite, good, bind, Except.bind]
      · simp [finite, good, isFinite_neg, bind, Except.bind]

end Expr

/-- The first environment gives the variables of a substitution the values of their literals, and
all others the values that they have in the second. -/
structure Substitution.Replaces (σ : Substitution) (env env' : Environment) : Prop where
  literals : ∀ name l, σ.literal? name = some l → env.get? name = some l.value
  others : ∀ name, σ.literal? name = none → env.get? name = env'.get? name

namespace Substitution.Replaces
variable {σ : Substitution} {env env' : Environment}

theorem eval_replace (replaces : σ.Replaces env env') (e : Expr) :
    (e.replace σ).eval env' = e.eval env := by
  induction e with
  | number value => rfl
  | pi => rfl
  | var name =>
      cases found : σ.literal? name with
      | none => simp only [Expr.replace, found, Option.map_none, Option.getD_none, eval,
          replaces.others name found]
      | some l =>
          simp only [Expr.replace, found, Option.map_some, Option.getD_some, eval_literal, eval,
            replaces.literals name l found]
  | negate inner ih => rw [Expr.replace, eval, eval, ih]
  | binary op left right ihl ihr => rw [Expr.replace, eval, eval, ihl, ihr]

/-- A word has the value that it has with the literals in place of the variables. -/
theorem evaluate_applyWord (replaces : σ.Replaces env env') (word : String) (value : Float) :
    evaluate (σ.applyWord word) env' = .ok value ↔ evaluate word env = .ok value := by
  simp only [evaluate_eq_ok, parse_applyWord]
  constructor
  · rintro ⟨_, ⟨e, parsed, rfl⟩, evaluated⟩
    rw [replaces.eval_replace] at evaluated
    exact ⟨e, parsed, evaluated⟩
  · rintro ⟨e, parsed, evaluated⟩
    rw [← replaces.eval_replace] at evaluated
    exact ⟨_, ⟨e, parsed, rfl⟩, evaluated⟩

-- A variable that is bound again has its new value in both.
theorem bind (replaces : σ.Replaces env env') (name : String) (value : Float) :
    (σ.without name).Replaces (env.bind name value) (env'.bind name value) := by
  have own := σ.literal?_without_self name
  have kept := σ.literal?_without_of_ne name
  constructor
  · intro other l found
    by_cases same : other = name
    · subst same
      rw [own] at found
      cases found
    · rw [kept other same] at found
      rw [Environment.get?_bind_of_ne env name other value same]
      exact replaces.literals other l found
  · intro other found
    by_cases same : other = name
    · subst same
      rw [Environment.get?_bind_self, Environment.get?_bind_self]
    · rw [kept other same] at found
      rw [Environment.get?_bind_of_ne env name other value same,
        Environment.get?_bind_of_ne env' name other value same]
      exact replaces.others other found

end Substitution.Replaces
end QCircuit
