import QCircuit.Proofs.Expr.IntegerLiteral
import QCircuit.Proofs.Expr.SubstitutedText
/-! Numbers as whole words.

A literal without its parentheses, with a sign or without, is an expression of its own: a number, or
a number after a minus. So it has the value of the literal, wherever this is finite. -/
namespace QCircuit
open QCircuit.Expr

namespace Literal
variable (l : Literal)

/-- The literal without parentheses. -/
def bare : String := String.ofList (l.sign ++ l.digits)

theorem tokens?_digits : tokens? l.digits = some [.number l.magnitude] := by
  obtain ⟨_, digits, magnitude, reads⟩ := l
  cases digits with
  | nil => cases reads
  | cons c piece =>
      have alone : longestToken? (c :: (piece ++ [])) = some (.number magnitude, piece.length + 1) := by
        rw [List.append_nil, reads, List.length_cons]
      have whole := tokens?_token alone
      rw [List.append_nil] at whole
      simp only [whole, tokens?, Option.map_some]

theorem tokens?_bare : tokens? (l.sign ++ l.digits) =
    some ((if l.negative then [.minus] else []) ++ [.number l.magnitude]) := by
  have minus : tokens? ('-' :: ([] ++ l.digits)) = (tokens? l.digits).map (.minus :: ·) :=
    tokens?_token rfl
  cases signed : l.negative with
  | false => simp [sign, signed, l.tokens?_digits]
  | true =>
      rw [List.nil_append, l.tokens?_digits] at minus
      simp [sign, signed, minus]

theorem parse_bare : parse l.bare = .ok l.expr := by
  rw [parse_eq_ok, bare, String.toList_ofList]
  refine ⟨_, l.tokens?_bare, ?_⟩
  cases signed : l.negative with
  | false =>
      simp [ofTokens, expr, signed, step, readOperand, applySigns, finish, finishTo, bind,
        Except.bind, pure, Except.pure]
  | true =>
      simp [ofTokens, expr, signed, step, readOperand, applySigns, finish, finishTo, bind,
        Except.bind, pure, Except.pure]

theorem evaluate_bare (finite : l.value.isFinite = true) (env : Environment) :
    evaluate l.bare env = .ok l.value := by
  rw [evaluate_eq_ok]
  refine ⟨l.expr, l.parse_bare, ?_⟩
  rw [eval_literal, finite_eq_ok]
  exact ⟨rfl, finite⟩

theorem bare_chars : ∀ c ∈ l.bare.toList, isChar c = true := by
  intro c inside
  rw [bare, String.toList_ofList] at inside
  apply l.text_chars
  rw [text, List.mem_cons, List.mem_append]
  exact .inr (.inl inside)

theorem bare_ne_nil : l.bare.toList ≠ [] := by
  rw [bare, String.toList_ofList]
  apply List.append_ne_nil_of_right_ne_nil
  intro none
  have reads := l.reads
  rw [none] at reads
  cases reads

theorem bare_ofNat (n : Nat) : (ofInt n).bare = toString n := by
  have positive : ¬ (n : Int) < 0 := Int.not_lt.mpr (Int.natCast_nonneg n)
  simp [bare, sign, ofInt, positive, Nat.repr]

end Literal
end QCircuit
